import Mathlib

namespace Reddish
namespace Library

/-!
# Byte buffers

A block of memory is a list of cells.  Copying into it replaces a window and
never changes its length as long as the window lies inside, which is the
bounds condition the callers have to establish.  The laws below say what a
later read of any window sees after such a copy.
-/

namespace Buffer

variable {α : Type}

/-- The window of `length` cells that starts at `offset`. -/
def slice (offset length : Nat) (buffer : List α) : List α :=
  (buffer.drop offset).take length

/-- Copy `data` over the window that starts at `offset`. -/
def write (offset : Nat) (data buffer : List α) : List α :=
  buffer.take offset ++ data ++ buffer.drop (offset + data.length)

/-- Move a window inside one buffer; source and target may overlap because
the source is read completely before the first cell is written. -/
def move (target source length : Nat) (buffer : List α) : List α :=
  write target (slice source length buffer) buffer

/-- Replace the window of `old` cells at `offset` by `data`; the cells behind
it, up to `used`, move if the sizes differ. -/
def splice (offset old used : Nat) (data buffer : List α) : List α :=
  let tail := used - offset - old
  let moved :=
    if tail ≠ 0 ∧ data.length ≠ old then move (offset + data.length) (offset + old) tail buffer
    else buffer
  write offset data moved

/-- Remove the window of `old` cells at `offset` by moving the cells behind it,
up to `used`. -/
def close (offset old used : Nat) (buffer : List α) : List α :=
  let tail := used - offset - old
  if tail ≠ 0 then move offset (offset + old) tail buffer else buffer

theorem length_slice (offset length : Nat) (buffer : List α) :
    (slice offset length buffer).length = min length (buffer.length - offset) := by
  simp only [slice, List.length_take, List.length_drop]

theorem length_slice_of_le {offset length : Nat} {buffer : List α}
    (inside : offset + length ≤ buffer.length) :
    (slice offset length buffer).length = length := by
  rw [length_slice]
  omega

theorem length_write {offset : Nat} {data buffer : List α}
    (inside : offset + data.length ≤ buffer.length) :
    (write offset data buffer).length = buffer.length := by
  simp only [write, List.length_append, List.length_take, List.length_drop]
  omega

@[simp] theorem slice_zero_length (offset : Nat) (buffer : List α) :
    slice offset 0 buffer = [] := by
  simp only [slice, List.take_zero]

theorem slice_zero (length : Nat) (buffer : List α) :
    slice 0 length buffer = buffer.take length := by
  simp only [slice, List.drop_zero]

/-- Two adjacent windows are one longer window. -/
theorem slice_add (offset first second : Nat) (buffer : List α) :
    slice offset (first + second) buffer =
      slice offset first buffer ++ slice (offset + first) second buffer := by
  simp only [slice]
  rw [List.take_add, List.drop_drop]

theorem slice_slice {offset length inner size : Nat} {buffer : List α}
    (inside : inner + size ≤ length) :
    slice inner size (slice offset length buffer) = slice (offset + inner) size buffer := by
  simp only [slice, List.drop_take, List.take_take, List.drop_drop]
  congr 1
  omega

theorem slice_take {offset length bound : Nat} {buffer : List α}
    (inside : offset + length ≤ bound) :
    slice offset length (buffer.take bound) = slice offset length buffer := by
  simp only [slice, List.drop_take, List.take_take]
  congr 1
  omega

/-- A copy is read back from its own window. -/
theorem slice_write_same {offset : Nat} {data buffer : List α}
    (inside : offset ≤ buffer.length) :
    slice offset data.length (write offset data buffer) = data := by
  simp only [slice, write, List.append_assoc]
  rw [List.drop_append, List.length_take, Nat.min_eq_left inside, Nat.sub_self,
    List.drop_eq_nil_of_le (by rw [List.length_take]; omega)]
  simp only [List.nil_append, List.drop_zero, List.take_left]

/-- A part of a copy is read back from inside its window. -/
theorem slice_write_inside {offset inner size : Nat} {data buffer : List α}
    (inside : offset ≤ buffer.length) (part : inner + size ≤ data.length) :
    slice (offset + inner) size (write offset data buffer) = slice inner size data := by
  rw [← slice_slice part, slice_write_same inside]

/-- A copy is invisible to windows that end before it. -/
theorem slice_write_before {offset start size : Nat} {data buffer : List α}
    (inside : offset ≤ buffer.length) (before : start + size ≤ offset) :
    slice start size (write offset data buffer) = slice start size buffer := by
  simp only [slice, write, List.append_assoc]
  rw [List.drop_append_of_le_length (by rw [List.length_take]; omega),
    List.take_append_of_le_length (by rw [List.length_drop, List.length_take]; omega),
    List.drop_take, List.take_take]
  congr 1
  omega

/-- A copy is invisible to windows that start after it. -/
theorem slice_write_after {offset start size : Nat} {data buffer : List α}
    (inside : offset ≤ buffer.length) (after : offset + data.length ≤ start) :
    slice start size (write offset data buffer) = slice start size buffer := by
  simp only [slice, write]
  have front : (buffer.take offset ++ data).length = offset + data.length := by
    rw [List.length_append, List.length_take, Nat.min_eq_left inside]
  rw [List.drop_append, List.drop_eq_nil_of_le (by rw [front]; exact after), front,
    List.nil_append, List.drop_drop]
  congr 2
  omega

theorem drop_write_of_le {offset start : Nat} {data buffer : List α}
    (inside : offset ≤ buffer.length) (after : offset + data.length ≤ start) :
    (write offset data buffer).drop start = buffer.drop start := by
  have front : (buffer.take offset ++ data).length = offset + data.length := by
    rw [List.length_append, List.length_take, Nat.min_eq_left inside]
  simp only [write]
  rw [List.drop_append, List.drop_eq_nil_of_le (by omega), List.nil_append, List.drop_drop, front]
  congr 1
  omega

/-- A write behind a border is a write into what lies behind the border. -/
theorem drop_write_add {border offset : Nat} {data buffer : List α}
    (inside : border + offset ≤ buffer.length) :
    (write (border + offset) data buffer).drop border =
      write offset data (buffer.drop border) := by
  simp only [write, List.append_assoc, List.drop_drop]
  rw [List.drop_append_of_le_length (by rw [List.length_take]; omega), List.drop_take,
    Nat.add_sub_cancel_left, Nat.add_assoc]

theorem take_write_of_le {offset bound : Nat} {data buffer : List α}
    (inside : offset ≤ buffer.length) (before : bound ≤ offset) :
    (write offset data buffer).take bound = buffer.take bound := by
  rw [← slice_zero, ← slice_zero]
  exact slice_write_before inside (by omega)

/-- A copy between two windows that are already in place. -/
theorem take_write_between {front data back buffer : List α}
    (head : buffer.take front.length = front)
    (tail : slice (front.length + data.length) back.length buffer = back)
    (room : front.length + data.length ≤ buffer.length) :
    (write front.length data buffer).take (front.length + data.length + back.length) =
      front ++ data ++ back := by
  rw [<- slice_zero, slice_add, slice_add, Nat.zero_add, Nat.zero_add,
    slice_write_before (by omega) (by omega), slice_write_same (by omega),
    slice_write_after (by omega) (Nat.le_refl _), slice_zero, head, tail]

variable {front old data back buffer : List α}

/-- The window at the start of a buffer that holds three parts. -/
theorem take_of_three (bytes : buffer.take (front ++ old ++ back).length = front ++ old ++ back) :
    buffer.take front.length = front := by
  have cut := congrArg (List.take front.length) bytes
  rw [List.take_take, List.append_assoc, Nat.min_eq_left (by rw [List.length_append]; omega),
    List.take_left] at cut
  exact cut

/-- The window at the end of a buffer that holds three parts. -/
theorem slice_of_three (bytes : buffer.take (front ++ old ++ back).length = front ++ old ++ back) :
    slice (front.length + old.length) back.length buffer = back := by
  have cut := @slice_take α (front.length + old.length) back.length
    (front ++ old ++ back).length buffer (by rw [List.length_append, List.length_append])
  rw [bytes] at cut
  rw [<- cut]
  unfold slice
  rw [<- List.length_append, List.drop_left, List.take_length]

theorem tail_of_three :
    (front ++ old ++ back).length - front.length - old.length = back.length := by
  rw [List.length_append, List.length_append]
  omega

/-- Splicing exchanges the middle of three parts. -/
theorem take_splice (bytes : buffer.take (front ++ old ++ back).length = front ++ old ++ back)
    (room : (front ++ data ++ back).length ≤ buffer.length) :
    (splice front.length old.length (front ++ old ++ back).length data buffer).length =
        buffer.length ∧
      (splice front.length old.length (front ++ old ++ back).length data buffer).take
          (front ++ data ++ back).length = front ++ data ++ back := by
  have size : (front ++ data ++ back).length = front.length + data.length + back.length := by
    rw [List.length_append, List.length_append]
  rw [size] at room ⊢
  unfold splice
  simp only [tail_of_three]
  split
  case isTrue moves =>
    unfold move
    rw [slice_of_three bytes]
    have longer := length_write room
    refine ⟨?_, take_write_between ?_ ?_ ?_⟩
    · exact (length_write (by rw [longer]; omega)).trans longer
    · exact (take_write_of_le (by omega) (by omega)).trans (take_of_three bytes)
    · exact slice_write_same (by omega)
    · rw [longer]
      omega
  case isFalse stays =>
    refine ⟨length_write (by omega), take_write_between (take_of_three bytes) ?_ (by omega)⟩
    by_cases empty : back = []
    · rw [empty]
      exact slice_zero_length _ _
    · have same : data.length = old.length := by
        by_contra different
        exact stays ⟨fun zero => empty (List.eq_nil_of_length_eq_zero zero), different⟩
      rw [same]
      exact slice_of_three bytes

/-- Closing a gap drops the middle of three parts. -/
theorem take_close (bytes : buffer.take (front ++ old ++ back).length = front ++ old ++ back)
    (room : (front ++ old ++ back).length ≤ buffer.length) :
    (close front.length old.length (front ++ old ++ back).length buffer).length =
        buffer.length ∧
      (close front.length old.length (front ++ old ++ back).length buffer).take
          (front ++ back).length = front ++ back := by
  rw [List.length_append, List.length_append] at room
  unfold close
  simp only [tail_of_three]
  split
  case isTrue moves =>
    unfold move
    rw [slice_of_three bytes]
    refine ⟨length_write (by omega), ?_⟩
    have joined := @take_write_between α front back [] buffer (take_of_three bytes)
      (slice_zero_length _ _) (by omega)
    rw [List.append_nil, List.length_nil, Nat.add_zero] at joined
    rw [List.length_append]
    exact joined
  case isFalse stays =>
    have empty : back = [] := List.eq_nil_of_length_eq_zero (not_not.mp stays)
    rw [empty, List.append_nil]
    exact ⟨rfl, take_of_three bytes⟩

end Buffer

end Library
end Reddish
