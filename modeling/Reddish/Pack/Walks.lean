import Reddish.Pack

namespace Reddish

open Library Numeral

namespace Pack

/-!
# Walking over a run of elements

The database follows a run forwards with `decode` and `stride` and backwards
with `decode_backlen` and `backlen_bytes`.  Both walks are stated as loops that
stop when the cursor reaches the other end, in a memory with arbitrary bytes on
both sides of the run.
-/

/-- One element forwards: the element at a position, and the position behind
it. -/
def next (memory : Bytes) (position : Nat) : Value × Nat :=
  (decode (memory.drop position), position + stride (memory.drop position))

/-- One element backwards: the element that ends at a position, and the
position of its first byte. -/
def previous (memory : Bytes) (position : Nat) : Value × Nat :=
  let body := decodeBacklen (memory.take position)
  let start := position - (body + backlenBytes body)
  (decode (memory.drop start), start)

/-- Follow a cursor to `stop`, in at most `rounds` rounds. -/
def walk (step : Nat -> Value × Nat) (stop : Nat) : Nat -> Nat -> Option (List Value)
  | 0, position => if position = stop then some [] else none
  | rounds + 1, position =>
      if position = stop then some []
      else (walk step stop rounds (step position).2).map ((step position).1 :: ·)

/-- The walk from the first to the last element.  No element is empty, so that
there are at most as many as there are bytes. -/
def walkForward (memory : Bytes) (first last : Nat) : Option (List Value) :=
  walk (next memory) last (last - first) first

def walkBackward (memory : Bytes) (first last : Nat) : Option (List Value) :=
  walk (previous memory) first (last - first) last

/-- The elements of a list, one behind the other. -/
def run (values : List Value) : Bytes :=
  values.flatMap encode

variable {values : List Value} {value : Value} {step : Nat -> Value × Nat}

@[simp] theorem run_cons (value : Value) (values : List Value) :
    run (value :: values) = encode value ++ run values :=
  List.flatMap_cons

@[simp] theorem run_append (first second : List Value) :
    run (first ++ second) = run first ++ run second :=
  List.flatMap_append

@[simp] theorem run_singleton (value : Value) : run [value] = encode value := by
  rw [run_cons, run, List.flatMap_nil, List.append_nil]

theorem encode_pos (value : Value) : 0 < (encode value).length := by
  rw [length_encode]
  exact Nat.lt_of_le_of_lt (Nat.zero_le _) (bodySize_lt_encodedSize value)

theorem walk_stop (stop rounds : Nat) : walk step stop rounds stop = some [] := by
  cases rounds with
  | zero => exact if_pos rfl
  | succ rounds => exact if_pos rfl

theorem walk_step {stop rounds position after : Nat} (onTheWay : position ≠ stop)
    (enough : 0 < rounds) (stepped : step position = (value, after)) :
    walk step stop rounds position = (walk step stop (rounds - 1) after).map (value :: ·) := by
  cases rounds with
  | zero => exact absurd enough (Nat.lt_irrefl 0)
  | succ rounds => rw [walk, if_neg onTheWay, stepped, Nat.add_sub_cancel]

/-! ## One element -/

theorem next_encode (fits : Fits value) (before after : Bytes) :
    next (before ++ (encode value ++ after)) before.length =
      (value, before.length + (encode value).length) := by
  rw [next, List.drop_left, decode_encode fits, stride_encode fits]

theorem previous_encode (fits : Fits value) (before after : Bytes) :
    previous (before ++ encode value ++ after) (before ++ encode value).length =
      (value, before.length) := by
  have start : (before ++ encode value).length -
      ((encodeBody value).length + backlenBytes (encodeBody value).length) = before.length := by
    rw [backlen_encode, List.length_append, Nat.add_sub_cancel]
  simp only [previous, List.take_left, decodeBacklen_encode fits, start]
  rw [List.append_assoc, List.drop_left, decode_encode fits]

/-! ## All elements -/

theorem walk_forward (values : List Value) : forall (before after : Bytes) (rounds : Nat),
    (forall value, value ∈ values -> Fits value) -> (run values).length ≤ rounds ->
    walk (next (before ++ (run values ++ after))) (before.length + (run values).length) rounds
      before.length = some values := by
  induction values with
  | nil =>
      intro before after rounds _ _
      exact walk_stop before.length rounds
  | cons value values ih =>
      intro before after rounds fits enough
      have positive := encode_pos value
      rw [run_cons, List.length_append] at enough
      rw [run_cons, List.append_assoc]
      have stepped := next_encode (fits value List.mem_cons_self) before (run values ++ after)
      rw [walk_step (by rw [List.length_append]; omega) (by omega) stepped]
      have rest := ih (before ++ encode value) after (rounds - 1)
        (fun other inside => fits other (List.mem_cons_of_mem value inside)) (by omega)
      rw [List.append_assoc, List.length_append, Nat.add_assoc, <- List.length_append] at rest
      rw [rest, Option.map_some]

/-- Backwards the elements are met in the opposite order, so that the induction
takes them off at the end. -/
theorem walk_backward (values : List Value) : forall (before after : Bytes) (rounds : Nat),
    (forall value, value ∈ values -> Fits value) -> (run values).length ≤ rounds ->
    walk (previous (before ++ run values ++ after)) before.length rounds
      (before ++ run values).length = some values.reverse := by
  induction values using List.reverseRecOn with
  | nil =>
      intro before after rounds _ _
      rw [run, List.flatMap_nil, List.append_nil]
      exact walk_stop before.length rounds
  | append_singleton values value ih =>
      intro before after rounds fits enough
      have positive := encode_pos value
      rw [run_append, run_singleton, List.length_append] at enough
      rw [run_append, run_singleton, <- List.append_assoc]
      have stepped := previous_encode (fits value (by simp)) (before ++ run values) after
      rw [walk_step (by simp only [List.length_append]; omega) (by omega) stepped]
      have rest := ih before (encode value ++ after) (rounds - 1)
        (fun other inside => fits other (List.mem_append_left _ inside)) (by omega)
      rw [<- List.append_assoc] at rest
      rw [rest, Option.map_some, List.reverse_append, List.reverse_singleton,
        List.singleton_append]

/-- What the size functions and `decode` say about an element. -/
structure SizesExact (value : Value) : Prop where
  encodedSize : encodedSize value = (encode value).length
  bodySize : bodySize value = (encodeBody value).length
  stride : forall rest, stride (encode value ++ rest) = (encode value).length
  elementSize : forall rest, elementSize (encodeBody value ++ rest) = (encodeBody value).length
  decode : forall rest, decode (encodeBody value ++ rest) = value

theorem sizes_exact (fits : Fits value) : SizesExact value where
  encodedSize := (length_encode value).symm
  bodySize := (length_encodeBody value).symm
  stride := stride_encode fits
  elementSize := elementSize_encodeBody fits
  decode := decode_encodeBody fits

/-- The codec is exact in both directions, wherever the run lies in memory. -/
theorem codec_exact (values : List Value) (fits : forall value, value ∈ values -> Fits value)
    (before after : Bytes) :
    walkForward (before ++ run values ++ after) before.length
        (before.length + (run values).length) = some values ∧
      walkBackward (before ++ run values ++ after) before.length
        (before.length + (run values).length) = some values.reverse ∧
      forall value, value ∈ values -> SizesExact value := by
  have width : before.length + (run values).length - before.length = (run values).length :=
    Nat.add_sub_cancel_left _ _
  unfold walkForward walkBackward
  refine ⟨?_, ?_, fun value inside => sizes_exact (fits value inside)⟩
  · rw [width, List.append_assoc]
    exact walk_forward values before after _ fits (Nat.le_refl _)
  · rw [width, <- List.length_append]
    exact walk_backward values before after _ fits (Nat.le_refl _)

theorem codec_exact_mixed :
    walkBackward ([0xFF] ++ run [.text [97, 0x80], .integer (-1)] ++ [0x7F]) 1
        (1 + (run [.text [97, 0x80], .integer (-1)]).length) =
      some [.integer (-1), .text [97, 0x80]] :=
  (codec_exact [.text [97, 0x80], .integer (-1)]
    (by
      intro value inside
      simp only [List.mem_cons, List.not_mem_nil, or_false] at inside
      rcases inside with rfl | rfl
      · exact Nat.lt_of_le_of_lt (show 2 ≤ 2 from Nat.le_refl 2) (by decide)
      · exact trivial) [0xFF] [0x7F]).2.1

end Pack

end Reddish
