import Mathlib

namespace Reddish
namespace Library

/-!
# Doubly linked lists

The two link fields of every cell, seen as two functions from cells to cells,
and the two ends.  `Represents` says that the pointers spell out one list
without repetitions, read in both directions; each pointer operation is then a
list operation.
-/

/-- The link fields of all cells, with the first and the last cell. -/
structure Links (α : Type) where
  previous : α -> Option α
  next : α -> Option α
  head : Option α
  tail : Option α

namespace Links

variable {α : Type}

def empty : Links α :=
  { previous := fun _ => none, next := fun _ => none, head := none, tail := none }

section Operations

variable [DecidableEq α]

/-- Write one link field of the cell that a pointer refers to, if any. -/
def redirect (field : α -> Option α) (target value : Option α) : α -> Option α :=
  match target with
  | none => field
  | some cell => Function.update field cell value

/-- Take a cell out: its neighbours, or the ends, are joined to each other. -/
def unlink (cell : α) (links : Links α) : Links α :=
  { previous := Function.update
      (redirect links.previous (links.next cell) (links.previous cell)) cell none
    next := Function.update
      (redirect links.next (links.previous cell) (links.next cell)) cell none
    head := if (links.previous cell).isSome then links.head else links.next cell
    tail := if (links.next cell).isSome then links.tail else links.previous cell }

def pushFront (cell : α) (links : Links α) : Links α :=
  { previous := redirect (Function.update links.previous cell none) links.head (some cell)
    next := Function.update links.next cell links.head
    head := some cell
    tail := if links.head.isSome then links.tail else some cell }

/-- Let a new cell take the place of an old one.  The fields of the old cell
are not touched. -/
def replace (old new : α) (links : Links α) : Links α :=
  { previous := redirect (Function.update links.previous new (links.previous old))
      (links.next old) (some new)
    next := redirect (Function.update links.next new (links.next old))
      (links.previous old) (some new)
    head := if (links.previous old).isSome then links.head else some new
    tail := if (links.next old).isSome then links.tail else some new }

def clear (cell : α) (links : Links α) : Links α :=
  { links with
    previous := Function.update links.previous cell none
    next := Function.update links.next cell none }

end Operations

/-- Follow the backward pointers over at most `count` cells. -/
def walkBack (links : Links α) : Nat -> Option α -> List α
  | 0, _ => []
  | _ + 1, none => []
  | count + 1, some cell => cell :: walkBack links count (links.previous cell)

/-- The cells from the last one to the first one. -/
def backward (count : Nat) (links : Links α) : List α :=
  links.walkBack count links.tail

/-- Follow the forward pointers over at most `count` cells. -/
def walk (links : Links α) : Nat -> Option α -> List α
  | 0, _ => []
  | _ + 1, none => []
  | count + 1, some cell => cell :: walk links count (links.next cell)

/-- The cells from the first one to the last one. -/
def forward (count : Nat) (links : Links α) : List α :=
  links.walk count links.head

/-- The pointers spell out the list `cells`: each cell knows its two neighbours, and
the ends are known. -/
structure Represents (links : Links α) (cells : List α) : Prop where
  nodup : cells.Nodup
  head : links.head = cells.head?
  tail : links.tail = cells.getLast?
  around : forall before cell after, cells = before ++ cell :: after ->
    links.previous cell = before.getLast? ∧ links.next cell = after.head?

theorem represents_empty : (empty : Links α).Represents [] where
  nodup := List.nodup_nil
  head := rfl
  tail := rfl
  around := by
    intro before cell after split
    simp at split

theorem Represents.walkBack {links : Links α} {cells : List α} (list : links.Represents cells)
    (front : List α) : forall back, cells = front ++ back ->
      links.walkBack front.length front.getLast? = front.reverse := by
  induction front using List.reverseRecOn with
  | nil => exact fun _ _ => rfl
  | append_singleton others cell ih =>
      intro back split
      rw [List.append_assoc, List.singleton_append] at split
      have previous := (list.around others cell back split).1
      rw [List.length_append, List.length_singleton, List.getLast?_concat, Links.walkBack, previous,
        ih (cell :: back) split, List.reverse_concat]

/-- A walk from the last cell meets all cells in reverse order. -/
theorem Represents.backward {links : Links α} {cells : List α} (list : links.Represents cells) :
    links.backward cells.length = cells.reverse := by
  unfold Links.backward
  rw [list.tail]
  exact list.walkBack cells [] (List.append_nil cells).symm

theorem Represents.walk {links : Links α} {cells : List α} (list : links.Represents cells)
    (back : List α) : forall front, cells = front ++ back ->
      links.walk back.length back.head? = back := by
  induction back with
  | nil => exact fun _ _ => rfl
  | cons cell others ih =>
      intro front split
      have next := (list.around front cell others split).2
      rw [List.length_cons, List.head?_cons, Links.walk, next,
        ih (front ++ [cell]) (by rw [split, List.append_assoc]; rfl)]

/-- A walk from the first cell meets all cells in order. -/
theorem Represents.forward {links : Links α} {cells : List α} (list : links.Represents cells) :
    links.forward cells.length = cells := by
  unfold Links.forward
  rw [list.head]
  exact list.walk cells [] rfl

section Redirect

variable [DecidableEq α] {field : α -> Option α} {target value : Option α} {cell : α}

theorem redirect_of_ne (different : target ≠ some cell) :
    redirect field target value cell = field cell := by
  cases target with
  | none => rfl
  | some other =>
      refine Function.update_of_ne ?_ _ _
      rintro rfl
      exact different rfl

@[simp] theorem redirect_same : redirect field (some cell) value cell = value :=
  Function.update_self ..

end Redirect

variable {links : Links α} {cells before after : List α} {cell old new : α}

/-- A split of a joined list is a split of one of the two parts. -/
private theorem split_append {left right front back : List α}
    (equal : left ++ right = front ++ cell :: back) :
    (exists middle, front = left ++ middle ∧ right = middle ++ cell :: back) ∨
      exists middle, left = front ++ cell :: middle ∧ back = middle ++ right := by
  rcases List.append_eq_append_iff.mp equal with ⟨middle, first, second⟩ | ⟨middle, first, second⟩
  · exact Or.inl ⟨middle, first, second⟩
  · cases middle with
    | nil =>
        rw [List.append_nil] at first
        rw [List.nil_append] at second
        exact Or.inl ⟨[], by rw [List.append_nil, first], second.symm⟩
    | cons head middle =>
        rw [List.cons_append, List.cons.injEq] at second
        rcases second with ⟨rfl, second⟩
        exact Or.inr ⟨middle, first, second⟩

private theorem getLast?_ne (outside : cell ∉ before) : before.getLast? ≠ some cell := by
  intro equal
  exact outside (List.mem_of_getLast? equal)

private theorem getLast?_split {front rest : List α} {other last : α} :
    (front ++ other :: (rest ++ [last])).getLast? = some last := by
  rw [<- List.cons_append, <- List.append_assoc, List.getLast?_concat]

private theorem head?_ne (outside : cell ∉ after) : after.head? ≠ some cell := by
  intro equal
  exact outside (List.mem_of_head? equal)

/-- A linked cell is the first one, or has a predecessor. -/
theorem Represents.head_or_previous (list : links.Represents cells) (member : cell ∈ cells) :
    links.head = some cell ∨ (links.previous cell).isSome := by
  rcases List.append_of_mem member with ⟨before, after, split⟩
  rw [(list.around before cell after split).1, list.head, split]
  cases before with
  | nil => exact Or.inl rfl
  | cons first rest => exact Or.inr (by simp)

variable [DecidableEq α]

theorem Represents.unlink (list : links.Represents (before ++ cell :: after)) :
    (links.unlink cell).Represents (before ++ after) := by
  have around := list.around before cell after rfl
  have distinct := list.nodup
  simp only [List.nodup_append, List.nodup_cons, List.mem_cons] at distinct
  rcases distinct with ⟨nodupBefore, ⟨notAfter, nodupAfter⟩, apart⟩
  refine ⟨?_, ?_, ?_, ?_⟩
  · rw [List.nodup_append]
    exact ⟨nodupBefore, nodupAfter, fun a first b second => apart a first b (Or.inr second)⟩
  · simp only [Links.unlink, around, list.head]
    cases before with
    | nil => simp
    | cons first rest => simp
  · simp only [Links.unlink, around, list.tail]
    cases after with
    | nil => simp
    | cons first rest => simp [List.getLast?_append]
  · intro front other back split
    simp only [Links.unlink, around]
    rcases split_append split with ⟨middle, rfl, rfl⟩ | ⟨middle, rfl, rfl⟩
    · have there := list.around (before ++ cell :: middle) other back (by simp)
      have different : other ≠ cell := by
        rintro rfl
        exact notAfter (by simp)
      have outside : other ∉ before := fun inside => apart other inside other (by simp) rfl
      rw [Function.update_of_ne different, Function.update_of_ne different,
        redirect_of_ne (getLast?_ne outside), there.2]
      refine ⟨?_, rfl⟩
      cases middle with
      | nil => simp
      | cons next rest =>
          have apartNext : next ≠ other := by
            rintro rfl
            simp [List.nodup_append] at nodupAfter
          rw [redirect_of_ne (by simpa using apartNext), there.1]
          simp [List.getLast?_append]
    · have there := list.around front other (middle ++ cell :: after) (by simp)
      have different : other ≠ cell := fun equal => apart other (by simp) cell (Or.inl rfl) equal
      have outside : other ∉ after := fun inside =>
        apart other (by simp) other (Or.inr inside) rfl
      rw [Function.update_of_ne different, Function.update_of_ne different,
        redirect_of_ne (head?_ne outside), there.1]
      refine ⟨rfl, ?_⟩
      rcases List.eq_nil_or_concat' middle with rfl | ⟨rest, last, rfl⟩
      · simp
      · have apartLast : last ≠ other := by
          rintro rfl
          simp [List.nodup_append] at nodupBefore
        rw [redirect_of_ne (by rw [getLast?_split]; simpa using apartLast), there.2]
        cases rest with
        | nil => simp
        | cons head rest => simp

/-- Unlinking leaves the cells outside the list alone. -/
theorem Represents.unlink_outside {other : α} (list : links.Represents (before ++ cell :: after))
    (outside : other ∉ before ++ cell :: after) :
    (links.unlink cell).previous other = links.previous other ∧
      (links.unlink cell).next other = links.next other := by
  have around := list.around before cell after rfl
  simp only [List.mem_append, List.mem_cons, not_or] at outside
  rcases outside with ⟨notBefore, different, notAfter⟩
  simp only [Links.unlink, around]
  rw [Function.update_of_ne different, Function.update_of_ne different,
    redirect_of_ne (head?_ne notAfter), redirect_of_ne (getLast?_ne notBefore)]
  exact ⟨rfl, rfl⟩

theorem Represents.pushFront (list : links.Represents cells) (fresh : cell ∉ cells) :
    (links.pushFront cell).Represents (cell :: cells) := by
  refine ⟨List.nodup_cons.mpr ⟨fresh, list.nodup⟩, rfl, ?_, ?_⟩
  · simp only [Links.pushFront, list.head, list.tail]
    cases cells with
    | nil => simp
    | cons first rest => simp
  · intro front other back split
    simp only [Links.pushFront, list.head]
    cases front with
    | nil =>
        rw [List.nil_append, List.cons.injEq] at split
        rcases split with ⟨rfl, rfl⟩
        rw [redirect_of_ne (head?_ne fresh), Function.update_self, Function.update_self]
        exact ⟨rfl, rfl⟩
    | cons first rest =>
        rw [List.cons_append, List.cons.injEq] at split
        rcases split with ⟨rfl, rfl⟩
        have there := list.around rest other back rfl
        have different : other ≠ cell := by
          rintro rfl
          exact fresh (by simp)
        rw [Function.update_of_ne different, there.2]
        refine ⟨?_, rfl⟩
        cases rest with
        | nil => simp
        | cons next rest =>
            have apart : next ≠ other := by
              rintro rfl
              have := list.nodup
              simp at this
            rw [redirect_of_ne (by simpa using apart), Function.update_of_ne different, there.1]
            simp

/-- Pushing leaves the cells outside the list alone. -/
theorem Represents.pushFront_outside {other : α} (list : links.Represents cells)
    (outside : other ∉ cells) (different : other ≠ cell) :
    (links.pushFront cell).previous other = links.previous other ∧
      (links.pushFront cell).next other = links.next other := by
  simp only [Links.pushFront, list.head]
  rw [redirect_of_ne (head?_ne outside), Function.update_of_ne different,
    Function.update_of_ne different]
  exact ⟨rfl, rfl⟩

theorem Represents.replace (list : links.Represents (before ++ old :: after))
    (fresh : new ∉ before ++ old :: after) :
    (links.replace old new).Represents (before ++ new :: after) := by
  have around := list.around before old after rfl
  have distinct := list.nodup
  simp only [List.nodup_append, List.nodup_cons, List.mem_cons] at distinct
  rcases distinct with ⟨nodupBefore, ⟨notAfter, nodupAfter⟩, apart⟩
  simp only [List.mem_append, List.mem_cons, not_or] at fresh
  rcases fresh with ⟨notBefore, newOld, newAfter⟩
  refine ⟨?_, ?_, ?_, ?_⟩
  · simp only [List.nodup_append, List.nodup_cons, List.mem_cons]
    refine ⟨nodupBefore, ⟨newAfter, nodupAfter⟩, ?_⟩
    rintro a first b (rfl | second)
    · rintro rfl
      exact notBefore first
    · exact apart a first b (Or.inr second)
  · simp only [Links.replace, around, list.head]
    cases before with
    | nil => simp
    | cons first rest => simp
  · simp only [Links.replace, around, list.tail]
    cases after with
    | nil => simp
    | cons first rest => simp [List.getLast?_append]
  · intro front other back split
    simp only [Links.replace, around]
    rcases split_append split with ⟨middle, rfl, behind⟩ | ⟨middle, rfl, rfl⟩
    · cases middle with
      | nil =>
          rw [List.nil_append, List.cons.injEq] at behind
          rcases behind with ⟨rfl, rfl⟩
          rw [redirect_of_ne (head?_ne newAfter), redirect_of_ne (getLast?_ne notBefore)]
          simp
      | cons head middle =>
          rw [List.cons_append, List.cons.injEq] at behind
          rcases behind with ⟨rfl, rfl⟩
          have there := list.around (before ++ old :: middle) other back (by simp)
          have different : other ≠ new := by
            rintro rfl
            exact newAfter (by simp)
          have outside : other ∉ before := fun inside => apart other inside other (by simp) rfl
          rw [redirect_of_ne (getLast?_ne outside), Function.update_of_ne different, there.2]
          refine ⟨?_, rfl⟩
          cases middle with
          | nil => simp
          | cons next rest =>
              have apartNext : next ≠ other := by
                rintro rfl
                simp [List.nodup_append] at nodupAfter
              rw [redirect_of_ne (by simpa using apartNext), Function.update_of_ne different,
                there.1]
              simp [List.getLast?_append, List.getLast?_cons]
    · have there := list.around front other (middle ++ old :: after) (by simp)
      have different : other ≠ new := by
        rintro rfl
        exact notBefore (by simp)
      have outside : other ∉ after := fun inside =>
        apart other (by simp) other (Or.inr inside) rfl
      rw [redirect_of_ne (head?_ne outside), Function.update_of_ne different, there.1]
      refine ⟨rfl, ?_⟩
      rcases List.eq_nil_or_concat' middle with rfl | ⟨rest, last, rfl⟩
      · simp
      · have apartLast : last ≠ other := by
          rintro rfl
          simp [List.nodup_append] at nodupBefore
        rw [redirect_of_ne (by rw [getLast?_split]; simpa using apartLast),
          Function.update_of_ne different, there.2]
        cases rest with
        | nil => simp
        | cons head rest => simp

/-- Replacing leaves the cells outside the list alone. -/
theorem Represents.replace_outside {other : α} (list : links.Represents (before ++ old :: after))
    (outside : other ∉ before ++ old :: after) (different : other ≠ new) :
    (links.replace old new).previous other = links.previous other ∧
      (links.replace old new).next other = links.next other := by
  have around := list.around before old after rfl
  simp only [List.mem_append, List.mem_cons, not_or] at outside
  simp only [Links.replace, around]
  rw [redirect_of_ne (head?_ne outside.2.2), redirect_of_ne (getLast?_ne outside.1),
    Function.update_of_ne different, Function.update_of_ne different]
  exact ⟨rfl, rfl⟩

/-- Clearing the fields of a cell outside the list changes nothing. -/
theorem Represents.clear (list : links.Represents cells) (outside : cell ∉ cells) :
    (links.clear cell).Represents cells where
  nodup := list.nodup
  head := list.head
  tail := list.tail
  around := by
    intro front other back split
    have different : other ≠ cell := by
      rintro rfl
      exact outside (by simp [split])
    simp only [Links.clear, Function.update_of_ne different]
    exact list.around front other back split

end Links

end Library
end Reddish
