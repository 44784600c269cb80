import Mathlib

namespace Reddish
namespace Library

/-!
# Indexed binary heaps

An array of items in heap order together with a map that knows the priority of
every item and its position in the array.  The map makes it possible to change
or remove an item anywhere in the heap.

The two sifting loops are first understood on the bare sequence of priorities,
where exchanging two positions is composition with a transposition; the
position map is a separate matter, kept by every exchange.
-/

/-- What the map stores for an item. -/
structure Slot (κ : Type) where
  priority : κ
  index : Nat

structure IndexedHeap (α κ : Type) where
  entries : α -> Option (Slot κ)
  order : List α

/-! ## Sequences of priorities -/

namespace HeapOrder

variable {κ : Type} [LinearOrder κ] {f : Nat -> κ} {size hole child i : Nat}

/-- Every position but the root is at or above its parent. -/
def Ordered (f : Nat -> κ) (size : Nat) : Prop :=
  forall i, 0 < i -> i < size -> f ((i - 1) / 2) ≤ f i

/-- The order may only be broken between the hole and its neighbours, and the
children of the hole are above the parent of the hole. -/
structure OrderedExcept (f : Nat -> κ) (size hole : Nat) : Prop where
  away : forall i, 0 < i -> i < size -> i ≠ hole -> (i - 1) / 2 ≠ hole -> f ((i - 1) / 2) ≤ f i
  grand : 0 < hole -> forall i, 0 < i -> i < size -> (i - 1) / 2 = hole ->
    f ((hole - 1) / 2) ≤ f i

/-- An ordered sequence may be changed at one position. -/
theorem Ordered.except {g : Nat -> κ} (ordered : Ordered f size)
    (same : forall i, i < size -> i ≠ hole -> g i = f i) : OrderedExcept g size hole where
  away := by
    intro i positive inside notHole notChild
    rw [same i inside notHole, same _ (by omega) notChild]
    exact ordered i positive inside
  grand := by
    intro positive i _ inside parent
    rw [same i inside (by omega), same _ (by omega) (by omega)]
    calc
      f ((hole - 1) / 2) ≤ f hole := ordered hole positive (by omega)
      _ = f ((i - 1) / 2) := by rw [parent]
      _ ≤ f i := ordered i (by omega) inside

/-- A position may be added at the end. -/
theorem Ordered.except_last {g : Nat -> κ} (ordered : Ordered f size)
    (same : forall i, i < size -> g i = f i) : OrderedExcept g (size + 1) size where
  away := by
    intro i positive inside notHole _
    rw [same i (by omega), same _ (by omega)]
    exact ordered i positive (by omega)
  grand := by
    intro _ i _ inside parent
    omega

theorem Ordered.shrink {less : Nat} (ordered : Ordered f size) (fewer : less ≤ size) :
    Ordered f less :=
  fun i positive inside => ordered i positive (by omega)

/-- Exchanging the hole with a larger parent moves the hole up. -/
theorem OrderedExcept.up (except : OrderedExcept f size hole) (positive : 0 < hole)
    (inside : hole < size) (less : f hole < f ((hole - 1) / 2)) :
    OrderedExcept (f ∘ Equiv.swap hole ((hole - 1) / 2)) size ((hole - 1) / 2) where
  away := by
    intro i iPositive iInside notHole notChild
    have notSwapped : i ≠ hole := by
      rintro rfl
      exact notChild rfl
    rw [Function.comp_apply, Function.comp_apply, Equiv.swap_apply_of_ne_of_ne notSwapped notHole]
    by_cases parent : (i - 1) / 2 = hole
    · rw [parent, Equiv.swap_apply_left]
      exact except.grand positive i iPositive iInside parent
    · rw [Equiv.swap_apply_of_ne_of_ne parent notChild]
      exact except.away i iPositive iInside notSwapped parent
  grand := by
    intro parentPositive i iPositive iInside parent
    have above : f (((hole - 1) / 2 - 1) / 2) ≤ f ((hole - 1) / 2) :=
      except.away _ parentPositive (by omega) (by omega) (by omega)
    rw [Function.comp_apply, Function.comp_apply,
      Equiv.swap_apply_of_ne_of_ne (by omega) (by omega)]
    by_cases same : i = hole
    · rw [same, Equiv.swap_apply_left]
      exact above
    · rw [Equiv.swap_apply_of_ne_of_ne same (by omega)]
      have sibling := except.away i iPositive iInside same (by omega)
      rw [parent] at sibling
      exact le_trans above sibling

/-- Exchanging the hole with its smaller child moves the hole down. -/
theorem OrderedExcept.down (except : OrderedExcept f size hole) (positive : 0 < child)
    (parent : (child - 1) / 2 = hole) (inside : child < size) (less : f child < f hole)
    (smallest : forall i, 0 < i -> i < size -> (i - 1) / 2 = hole -> f child ≤ f i) :
    OrderedExcept (f ∘ Equiv.swap child hole) size child ∧
      (f ∘ Equiv.swap child hole) ((child - 1) / 2) ≤ (f ∘ Equiv.swap child hole) child := by
  refine ⟨⟨?_, ?_⟩, ?_⟩
  · intro i iPositive iInside notChild notBelow
    simp only [Function.comp_apply]
    by_cases isHole : i = hole
    · rw [isHole, Equiv.swap_apply_right, Equiv.swap_apply_of_ne_of_ne (by omega) (by omega)]
      exact except.grand (by omega) child positive inside parent
    · rw [Equiv.swap_apply_of_ne_of_ne notChild isHole]
      by_cases sibling : (i - 1) / 2 = hole
      · rw [sibling, Equiv.swap_apply_right]
        exact smallest i iPositive iInside sibling
      · rw [Equiv.swap_apply_of_ne_of_ne notBelow sibling]
        exact except.away i iPositive iInside isHole sibling
  · intro _ i iPositive iInside below
    simp only [Function.comp_apply]
    rw [parent, Equiv.swap_apply_right, Equiv.swap_apply_of_ne_of_ne (by omega) (by omega)]
    have kept := except.away i iPositive iInside (by omega) (by omega)
    rwa [below] at kept
  · simp only [Function.comp_apply]
    rw [parent, Equiv.swap_apply_right, Equiv.swap_apply_left]
    exact le_of_lt less

/-- A hole in order with its neighbours is no hole. -/
theorem OrderedExcept.close (except : OrderedExcept f size hole)
    (above : 0 < hole -> hole < size -> f ((hole - 1) / 2) ≤ f hole)
    (below : forall i, 0 < i -> i < size -> (i - 1) / 2 = hole -> f hole ≤ f i) :
    Ordered f size := by
  intro i positive inside
  by_cases isHole : i = hole
  · rw [isHole] at positive inside ⊢
    exact above positive inside
  · by_cases isChild : (i - 1) / 2 = hole
    · rw [isChild]
      exact below i positive inside isChild
    · exact except.away i positive inside isHole isChild

theorem Ordered.root_le (ordered : Ordered f size) : forall i, i < size -> f 0 ≤ f i := by
  intro i
  induction i using Nat.strongRecOn with
  | ind i ih =>
      intro inside
      by_cases root : i = 0
      · rw [root]
      · exact le_trans (ih ((i - 1) / 2) (by omega) (by omega))
          (ordered i (by omega) inside)

end HeapOrder

namespace IndexedHeap

variable {α κ : Type} [DecidableEq α]

/-! ## Operations -/

def empty : IndexedHeap α κ :=
  { entries := fun _ => none, order := [] }

def priority (heap : IndexedHeap α κ) (item : α) : Option κ :=
  (heap.entries item).map Slot.priority

/-- The priority of the item at a position; `⊥` outside the array. -/
def priorityAt (heap : IndexedHeap α κ) (position : Nat) : WithBot κ :=
  (heap.order[position]?).bind heap.priority

/-- Record a new position for an item. -/
def setIndex (item : α) (index : Nat) (heap : IndexedHeap α κ) : IndexedHeap α κ :=
  { heap with
    entries := Function.update heap.entries item
      ((heap.entries item).map fun slot => { slot with index := index }) }

/-- Exchange two positions of the array and record them. -/
def swap (first second : Nat) (heap : IndexedHeap α κ) : IndexedHeap α κ :=
  match heap.order[first]?, heap.order[second]? with
  | some a, some b =>
      ({ heap with order := (heap.order.set first b).set second a }.setIndex b first).setIndex
        a second
  | _, _ => heap

@[simp] theorem length_swap (first second : Nat) (heap : IndexedHeap α κ) :
    (heap.swap first second).order.length = heap.order.length := by
  unfold swap
  split
  · simp [setIndex]
  · rfl

/-- Append an item without restoring the order. -/
def append (item : α) (priority : κ) (heap : IndexedHeap α κ) : IndexedHeap α κ :=
  { entries := Function.update heap.entries item (some ⟨priority, heap.order.length⟩)
    order := heap.order ++ [item] }

/-- Change a priority without restoring the order. -/
def assign (item : α) (priority : κ) (heap : IndexedHeap α κ) : IndexedHeap α κ :=
  { heap with
    entries := Function.update heap.entries item
      ((heap.entries item).map fun slot => { slot with priority := priority }) }

/-- Let another item take over the slot of an item. -/
def rename (old new : α) (heap : IndexedHeap α κ) : IndexedHeap α κ :=
  match heap.entries old with
  | some slot =>
      { entries := Function.update (Function.update heap.entries old none) new (some slot)
        order := heap.order.set slot.index new }
  | none => heap

section Sifting

variable [LinearOrder κ]

/-- While an item is less than its parent, exchange them.  Returns the final
position as well. -/
def siftUp (heap : IndexedHeap α κ) (index : Nat) : IndexedHeap α κ × Nat :=
  if 0 < index ∧ heap.priorityAt index < heap.priorityAt ((index - 1) / 2) then
    siftUp (heap.swap index ((index - 1) / 2)) ((index - 1) / 2)
  else (heap, index)
termination_by index

/-- The smaller child, the left one on a tie. -/
def smallerChild (heap : IndexedHeap α κ) (index : Nat) : Nat :=
  if index * 2 + 1 + 1 < heap.order.length ∧
      heap.priorityAt (index * 2 + 1 + 1) < heap.priorityAt (index * 2 + 1) then
    index * 2 + 1 + 1
  else index * 2 + 1

omit [DecidableEq α] in
theorem smallerChild_spec (heap : IndexedHeap α κ) (index : Nat) :
    index < heap.smallerChild index ∧ (heap.smallerChild index - 1) / 2 = index ∧
      (index * 2 + 1 < heap.order.length -> heap.smallerChild index < heap.order.length) ∧
      forall i, 0 < i -> i < heap.order.length -> (i - 1) / 2 = index ->
        heap.priorityAt (heap.smallerChild index) ≤ heap.priorityAt i := by
  unfold smallerChild
  split
  case isTrue right =>
    refine ⟨by omega, by omega, fun _ => right.1, ?_⟩
    intro i positive inside parent
    have either : i = index * 2 + 1 ∨ i = index * 2 + 1 + 1 := by omega
    rcases either with rfl | rfl
    · exact le_of_lt right.2
    · exact le_refl _
  case isFalse left =>
    refine ⟨by omega, by omega, fun inside => inside, ?_⟩
    intro i positive inside parent
    have either : i = index * 2 + 1 ∨ i = index * 2 + 1 + 1 := by omega
    rcases either with rfl | rfl
    · exact le_refl _
    · exact not_lt.mp fun less => left ⟨inside, less⟩

/-- While an item is greater than its smaller child, exchange them. -/
def siftDown (heap : IndexedHeap α κ) (index : Nat) : IndexedHeap α κ :=
  if index * 2 + 1 < heap.order.length then
    if heap.priorityAt (heap.smallerChild index) < heap.priorityAt index then
      siftDown (heap.swap (heap.smallerChild index) index) (heap.smallerChild index)
    else heap
  else heap
termination_by heap.order.length - index
decreasing_by
  have child := heap.smallerChild_spec index
  rw [length_swap]
  omega

/-- Restore the order after a change at one position. -/
def fix (heap : IndexedHeap α κ) (index : Nat) : IndexedHeap α κ :=
  siftDown (heap.siftUp index).1 (heap.siftUp index).2

def shorten (item : α) (heap : IndexedHeap α κ) : IndexedHeap α κ :=
  { entries := Function.update heap.entries item none, order := heap.order.dropLast }

/-- Write an item to a position and record it. -/
def place (item : α) (index : Nat) (heap : IndexedHeap α κ) : IndexedHeap α κ :=
  { heap with order := heap.order.set index item }.setIndex item index

/-- Remove an item; the last one takes its place. -/
def remove (item : α) (heap : IndexedHeap α κ) : IndexedHeap α κ :=
  match heap.entries item, heap.order.getLast? with
  | some slot, some last =>
      if slot.index < (heap.shorten item).order.length then
        ((heap.shorten item).place last slot.index).fix slot.index
      else heap.shorten item
  | _, _ => heap

end Sifting

/-! ## The position map -/

/-- The map knows exactly the items of the array, each with its position. -/
structure Coherent (heap : IndexedHeap α κ) : Prop where
  at_position : forall position item, heap.order[position]? = some item ->
    exists slot, heap.entries item = some slot ∧ slot.index = position
  listed : forall item slot, heap.entries item = some slot ->
    heap.order[slot.index]? = some item

section Positions

variable {heap : IndexedHeap α κ} {item old new : α} {first second : Nat}

omit [DecidableEq α] in
theorem Coherent.mem_iff (coherent : heap.Coherent) :
    item ∈ heap.order <-> heap.priority item ≠ none := by
  unfold priority
  constructor
  · intro member
    rcases List.mem_iff_getElem?.mp member with ⟨position, found⟩
    rcases coherent.at_position position item found with ⟨slot, stored, -⟩
    simp [stored]
  · intro known
    cases stored : heap.entries item with
    | none => simp [stored] at known
    | some slot => exact List.mem_of_getElem? (coherent.listed item slot stored)

omit [DecidableEq α] in
theorem Coherent.position_unique (coherent : heap.Coherent)
    (here : heap.order[first]? = some item) (there : heap.order[second]? = some item) :
    first = second := by
  rcases coherent.at_position first item here with ⟨slot, stored, rfl⟩
  rcases coherent.at_position second item there with ⟨other, again, rfl⟩
  rw [stored] at again
  cases again
  rfl

theorem priority_setIndex (index : Nat) :
    (heap.setIndex item index).priority = heap.priority := by
  funext other
  simp only [priority, setIndex]
  by_cases same : other = item
  · rw [same, Function.update_self, Option.map_map]
    rfl
  · rw [Function.update_of_ne same]

/-- An exchange keeps every priority. -/
@[simp] theorem priority_swap : (heap.swap first second).priority = heap.priority := by
  unfold swap
  split
  · rw [priority_setIndex, priority_setIndex]
    rfl
  · rfl

/-- An exchange permutes the array. -/
theorem order_swap (insideFirst : first < heap.order.length)
    (insideSecond : second < heap.order.length) (position : Nat) :
    (heap.swap first second).order[position]? =
      heap.order[Equiv.swap first second position]? := by
  unfold swap
  rw [List.getElem?_eq_getElem insideFirst, List.getElem?_eq_getElem insideSecond]
  simp only [setIndex, List.getElem?_set, List.length_set, Equiv.swap_apply_def]
  by_cases isSecond : position = second
  · subst isSecond
    by_cases isFirst : position = first
    · subst isFirst
      simp [insideFirst]
    · simp [isFirst, insideFirst, insideSecond]
  · by_cases isFirst : position = first
    · subst isFirst
      simp [Ne.symm isSecond, insideFirst, insideSecond]
    · simp [isSecond, Ne.symm isSecond, isFirst, Ne.symm isFirst]

theorem priorityAt_swap (insideFirst : first < heap.order.length)
    (insideSecond : second < heap.order.length) :
    (heap.swap first second).priorityAt = heap.priorityAt ∘ Equiv.swap first second := by
  funext position
  unfold priorityAt
  rw [order_swap insideFirst insideSecond, priority_swap]
  rfl

/-- The map after an exchange, item by item. -/
private theorem entries_swap {a b : α} (here : heap.order[first]? = some a)
    (there : heap.order[second]? = some b) :
    (heap.swap first second).entries item =
      if item = a then (heap.entries item).map fun slot => { slot with index := second }
      else if item = b then (heap.entries item).map fun slot => { slot with index := first }
      else heap.entries item := by
  unfold swap
  rw [here, there]
  simp only [setIndex, Function.update_apply]
  by_cases isA : item = a
  · subst isA
    by_cases isB : item = b
    · simp [isB, Option.map_map, Function.comp_def]
    · simp [isB]
  · by_cases isB : item = b
    · subst isB
      simp [isA]
    · simp [isA, isB]

/-- An exchange of two positions keeps the map right. -/
theorem Coherent.swap (coherent : heap.Coherent) (insideFirst : first < heap.order.length)
    (insideSecond : second < heap.order.length) (apart : first ≠ second) :
    (heap.swap first second).Coherent := by
  have here := List.getElem?_eq_getElem insideFirst
  have there := List.getElem?_eq_getElem insideSecond
  have distinct : heap.order[first] ≠ heap.order[second] := by
    intro equal
    rw [<- equal] at there
    exact apart (coherent.position_unique here there)
  constructor
  · intro position item found
    rw [order_swap insideFirst insideSecond] at found
    rw [entries_swap here there]
    rcases coherent.at_position _ item found with ⟨slot, stored, index⟩
    by_cases isA : item = heap.order[first]
    · rw [if_pos isA, stored]
      refine ⟨_, rfl, ?_⟩
      rw [isA] at found
      have moved := coherent.position_unique found here
      rw [Equiv.swap_apply_eq_iff, Equiv.swap_apply_left] at moved
      exact moved.symm
    · rw [if_neg isA]
      by_cases isB : item = heap.order[second]
      · rw [if_pos isB, stored]
        refine ⟨_, rfl, ?_⟩
        rw [isB] at found
        have moved := coherent.position_unique found there
        rw [Equiv.swap_apply_eq_iff, Equiv.swap_apply_right] at moved
        exact moved.symm
      · rw [if_neg isB]
        refine ⟨slot, stored, ?_⟩
        have notFirst : position ≠ first := by
          rintro rfl
          rw [Equiv.swap_apply_left, there] at found
          exact isB (Option.some.inj found).symm
        have notSecond : position ≠ second := by
          rintro rfl
          rw [Equiv.swap_apply_right, here] at found
          exact isA (Option.some.inj found).symm
        rw [index, Equiv.swap_apply_of_ne_of_ne notFirst notSecond]
  · intro item slot stored
    rw [entries_swap here there] at stored
    rw [order_swap insideFirst insideSecond]
    by_cases isA : item = heap.order[first]
    · rw [if_pos isA, Option.map_eq_some_iff] at stored
      rcases stored with ⟨before, -, rfl⟩
      change heap.order[Equiv.swap first second second]? = _
      rw [Equiv.swap_apply_right, here, isA]
    · rw [if_neg isA] at stored
      by_cases isB : item = heap.order[second]
      · rw [if_pos isB, Option.map_eq_some_iff] at stored
        rcases stored with ⟨before, -, rfl⟩
        change heap.order[Equiv.swap first second first]? = _
        rw [Equiv.swap_apply_left, there, isB]
      · rw [if_neg isB] at stored
        have listed := coherent.listed item slot stored
        have notFirst : slot.index ≠ first := by
          intro equal
          rw [equal, here] at listed
          exact isA (Option.some.inj listed).symm
        have notSecond : slot.index ≠ second := by
          intro equal
          rw [equal, there] at listed
          exact isB (Option.some.inj listed).symm
        rw [Equiv.swap_apply_of_ne_of_ne notFirst notSecond, listed]

end Positions

/-! ## Restoring the order -/

section Order

open HeapOrder

variable [LinearOrder κ] {heap : IndexedHeap α κ} {item old new : α} {index : Nat}

/-- What a rearrangement of the array keeps. -/
structure Rearranged (heap later : IndexedHeap α κ) : Prop where
  coherent : later.Coherent
  priority : later.priority = heap.priority
  length : later.order.length = heap.order.length

omit [DecidableEq α] [LinearOrder κ] in
theorem Rearranged.trans {later last : IndexedHeap α κ} (one : heap.Rearranged later)
    (two : later.Rearranged last) : heap.Rearranged last where
  coherent := two.coherent
  priority := two.priority.trans one.priority
  length := two.length.trans one.length

omit [LinearOrder κ] in
theorem Coherent.rearranged_swap {first second : Nat} (coherent : heap.Coherent)
    (insideFirst : first < heap.order.length) (insideSecond : second < heap.order.length)
    (apart : first ≠ second) : heap.Rearranged (heap.swap first second) where
  coherent := coherent.swap insideFirst insideSecond apart
  priority := priority_swap
  length := length_swap ..

/-- The first loop ends with the hole above its parent. -/
theorem siftUp_spec (coherent : heap.Coherent) (inside : index < heap.order.length)
    (except : OrderedExcept heap.priorityAt heap.order.length index) :
    heap.Rearranged (heap.siftUp index).1 ∧ (heap.siftUp index).2 < heap.order.length ∧
      OrderedExcept (heap.siftUp index).1.priorityAt heap.order.length (heap.siftUp index).2 ∧
      (0 < (heap.siftUp index).2 ->
        (heap.siftUp index).1.priorityAt (((heap.siftUp index).2 - 1) / 2) ≤
          (heap.siftUp index).1.priorityAt (heap.siftUp index).2) := by
  induction heap, index using siftUp.induct with
  | case1 heap index less ih =>
      rw [siftUp, if_pos less]
      have moved := coherent.rearranged_swap inside
        (show (index - 1) / 2 < heap.order.length by omega) (by omega)
      have up := except.up less.1 inside less.2
      rw [<- priorityAt_swap inside (by omega)] at up
      have rest := ih moved.coherent (by rw [moved.length]; omega)
        (by rw [moved.length]; exact up)
      rw [moved.length] at rest
      exact ⟨moved.trans rest.1, rest.2⟩
  | case2 heap index stop =>
      rw [siftUp, if_neg stop]
      refine ⟨⟨coherent, rfl, rfl⟩, inside, except, ?_⟩
      intro positive
      exact not_lt.mp fun less => stop ⟨positive, less⟩

/-- The second loop ends with an ordered array. -/
theorem siftDown_spec (coherent : heap.Coherent) (inside : index < heap.order.length)
    (except : OrderedExcept heap.priorityAt heap.order.length index)
    (above : 0 < index -> heap.priorityAt ((index - 1) / 2) ≤ heap.priorityAt index) :
    heap.Rearranged (heap.siftDown index) ∧
      Ordered (heap.siftDown index).priorityAt heap.order.length := by
  induction heap, index using siftDown.induct with
  | case1 heap index hasChild less ih =>
      rw [siftDown, if_pos hasChild, if_pos less]
      rcases heap.smallerChild_spec index with ⟨later, parent, childInside, smallest⟩
      have moved := coherent.rearranged_swap (childInside hasChild) inside (by omega)
      have down := except.down (by omega) parent (childInside hasChild) less smallest
      rw [<- priorityAt_swap (childInside hasChild) inside] at down
      have rest := ih moved.coherent
        (by rw [moved.length]; exact childInside hasChild)
        (by rw [moved.length]; exact down.1) (fun _ => down.2)
      rw [moved.length] at rest
      exact ⟨moved.trans rest.1, rest.2⟩
  | case2 heap index hasChild stop =>
      rw [siftDown, if_pos hasChild, if_neg stop]
      refine ⟨⟨coherent, rfl, rfl⟩, except.close (fun positive _ => above positive) ?_⟩
      intro i positive iInside parent
      exact le_trans (not_lt.mp stop)
        ((heap.smallerChild_spec index).2.2.2 i positive iInside parent)
  | case3 heap index noChild =>
      rw [siftDown, if_neg noChild]
      refine ⟨⟨coherent, rfl, rfl⟩, except.close (fun positive _ => above positive) ?_⟩
      intro i positive iInside parent
      omega

/-- A heap with a right map and an ordered array. -/
structure Valid (heap : IndexedHeap α κ) : Prop where
  coherent : heap.Coherent
  ordered : Ordered heap.priorityAt heap.order.length

/-- Fixing one position restores the order and keeps the priorities. -/
theorem fix_spec (coherent : heap.Coherent) (inside : index < heap.order.length)
    (except : OrderedExcept heap.priorityAt heap.order.length index) :
    (heap.fix index).Valid ∧ heap.Rearranged (heap.fix index) := by
  rcases siftUp_spec coherent inside except with ⟨moved, stillInside, stillExcept, above⟩
  rw [<- moved.length] at stillInside stillExcept
  rcases siftDown_spec moved.coherent stillInside stillExcept above with ⟨rest, ordered⟩
  have whole := moved.trans rest
  refine ⟨⟨whole.coherent, ?_⟩, whole⟩
  unfold fix
  rw [whole.length, <- moved.length]
  exact ordered

/-! ## Items -/

omit [LinearOrder κ] in
theorem Coherent.append (coherent : heap.Coherent) (absent : heap.priority item = none)
    (priority : κ) : (heap.append item priority).Coherent := by
  have outside : item ∉ heap.order := fun member => coherent.mem_iff.mp member absent
  constructor
  · intro position other found
    simp only [IndexedHeap.append] at found ⊢
    rw [List.getElem?_append] at found
    split at found
    · have different : other ≠ item := by
        rintro rfl
        exact outside (List.mem_of_getElem? found)
      rw [Function.update_of_ne different]
      exact coherent.at_position position other found
    case isFalse beyond =>
      have last : position - heap.order.length = 0 ∧ item = other := by
        simpa [List.getElem?_singleton] using found
      rcases last with ⟨position, rfl⟩
      exact ⟨_, Function.update_self .., by change heap.order.length = _; omega⟩
  · intro other slot stored
    simp only [IndexedHeap.append] at stored ⊢
    by_cases same : other = item
    · rw [same, Function.update_self] at stored
      cases stored
      rw [same]
      exact List.getElem?_concat_length
    · rw [Function.update_of_ne same] at stored
      have listed := coherent.listed other slot stored
      have inside : slot.index < heap.order.length := (List.getElem?_eq_some_iff.mp listed).1
      rw [List.getElem?_append_left inside]
      exact listed

theorem insert_spec (valid : heap.Valid) (absent : heap.priority item = none) (priority : κ) :
    ((heap.append item priority).fix heap.order.length).Valid ∧
      ((heap.append item priority).fix heap.order.length).priority =
        Function.update heap.priority item (some priority) ∧
      ((heap.append item priority).fix heap.order.length).order.length =
        heap.order.length + 1 := by
  have outside : item ∉ heap.order := fun member => valid.coherent.mem_iff.mp member absent
  have priorities : (heap.append item priority).priority =
      Function.update heap.priority item (some priority) := by
    funext other
    by_cases same : other = item
    · rw [same, Function.update_self]
      simp [IndexedHeap.priority, IndexedHeap.append]
    · rw [Function.update_of_ne same]
      simp [IndexedHeap.priority, IndexedHeap.append, Function.update_of_ne same]
  have length : (heap.append item priority).order.length = heap.order.length + 1 := by
    simp [IndexedHeap.append]
  have except : OrderedExcept (heap.append item priority).priorityAt
      (heap.append item priority).order.length heap.order.length := by
    rw [length]
    refine valid.ordered.except_last ?_
    intro i inside
    have here : (heap.append item priority).order[i]? = some heap.order[i] := by
      simp [IndexedHeap.append, List.getElem?_append_left inside]
    have different : heap.order[i] ≠ item := by
      intro equal
      exact outside (equal ▸ List.getElem_mem inside)
    unfold priorityAt
    rw [here, List.getElem?_eq_getElem inside, Option.bind_some, Option.bind_some, priorities,
      Function.update_of_ne different]
  rcases fix_spec (valid.coherent.append absent priority) (by omega) except with ⟨fixed, moved⟩
  exact ⟨fixed, moved.priority.trans priorities, moved.length.trans length⟩

omit [LinearOrder κ] in
theorem Coherent.assign {priority : κ} (coherent : heap.Coherent) :
    (heap.assign item priority).Coherent := by
  constructor
  · intro position other found
    rcases coherent.at_position position other found with ⟨known, there, index⟩
    by_cases same : other = item
    · subst same
      exact ⟨⟨priority, known.index⟩, by simp [IndexedHeap.assign, there], index⟩
    · exact ⟨known, by simp [IndexedHeap.assign, Function.update_of_ne same, there], index⟩
  · intro other slot stored
    simp only [IndexedHeap.assign] at stored ⊢
    by_cases same : other = item
    · rw [same, Function.update_self, Option.map_eq_some_iff] at stored
      rcases stored with ⟨before, stored, rfl⟩
      rw [same]
      exact coherent.listed item before stored
    · rw [Function.update_of_ne same] at stored
      exact coherent.listed other slot stored

theorem assign_spec {slot : Slot κ} (valid : heap.Valid) (stored : heap.entries item = some slot)
    (priority : κ) :
    ((heap.assign item priority).fix slot.index).Valid ∧
      ((heap.assign item priority).fix slot.index).priority =
        Function.update heap.priority item (some priority) ∧
      ((heap.assign item priority).fix slot.index).order.length = heap.order.length := by
  have listed := valid.coherent.listed item slot stored
  have priorities : (heap.assign item priority).priority =
      Function.update heap.priority item (some priority) := by
    funext other
    by_cases same : other = item
    · rw [same, Function.update_self]
      simp [IndexedHeap.priority, IndexedHeap.assign, stored]
    · rw [Function.update_of_ne same]
      simp [IndexedHeap.priority, IndexedHeap.assign, Function.update_of_ne same]
  have except : OrderedExcept (heap.assign item priority).priorityAt
      (heap.assign item priority).order.length slot.index := by
    refine valid.ordered.except ?_
    intro i inside notHole
    have different : heap.order[i] ≠ item := by
      intro equal
      exact notHole (valid.coherent.position_unique
        (by rw [List.getElem?_eq_getElem inside, equal]) listed)
    unfold priorityAt
    change (heap.order[i]?.bind _) = _
    rw [List.getElem?_eq_getElem inside, Option.bind_some, Option.bind_some, priorities,
      Function.update_of_ne different]
  rcases fix_spec valid.coherent.assign (List.getElem?_eq_some_iff.mp listed).1 except
    with ⟨fixed, moved⟩
  exact ⟨fixed, moved.priority.trans priorities, moved.length⟩

omit [LinearOrder κ] in
/-- Without the last item the map forgets exactly it. -/
theorem Coherent.shorten (coherent : heap.Coherent) (last : heap.order.getLast? = some item) :
    (heap.shorten item).Coherent := by
  rw [List.getLast?_eq_getElem?] at last
  unfold IndexedHeap.shorten
  constructor
  · intro position other found
    rw [List.getElem?_dropLast] at found
    split at found
    case isFalse => cases found
    case isTrue inside =>
      have different : other ≠ item := by
        rintro rfl
        have same := coherent.position_unique found last
        omega
      simp only [Function.update_of_ne different]
      exact coherent.at_position position other found
  · intro other slot stored
    change Function.update heap.entries item none other = some slot at stored
    by_cases same : other = item
    · rw [same, Function.update_self] at stored
      cases stored
    · rw [Function.update_of_ne same] at stored
      have listed := coherent.listed other slot stored
      change heap.order.dropLast[slot.index]? = some other
      have notLast : slot.index ≠ heap.order.length - 1 := by
        intro equal
        rw [equal, last] at listed
        exact same (Option.some.inj listed).symm
      have inside := (List.getElem?_eq_some_iff.mp listed).1
      rw [List.getElem?_dropLast, if_pos (by omega)]
      exact listed

omit [LinearOrder κ] in
/-- The last item may take the place of another one. -/
theorem Coherent.moveLast {slot : Slot κ} {last : α} (coherent : heap.Coherent)
    (stored : heap.entries item = some slot) (final : heap.order.getLast? = some last)
    (inside : slot.index < heap.order.length - 1) :
    ((heap.shorten item).place last slot.index).Coherent := by
  have listed := coherent.listed item slot stored
  rw [List.getLast?_eq_getElem?] at final
  have apart : last ≠ item := by
    rintro rfl
    have same := coherent.position_unique listed final
    omega
  rcases coherent.at_position _ last final with ⟨lastSlot, lastStored, lastIndex⟩
  constructor
  · intro position other found
    simp only [place, IndexedHeap.shorten, setIndex] at found ⊢
    rw [List.getElem?_set] at found
    split at found
    case isTrue same =>
      rw [if_pos (by rw [List.length_dropLast]; exact inside)] at found
      cases found
      rw [Function.update_self, Function.update_of_ne apart, lastStored]
      exact ⟨_, rfl, same⟩
    case isFalse elsewhere =>
      rw [List.getElem?_dropLast] at found
      split at found
      case isFalse => cases found
      case isTrue within =>
        have notLast : other ≠ last := by
          rintro rfl
          have same := coherent.position_unique found final
          omega
        have notItem : other ≠ item := by
          rintro rfl
          exact elsewhere (coherent.position_unique listed found)
        rw [Function.update_of_ne notLast, Function.update_of_ne notItem]
        exact coherent.at_position position other found
  · intro other known there
    simp only [place, IndexedHeap.shorten, setIndex] at there ⊢
    by_cases isLast : other = last
    · rw [isLast, Function.update_self, Function.update_of_ne apart, lastStored] at there
      cases there
      rw [isLast]
      exact List.getElem?_set_self (by rw [List.length_dropLast]; exact inside)
    · rw [Function.update_of_ne isLast] at there
      by_cases isItem : other = item
      · rw [isItem, Function.update_self] at there
        cases there
      · rw [Function.update_of_ne isItem] at there
        have listedOther := coherent.listed other known there
        have elsewhere : slot.index ≠ known.index := by
          intro equal
          rw [<- equal, listed] at listedOther
          exact isItem (Option.some.inj listedOther).symm
        have notFinal : known.index ≠ heap.order.length - 1 := by
          intro equal
          rw [equal, final] at listedOther
          exact isLast (Option.some.inj listedOther).symm
        have within := (List.getElem?_eq_some_iff.mp listedOther).1
        rw [List.getElem?_set_ne elsewhere, List.getElem?_dropLast, if_pos (by omega)]
        exact listedOther

omit [LinearOrder κ] in
theorem priority_shorten :
    (heap.shorten item).priority = Function.update heap.priority item none := by
  funext other
  by_cases same : other = item
  · rw [same, Function.update_self]
    simp [priority, shorten]
  · rw [Function.update_of_ne same]
    simp [priority, shorten, Function.update_of_ne same]

omit [LinearOrder κ] in
theorem priority_place : (heap.place item index).priority = heap.priority :=
  priority_setIndex index

omit [LinearOrder κ] in
/-- Away from the removed item the shorter array has the old priorities. -/
private theorem priorityAt_shorten {slot : Slot κ} {i : Nat} (coherent : heap.Coherent)
    (stored : heap.entries item = some slot) (within : i < heap.order.length - 1)
    (elsewhere : i ≠ slot.index) : (heap.shorten item).priorityAt i = heap.priorityAt i := by
  have there : i < heap.order.length := by omega
  have different : heap.order[i] ≠ item := by
    intro equal
    exact elsewhere (coherent.position_unique
      (by rw [List.getElem?_eq_getElem there, equal]) (coherent.listed item slot stored))
  unfold priorityAt
  rw [priority_shorten]
  simp only [shorten]
  rw [List.getElem?_dropLast, if_pos within, List.getElem?_eq_getElem there, Option.bind_some,
    Option.bind_some, Function.update_of_ne different]

theorem remove_spec (valid : heap.Valid) (known : heap.priority item ≠ none) :
    (heap.remove item).Valid ∧
      (heap.remove item).priority = Function.update heap.priority item none ∧
      (heap.remove item).order.length + 1 = heap.order.length := by
  cases stored : heap.entries item with
  | none => exact absurd (by simp [priority, stored]) known
  | some slot =>
      have listed := valid.coherent.listed item slot stored
      have inside := (List.getElem?_eq_some_iff.mp listed).1
      cases final : heap.order.getLast? with
      | none =>
          rw [List.getLast?_eq_none_iff] at final
          rw [final] at inside
          exact absurd inside (Nat.not_lt_zero _)
      | some last =>
          have shorter := valid.ordered.shrink (Nat.sub_le heap.order.length 1)
          have length : (heap.shorten item).order.length = heap.order.length - 1 := by
            simp [shorten]
          unfold remove
          rw [stored, final]
          simp only [length]
          by_cases notLast : slot.index < heap.order.length - 1
          · rw [if_pos notLast]
            have placed : ((heap.shorten item).place last slot.index).order.length =
                heap.order.length - 1 := by
              simp [place, shorten, setIndex]
            have except : OrderedExcept ((heap.shorten item).place last slot.index).priorityAt
                ((heap.shorten item).place last slot.index).order.length slot.index := by
              rw [placed]
              refine shorter.except ?_
              intro i within elsewhere
              rw [<- priorityAt_shorten valid.coherent stored within elsewhere]
              unfold priorityAt
              rw [priority_place]
              simp only [place, setIndex]
              rw [List.getElem?_set_ne (Ne.symm elsewhere)]
            rcases fix_spec (valid.coherent.moveLast stored final notLast)
              (by rw [placed]; exact notLast) except with ⟨fixed, moved⟩
            refine ⟨fixed, ?_, ?_⟩
            · rw [moved.priority, priority_place, priority_shorten]
            · rw [moved.length, placed]
              omega
          · rw [if_neg notLast]
            have isLast : slot.index = heap.order.length - 1 := by omega
            have same : last = item := by
              rw [List.getLast?_eq_getElem?, <- isLast, listed] at final
              exact (Option.some.inj final).symm
            refine ⟨⟨valid.coherent.shorten (same ▸ final), ?_⟩, priority_shorten, ?_⟩
            · intro i positive within
              rw [length] at within
              rw [priorityAt_shorten valid.coherent stored (by omega) (by omega),
                priorityAt_shorten valid.coherent stored within (by omega)]
              exact shorter i positive within
            · rw [length]
              omega

omit [LinearOrder κ] in
/-- A renamed slot keeps its place. -/
theorem Coherent.rename (coherent : heap.Coherent) (absent : heap.priority new = none) :
    (heap.rename old new).Coherent := by
  unfold IndexedHeap.rename
  cases stored : heap.entries old with
  | none => exact coherent
  | some slot =>
      dsimp only
      have listed := coherent.listed old slot stored
      have inside := (List.getElem?_eq_some_iff.mp listed).1
      have notNew : new ∉ heap.order := fun member => coherent.mem_iff.mp member absent
      constructor
      · intro position other found
        rw [List.getElem?_set] at found
        split at found
        case isTrue same =>
          cases found
          exact ⟨slot, Function.update_self .., same⟩
        case isFalse elsewhere =>
          have isNotNew : other ≠ new := by
            rintro rfl
            exact notNew (List.mem_of_getElem? found)
          have isNotOld : other ≠ old := by
            rintro rfl
            exact elsewhere (coherent.position_unique listed found)
          simp only [Function.update_of_ne isNotNew, Function.update_of_ne isNotOld]
          exact coherent.at_position position other found
      · intro other known there
        change Function.update (Function.update heap.entries old none) new (some slot) other =
          some known at there
        change (heap.order.set slot.index new)[known.index]? = some other
        by_cases isNew : other = new
        · rw [isNew, Function.update_self] at there
          cases there
          rw [isNew]
          exact List.getElem?_set_self inside
        · rw [Function.update_of_ne isNew] at there
          by_cases isOld : other = old
          · rw [isOld, Function.update_self] at there
            cases there
          · rw [Function.update_of_ne isOld] at there
            have listedOther := coherent.listed other known there
            have elsewhere : slot.index ≠ known.index := by
              intro equal
              rw [<- equal, listed] at listedOther
              exact isOld (Option.some.inj listedOther).symm
            rw [List.getElem?_set_ne elsewhere]
            exact listedOther

/-- Renaming hands the priority over. -/
theorem rename_spec (valid : heap.Valid) (known : heap.priority old ≠ none)
    (absent : heap.priority new = none) :
    (heap.rename old new).Valid ∧
      (heap.rename old new).priority =
        Function.update (Function.update heap.priority old none) new (heap.priority old) ∧
      (heap.rename old new).order.length = heap.order.length := by
  cases stored : heap.entries old with
  | none => exact absurd (by simp [priority, stored]) known
  | some slot =>
      have listed := valid.coherent.listed old slot stored
      have inside := (List.getElem?_eq_some_iff.mp listed).1
      have priorities : (heap.rename old new).priority =
          Function.update (Function.update heap.priority old none) new (heap.priority old) := by
        funext other
        unfold priority rename
        rw [stored]
        simp only [Function.update_apply]
        split
        · rfl
        · split
          · rfl
          · rfl
      have length : (heap.rename old new).order.length = heap.order.length := by
        simp [rename, stored]
      refine ⟨⟨valid.coherent.rename absent, ?_⟩, priorities, length⟩
      have same : (heap.rename old new).priorityAt = heap.priorityAt := by
        funext position
        unfold priorityAt
        rw [priorities]
        simp only [rename, stored]
        rw [List.getElem?_set]
        split
        case isTrue here =>
          rw [<- here, listed, Option.bind_some, Option.bind_some, Function.update_self]
        case isFalse elsewhere =>
          cases found : heap.order[position]? with
          | none => rfl
          | some other =>
              have isNotOld : other ≠ old := by
                rintro rfl
                exact elsewhere (valid.coherent.position_unique listed found)
              have isNotNew : other ≠ new := by
                rintro rfl
                exact valid.coherent.mem_iff.mp (List.mem_of_getElem? found) absent
              rw [Option.bind_some, Option.bind_some, Function.update_of_ne isNotNew,
                Function.update_of_ne isNotOld]
      rw [same, length]
      exact valid.ordered

omit [DecidableEq α] in
theorem valid_empty : (empty : IndexedHeap α κ).Valid where
  coherent := ⟨by simp [empty], by simp [empty]⟩
  ordered := by
    intro i _ inside
    simp [empty] at inside

omit [DecidableEq α] in
/-- The first item of the array has the least priority. -/
theorem Valid.first_le {priority other : κ} (valid : heap.Valid)
    (first : heap.order.head? = some old) (known : heap.priority old = some priority)
    (also : heap.priority item = some other) : priority ≤ other := by
  have member : item ∈ heap.order := valid.coherent.mem_iff.mpr (by simp [also])
  rcases List.mem_iff_getElem?.mp member with ⟨position, found⟩
  have least := valid.ordered.root_le position (List.getElem?_eq_some_iff.mp found).1
  unfold priorityAt at least
  rw [<- List.head?_eq_getElem?, first, found, Option.bind_some, Option.bind_some, known,
    also] at least
  exact WithBot.coe_le_coe.mp least

end Order

end IndexedHeap

end Library
end Reddish
