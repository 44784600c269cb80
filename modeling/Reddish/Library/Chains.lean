import Mathlib

namespace Reddish
namespace Library

/-!
# Chained hash tables

A table of chains and a function that says which chain an item belongs to.
The table holds a list of items when the chains together are a permutation of
it and each item stands in its own chain.
-/

namespace Chains

variable {α : Type}

/-- Put an item in front of a chain. -/
def link (slot : Nat) (item : α) (buckets : List (List α)) : List (List α) :=
  buckets.modify slot (item :: ·)

/-- Take an item out of a chain. -/
def unlink [DecidableEq α] (slot : Nat) (item : α) (buckets : List (List α)) : List (List α) :=
  buckets.modify slot (·.erase item)

/-- Let an item take the place of another one in its chain. -/
def replace [DecidableEq α] (slot : Nat) (old new : α) (buckets : List (List α)) :
    List (List α) :=
  buckets.modify slot (·.map fun item => if item = old then new else item)

/-- Move all items, chain by chain, to a table with another number of chains. -/
def redistribute (slot : α -> Nat) (count : Nat) (buckets : List (List α)) : List (List α) :=
  buckets.flatten.foldl (fun fresh item => link (slot item) item fresh) (List.replicate count [])

/-- The table holds the items, each in its own chain and nowhere else. -/
structure Holds (slot : α -> Nat) (buckets : List (List α)) (items : List α) : Prop where
  perm : buckets.flatten.Perm items
  placed : forall i chain, buckets[i]? = some chain -> forall item, item ∈ chain -> slot item = i

variable {slot : α -> Nat} {buckets : List (List α)} {items : List α} {item : α} {i : Nat}

@[simp] theorem length_link : (link i item buckets).length = buckets.length :=
  List.length_modify ..

@[simp] theorem length_unlink [DecidableEq α] : (unlink i item buckets).length = buckets.length :=
  List.length_modify ..

@[simp] theorem length_replace [DecidableEq α] {old new : α} :
    (replace i old new buckets).length = buckets.length :=
  List.length_modify ..

/-- Changing one chain changes one stretch of the joined chains. -/
theorem flatten_modify (change : List α -> List α) (inside : i < buckets.length) :
    (buckets.modify i change).flatten =
      (buckets.take i).flatten ++ (change buckets[i] ++ (buckets.drop (i + 1)).flatten) := by
  rw [List.modify_eq_take_cons_drop inside, List.flatten_append, List.flatten_cons]

theorem flatten_split (inside : i < buckets.length) :
    buckets.flatten =
      (buckets.take i).flatten ++ (buckets[i] ++ (buckets.drop (i + 1)).flatten) := by
  have same := flatten_modify id inside
  rwa [List.modify_id] at same

/-- An item of the table stands in its own chain. -/
theorem Holds.mem_chain (holds : Holds slot buckets items) (member : item ∈ items) :
    exists chain, buckets[slot item]? = some chain ∧ item ∈ chain := by
  have inside := holds.perm.mem_iff.mpr member
  rcases List.mem_flatten.mp inside with ⟨chain, listed, here⟩
  rcases List.mem_iff_getElem?.mp listed with ⟨i, found⟩
  rw [holds.placed i chain found item here]
  exact ⟨chain, found, here⟩

theorem Holds.mem_of_chain {chain : List α} (holds : Holds slot buckets items)
    (found : buckets[i]? = some chain) (here : item ∈ chain) : item ∈ items :=
  holds.perm.mem_iff.mp (List.mem_flatten.mpr ⟨chain, List.mem_of_getElem? found, here⟩)

/-- Only the chains of the items matter. -/
theorem Holds.congr {other : α -> Nat} (holds : Holds slot buckets items)
    (same : forall item, item ∈ items -> other item = slot item) : Holds other buckets items where
  perm := holds.perm
  placed := by
    intro i chain found item here
    rw [same item (holds.mem_of_chain found here)]
    exact holds.placed i chain found item here

theorem Holds.of_perm {others : List α} (holds : Holds slot buckets items)
    (perm : items.Perm others) : Holds slot buckets others where
  perm := holds.perm.trans perm
  placed := holds.placed

theorem holds_empty (count : Nat) : Holds slot (List.replicate count []) [] where
  perm := by simp
  placed := by
    intro i chain found item here
    rw [List.eq_of_mem_replicate (List.mem_of_getElem? found)] at here
    cases here

theorem Holds.link (holds : Holds slot buckets items) (inside : slot item < buckets.length) :
    Holds slot (link (slot item) item buckets) (item :: items) where
  perm := by
    unfold Chains.link
    rw [flatten_modify _ inside, List.cons_append]
    refine List.perm_middle.trans ?_
    rw [<- flatten_split inside]
    exact holds.perm.cons item
  placed := by
    intro i chain found other here
    unfold Chains.link at found
    rw [List.getElem?_modify] at found
    rcases Option.map_eq_some_iff.mp found with ⟨before, listed, rfl⟩
    split at here
    case isTrue same =>
      rcases List.mem_cons.mp here with rfl | there
      · exact same
      · exact holds.placed i before listed other there
    case isFalse => exact holds.placed i before listed other here

/-- Moving to another table keeps the items. -/
theorem Holds.redistribute {next : α -> Nat} {count : Nat} (holds : Holds slot buckets items)
    (bound : forall item, next item < count) :
    Holds next (redistribute next count buckets) items ∧
      (redistribute next count buckets).length = count := by
  have walk : forall (rest : List α) (fresh : List (List α)) (moved : List α),
      Holds next fresh moved -> fresh.length = count ->
        Holds next (rest.foldl (fun fresh item => Chains.link (next item) item fresh) fresh)
          (rest.reverse ++ moved) ∧
        (rest.foldl (fun fresh item => Chains.link (next item) item fresh) fresh).length =
          count := by
    intro rest
    induction rest with
    | nil =>
        intro fresh moved start length
        exact ⟨start, length⟩
    | cons head tail ih =>
        intro fresh moved start length
        have linked : Holds next (Chains.link (next head) head fresh) (head :: moved) :=
          start.link (by rw [length]; exact bound head)
        have result := ih _ _ linked (by rw [length_link, length])
        rw [List.foldl_cons, List.reverse_cons, List.append_assoc]
        exact result
  have done := walk buckets.flatten _ [] (holds_empty count) (List.length_replicate ..)
  rw [List.append_nil] at done
  exact ⟨done.1.of_perm ((List.reverse_perm _).trans holds.perm), done.2⟩

/-- Looking in the right chain is as good as looking everywhere. -/
theorem Holds.find_chain {test : α -> Bool} (holds : Holds slot buckets items)
    (only : forall item, item ∈ items -> test item = true -> slot item = i)
    (unique : forall one, one ∈ items -> forall two, two ∈ items ->
      test one = true -> test two = true -> one = two) :
    (buckets.getD i []).find? test = items.find? test := by
  cases found : items.find? test with
  | none =>
      rw [List.find?_eq_none] at found ⊢
      intro other here
      rw [List.getD_eq_getElem?_getD] at here
      cases listed : buckets[i]? with
      | none => simp [listed] at here
      | some chain =>
          rw [listed] at here
          exact found other (holds.mem_of_chain listed here)
  | some item =>
      have member := List.mem_of_find?_eq_some found
      have passes := List.find?_some found
      rcases holds.mem_chain member with ⟨chain, listed, here⟩
      rw [only item member passes] at listed
      rw [List.getD_eq_getElem?_getD, listed, Option.getD_some]
      cases again : chain.find? test with
      | none => exact absurd passes (List.find?_eq_none.mp again item here)
      | some other =>
          rw [unique other (holds.mem_of_chain listed (List.mem_of_find?_eq_some again)) item
            member (List.find?_some again) passes]

section Decidable

variable [DecidableEq α]

theorem perm_erase_middle {front chain back : List α} (here : item ∈ chain)
    (whole : (front ++ (chain ++ back)).Perm items) :
    (front ++ (chain.erase item ++ back)).Perm (items.erase item) := by
  refine (List.cons_perm_iff_perm_erase.mp (List.Perm.trans ?_ whole)).2
  refine List.perm_middle.symm.trans (List.Perm.append_left _ ?_)
  rw [<- List.cons_append]
  exact (List.perm_cons_erase here).symm.append_right _

theorem Holds.unlink (holds : Holds slot buckets items) (member : item ∈ items) :
    Holds slot (unlink (slot item) item buckets) (items.erase item) where
  perm := by
    rcases holds.mem_chain member with ⟨chain, listed, here⟩
    rcases List.getElem?_eq_some_iff.mp listed with ⟨inside, rfl⟩
    have whole := holds.perm
    rw [flatten_split inside] at whole
    unfold Chains.unlink
    rw [flatten_modify _ inside]
    exact perm_erase_middle here whole
  placed := by
    intro i chain found other here
    unfold Chains.unlink at found
    rw [List.getElem?_modify] at found
    rcases Option.map_eq_some_iff.mp found with ⟨before, listed, rfl⟩
    split at here
    · exact holds.placed i before listed other (List.mem_of_mem_erase here)
    · exact holds.placed i before listed other here

/-- A replaced item keeps its chain. -/
theorem Holds.replace {old new : α} (holds : Holds slot buckets items) (nodup : items.Nodup)
    (member : old ∈ items) (same : slot new = slot old) :
    Holds slot (replace (slot old) old new buckets) (new :: items.erase old) where
  perm := by
    rcases holds.mem_chain member with ⟨chain, listed, here⟩
    rcases List.getElem?_eq_some_iff.mp listed with ⟨inside, rfl⟩
    have whole := holds.perm
    have distinct := whole.nodup_iff.mpr nodup
    rw [flatten_split inside] at whole distinct
    have chainDistinct : buckets[slot old].Nodup :=
      (List.nodup_append.mp (List.nodup_append.mp distinct).2.1).1
    have changed : (buckets[slot old].map fun item => if item = old then new else item).Perm
        (new :: buckets[slot old].erase old) := by
      rcases List.append_of_mem here with ⟨front, back, split⟩
      rw [split] at chainDistinct ⊢
      simp only [List.nodup_append, List.nodup_cons, List.mem_cons] at chainDistinct
      rcases chainDistinct with ⟨-, ⟨notBack, -⟩, apart⟩
      have notFront : old ∉ front := fun inside => apart old inside old (Or.inl rfl) rfl
      have unchanged : forall part : List α, old ∉ part ->
          part.map (fun item => if item = old then new else item) = part := by
        intro part outside
        refine (List.map_congr_left ?_).trans (List.map_id part)
        intro item there
        rw [if_neg (by rintro rfl; exact outside there)]
        rfl
      rw [List.map_append, List.map_cons, unchanged front notFront, unchanged back notBack,
        if_pos rfl, List.erase_append_right _ notFront, List.erase_cons_head]
      exact List.perm_middle
    unfold Chains.replace
    rw [flatten_modify _ inside]
    refine (List.Perm.append_left _ (changed.append_right _)).trans ?_
    rw [List.cons_append]
    exact List.perm_middle.trans ((perm_erase_middle here whole).cons new)
  placed := by
    intro i chain found other here
    unfold Chains.replace at found
    rw [List.getElem?_modify] at found
    rcases Option.map_eq_some_iff.mp found with ⟨before, listed, rfl⟩
    split at here
    case isTrue own =>
      rcases List.mem_map.mp here with ⟨item, there, rfl⟩
      split
      · rw [same, own]
      · exact holds.placed i before listed item there
    case isFalse => exact holds.placed i before listed other here

end Decidable

end Chains

end Library
end Reddish
