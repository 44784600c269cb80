import Mathlib

namespace Reddish
namespace Library

/-!
# Association lists and the finite maps they stand for

A hash table is used here only through its lookups, so it is read as a list of
pairs with distinct keys.  `toMap` forgets the order; the lemmas below say that
each list operation is the map operation of the same name.
-/

namespace Assoc

variable {κ ν : Type} [DecidableEq κ]

/-- The value of the first pair with the key. -/
def find (key : κ) : List (κ × ν) -> Option ν
  | [] => none
  | (head, value) :: rest => if head = key then some value else find key rest

/-- Replace the value of the first pair with the key. -/
def assign (key : κ) (value : ν) : List (κ × ν) -> List (κ × ν)
  | [] => []
  | (head, old) :: rest =>
      if head = key then (head, value) :: rest else (head, old) :: assign key value rest

/-- Drop the first pair with the key. -/
def erase (key : κ) : List (κ × ν) -> List (κ × ν)
  | [] => []
  | (head, value) :: rest => if head = key then rest else (head, value) :: erase key rest

/-- Replace the value of a key that is there, or add the pair at the end. -/
def insert (key : κ) (value : ν) (table : List (κ × ν)) : List (κ × ν) :=
  if (find key table).isSome then assign key value table else table ++ [(key, value)]

/-- No key occurs twice. -/
def Distinct (table : List (κ × ν)) : Prop :=
  (table.map Prod.fst).Nodup

def toMap : List (κ × ν) -> Finmap (fun _ : κ => ν)
  | [] => ∅
  | (key, value) :: rest => (toMap rest).insert key value

variable {table other : List (κ × ν)} {key probe : κ} {value : ν}

theorem lookup_toMap : (toMap table).lookup probe = find probe table := by
  induction table with
  | nil => exact Finmap.lookup_empty probe
  | cons head rest ih =>
      rcases head with ⟨key, value⟩
      by_cases same : key = probe
      · subst same
        simp [toMap, find]
      · simp [toMap, find, same, Finmap.lookup_insert_of_ne _ (Ne.symm same),
          ih]

/-- Lists with equal lookups stand for the same map. -/
theorem toMap_congr (same : forall probe, find probe table = find probe other) :
    toMap table = toMap other := by
  apply Finmap.ext_lookup
  intro probe
  rw [lookup_toMap, lookup_toMap, same]

theorem find_eq_none_iff : find key table = none <-> key ∉ table.map Prod.fst := by
  induction table with
  | nil => simp [find]
  | cons head rest ih =>
      rcases head with ⟨first, value⟩
      by_cases same : first = key
      · simp [find, same]
      · simp [find, same, Ne.symm same, ih]

/-- A found pair splits the list at its first occurrence. -/
theorem split_of_find (found : find key table = some value) :
    exists front back, table = front ++ (key, value) :: back ∧ find key front = none := by
  induction table with
  | nil => cases found
  | cons head rest ih =>
      rcases head with ⟨first, old⟩
      by_cases same : first = key
      · simp only [find, if_pos same, Option.some.injEq] at found
        exact ⟨[], rest, by rw [same, found]; rfl, rfl⟩
      · simp only [find, if_neg same] at found
        rcases ih found with ⟨front, back, split, absent⟩
        refine ⟨(first, old) :: front, back, by rw [split]; rfl, ?_⟩
        simp only [find, if_neg same, absent]

theorem mem_of_find (found : find key table = some value) : (key, value) ∈ table := by
  rcases split_of_find found with ⟨front, back, rfl, -⟩
  exact List.mem_append_right front List.mem_cons_self

theorem find_of_mem (distinct : Distinct table) (member : (key, value) ∈ table) :
    find key table = some value := by
  induction table with
  | nil => cases member
  | cons head rest ih =>
      rcases head with ⟨first, old⟩
      rcases List.nodup_cons.mp distinct with ⟨fresh, restDistinct⟩
      rcases List.mem_cons.mp member with equal | inside
      · cases equal
        simp [find]
      · have different : first ≠ key := by
          rintro rfl
          exact fresh (List.mem_map.mpr ⟨_, inside, rfl⟩)
        simp only [find, if_neg different]
        exact ih restDistinct inside

/-- Lookups do not depend on the order. -/
theorem find_perm (distinct : Distinct table) (perm : table.Perm other) :
    find probe table = find probe other := by
  have otherDistinct : Distinct other := (perm.map Prod.fst).nodup_iff.mp distinct
  cases found : find probe other with
  | none =>
      rw [find_eq_none_iff] at found ⊢
      rwa [(perm.map Prod.fst).mem_iff]
  | some value => exact find_of_mem distinct (perm.mem_iff.mpr (mem_of_find found))

theorem toMap_perm (distinct : Distinct table) (perm : table.Perm other) :
    toMap other = toMap table :=
  toMap_congr fun _ => (find_perm distinct perm).symm

theorem card_toMap (distinct : Distinct table) : (toMap table).keys.card = table.length := by
  have keys : (toMap table).keys = (table.map Prod.fst).toFinset := by
    ext probe
    rw [Finmap.mem_keys, <- Finmap.lookup_isSome, lookup_toMap, List.mem_toFinset]
    rw [Option.isSome_iff_ne_none, ne_eq, find_eq_none_iff, not_not]
  rw [keys, List.toFinset_card_of_nodup distinct, List.length_map]

/-! ## Appending -/

theorem find_append :
    find probe (table ++ other) = (find probe table).or (find probe other) := by
  induction table with
  | nil => rfl
  | cons head rest ih =>
      rcases head with ⟨first, value⟩
      by_cases same : first = probe
      · simp [find, same]
      · simp [find, same, ih]

theorem distinct_append_one (distinct : Distinct table) (fresh : find key table = none) :
    Distinct (table ++ [(key, value)]) := by
  unfold Distinct
  rw [List.map_append, List.nodup_append]
  refine ⟨distinct, List.nodup_singleton _, ?_⟩
  intro one first two second
  rw [List.map_singleton, List.mem_singleton] at second
  rintro rfl
  rw [second] at first
  exact find_eq_none_iff.mp fresh first

theorem toMap_append_one (fresh : find key table = none) :
    toMap (table ++ [(key, value)]) = (toMap table).insert key value := by
  apply Finmap.ext_lookup
  intro probe
  rw [lookup_toMap, find_append]
  by_cases same : probe = key
  · subst same
    rw [fresh, Finmap.lookup_insert]
    simp [find]
  · rw [Finmap.lookup_insert_of_ne _ same, lookup_toMap]
    simp [find, Ne.symm same]

/-! ## Replacing -/

theorem find_assign (known : find key table ≠ none) :
    find probe (assign key value table) =
      if probe = key then some value else find probe table := by
  induction table with
  | nil => exact absurd rfl known
  | cons head rest ih =>
      rcases head with ⟨first, old⟩
      by_cases same : first = key
      · subst same
        by_cases isProbe : probe = first
        · simp [assign, find, isProbe]
        · simp [assign, find, isProbe, Ne.symm isProbe]
      · simp only [find, if_neg same] at known
        simp only [assign, if_neg same, find]
        rw [ih known]
        by_cases isProbe : first = probe
        · subst isProbe
          rw [if_pos rfl, if_neg same, if_pos rfl]
        · rw [if_neg isProbe, if_neg isProbe]

theorem map_fst_assign : (assign key value table).map Prod.fst = table.map Prod.fst := by
  induction table with
  | nil => rfl
  | cons head rest ih =>
      rcases head with ⟨first, old⟩
      by_cases same : first = key
      · simp [assign, same]
      · simp [assign, same, ih]

theorem length_assign : (assign key value table).length = table.length := by
  have keys := congrArg List.length (@map_fst_assign κ ν _ table key value)
  rwa [List.length_map, List.length_map] at keys

theorem distinct_assign (distinct : Distinct table) : Distinct (assign key value table) := by
  unfold Distinct
  rw [map_fst_assign]
  exact distinct

theorem toMap_assign (known : find key table ≠ none) :
    toMap (assign key value table) = (toMap table).insert key value := by
  apply Finmap.ext_lookup
  intro probe
  rw [lookup_toMap, find_assign known]
  by_cases same : probe = key
  · subst same
    rw [if_pos rfl, Finmap.lookup_insert]
  · rw [if_neg same, Finmap.lookup_insert_of_ne _ same, lookup_toMap]

theorem assign_split {front back : List (κ × ν)} {old : ν} (absent : find key front = none) :
    assign key value (front ++ (key, old) :: back) = front ++ (key, value) :: back := by
  induction front with
  | nil => simp [assign]
  | cons head rest ih =>
      rcases head with ⟨first, other⟩
      by_cases same : first = key
      · simp [find, same] at absent
      · simp only [find, if_neg same] at absent
        simp only [List.cons_append, assign, if_neg same, ih absent]

/-! ## Inserting -/

theorem insert_of_find_none (fresh : find key table = none) :
    insert key value table = table ++ [(key, value)] := by
  rw [insert, fresh]
  rfl

theorem insert_of_find_some {old : ν} (known : find key table = some old) :
    insert key value table = assign key value table := by
  rw [insert, known]
  rfl

theorem toMap_insert : toMap (insert key value table) = (toMap table).insert key value := by
  cases found : find key table with
  | none => rw [insert_of_find_none found, toMap_append_one found]
  | some old =>
      rw [insert_of_find_some found, toMap_assign]
      rw [found]
      exact Option.some_ne_none old

theorem distinct_insert (distinct : Distinct table) : Distinct (insert key value table) := by
  cases found : find key table with
  | none =>
      rw [insert_of_find_none found]
      exact distinct_append_one distinct found
  | some old =>
      rw [insert_of_find_some found]
      exact distinct_assign distinct

theorem length_insert :
    (insert key value table).length =
      table.length + if (find key table).isSome then 0 else 1 := by
  cases found : find key table with
  | none => simp [insert_of_find_none found]
  | some old => simp [insert_of_find_some found, length_assign]

theorem insert_ne_nil : insert key value table ≠ [] := by
  cases found : find key table with
  | none => simp [insert_of_find_none found]
  | some old =>
      rw [insert_of_find_some found]
      refine List.ne_nil_of_length_pos ?_
      rw [length_assign]
      exact List.length_pos_of_mem (mem_of_find found)

/-! ## Dropping -/

theorem erase_sublist : (erase key table).Sublist table := by
  induction table with
  | nil => exact List.Sublist.slnil
  | cons head rest ih =>
      rcases head with ⟨first, value⟩
      by_cases same : first = key
      · simp only [erase, if_pos same]
        exact List.sublist_cons_self ..
      · simp only [erase, if_neg same]
        exact ih.cons_cons _

theorem erase_split {front back : List (κ × ν)} {old : ν} (absent : find key front = none) :
    erase key (front ++ (key, old) :: back) = front ++ back := by
  induction front with
  | nil => simp [erase]
  | cons head rest ih =>
      rcases head with ⟨first, other⟩
      by_cases same : first = key
      · simp [find, same] at absent
      · simp only [find, if_neg same] at absent
        simp only [List.cons_append, erase, if_neg same, ih absent]

theorem distinct_erase (distinct : Distinct table) : Distinct (erase key table) :=
  (erase_sublist.map Prod.fst).nodup distinct

theorem find_erase (distinct : Distinct table) :
    find probe (erase key table) = if probe = key then none else find probe table := by
  induction table with
  | nil => simp [erase, find]
  | cons head rest ih =>
      rcases head with ⟨first, value⟩
      rcases List.nodup_cons.mp distinct with ⟨fresh, restDistinct⟩
      by_cases same : first = key
      · subst same
        simp only [erase, if_true]
        by_cases isProbe : probe = first
        · subst isProbe
          rw [if_pos rfl]
          exact find_eq_none_iff.mpr fresh
        · simp [find, isProbe, Ne.symm isProbe]
      · simp only [erase, if_neg same, find]
        rw [ih restDistinct]
        by_cases isProbe : first = probe
        · subst isProbe
          rw [if_pos rfl, if_neg same, if_pos rfl]
        · rw [if_neg isProbe, if_neg isProbe]

theorem toMap_erase (distinct : Distinct table) :
    toMap (erase key table) = (toMap table).erase key := by
  apply Finmap.ext_lookup
  intro probe
  rw [lookup_toMap, find_erase distinct]
  by_cases same : probe = key
  · subst same
    rw [if_pos rfl, Finmap.lookup_erase]
  · rw [if_neg same, Finmap.lookup_erase_ne same, lookup_toMap]

/-! ## Standing for a map -/

/-- The list has distinct keys and stands for the map. -/
structure Represents (table : List (κ × ν)) (map : Finmap (fun _ : κ => ν)) : Prop where
  distinct : Distinct table
  toMap_eq : toMap table = map

variable {map : Finmap (fun _ : κ => ν)}

theorem represents_nil : Represents ([] : List (κ × ν)) ∅ :=
  ⟨List.nodup_nil, rfl⟩

theorem Represents.perm (represents : Represents table map) (perm : other.Perm table) :
    Represents other map where
  distinct := (perm.map Prod.fst).nodup_iff.mpr represents.distinct
  toMap_eq := (toMap_perm represents.distinct perm.symm).trans represents.toMap_eq

theorem Represents.lookup (represents : Represents table map) :
    map.lookup probe = find probe table := by
  rw [<- represents.toMap_eq, lookup_toMap]

/-- A list that stands for a map with a key has a pair. -/
theorem Represents.ne_nil (represents : Represents table map)
    (known : map.lookup key = some value) : table ≠ [] := by
  rintro rfl
  rw [represents.lookup] at known
  cases known

theorem Represents.card (represents : Represents table map) :
    map.keys.card = table.length := by
  rw [<- represents.toMap_eq, card_toMap represents.distinct]

theorem Represents.insert (represents : Represents table map) :
    Represents (insert key value table) (map.insert key value) where
  distinct := distinct_insert represents.distinct
  toMap_eq := by
    rw [toMap_insert, represents.toMap_eq]

theorem Represents.erase (represents : Represents table map) :
    Represents (erase key table) (map.erase key) where
  distinct := distinct_erase represents.distinct
  toMap_eq := by
    rw [toMap_erase represents.distinct, represents.toMap_eq]

end Assoc

end Library
end Reddish
