import Reddish.Database.World

namespace Reddish

open Library Numeral

/-!
# The abstract database

What an operation is meant to do, stated on the logical keyspace alone: its
result, the keyspace it leaves and the records it logs.  Time enters as the
moment that decides about expiry, which is absent during a replay.
-/

namespace Spec

structure Outcome (α : Type) where
  result : α
  space : Keyspace
  records : List Wal.Record

def record (op : WalOp) (args : List Bytes) : Wal.Record :=
  ⟨op.code, args⟩

def expired (time : Option Int64) (entry : Entry) : Bool :=
  match time, entry.deadline with
  | some now, some deadline => decide (deadline ≤ now)
  | _, _ => false

/-- Look a key up for reading: an expired key is not seen, any other one
becomes the most recent. -/
def active (time : Option Int64) (key : Bytes) (space : Keyspace) : Outcome (Option Entry) :=
  match space.find key with
  | none => ⟨none, space, []⟩
  | some entry =>
      if expired time entry then ⟨none, space, []⟩ else ⟨some entry, space.touch key, []⟩

/-- Look a key up for writing: an expired key is removed, which is logged, and
any other one becomes the most recent. -/
def writable (time : Option Int64) (key : Bytes) (space : Keyspace) : Outcome (Option Entry) :=
  match space.find key with
  | none => ⟨none, space, []⟩
  | some entry =>
      if expired time entry then ⟨none, space.erase key, [record .del [key]]⟩
      else ⟨some entry, space.touch key, []⟩

/-- Reading a key: an answer that depends on its entry.  An expired key counts
as missing, but it stays where it is and nothing is logged. -/
def reading {α : Type} (answer : Option Entry -> α) (key : Bytes) (time : Option Int64)
    (space : Keyspace) : Outcome α :=
  ⟨answer (active time key space).result, (active time key space).space, []⟩

variable {time : Option Int64} {key probe : Bytes} {space : Keyspace} {entry : Entry}

/-- The two lookups of a key that is there do the same. -/
theorem writable_of_active (found : (active time key space).result ≠ none) :
    (writable time key space).space = (active time key space).space ∧
      (writable time key space).records = [] := by
  unfold active at found ⊢
  unfold writable
  cases here : space.find key with
  | none => exact ⟨rfl, rfl⟩
  | some entry =>
      rw [here] at found
      simp only at found ⊢
      split
      case isTrue gone =>
        rw [if_pos gone] at found
        exact absurd rfl found
      case isFalse => exact ⟨rfl, rfl⟩

/-- The entry that a lookup returned is the one in the keyspace, in front. -/
theorem find_writable : (writable time key space).space.find key =
    (writable time key space).result := by
  unfold writable
  cases found : space.find key with
  | none => exact found
  | some entry =>
      simp only
      split
      · rw [Keyspace.find_erase, if_pos rfl]
      · rw [Keyspace.find_touch, found]

theorem find_writable_other (different : probe ≠ key) :
    (writable time key space).space.find probe = space.find probe := by
  unfold writable
  cases found : space.find key with
  | none => rfl
  | some entry =>
      simp only
      split
      · rw [Keyspace.find_erase, if_neg different]
      · rw [Keyspace.find_touch]

theorem key_of_writable (result : (writable time key space).result = some entry) :
    entry.key = key := by
  rw [<- find_writable] at result
  exact Keyspace.key_of_find result

/-- A key that is found for writing has been put in front. -/
theorem writable_some (result : (writable time key space).result = some entry) :
    writable time key space = ⟨some entry, space.put entry, []⟩ := by
  unfold writable at result ⊢
  cases found : space.find key with
  | none =>
      rw [found] at result
      cases result
  | some known =>
      rw [found] at result
      simp only at result ⊢
      split at result
      case isTrue => cases result
      case isFalse alive =>
        cases result
        rw [if_neg alive, Keyspace.touch, found]

/-- A key that is not found for writing is not in the keyspace any more. -/
theorem writable_none (result : (writable time key space).result = none) :
    (writable time key space).space.find key = none := by
  rw [find_writable, result]

end Spec

namespace Keyspace

variable {space : Keyspace} {key : Bytes} {entry : Entry}

theorem erase_erase : (space.erase key).erase key = space.erase key := by
  unfold erase
  rw [List.filter_filter]
  simp

/-- Changing the entry in front is putting the changed entry. -/
theorem modify_put {change : Entry -> Entry} (same : (change entry).key = entry.key) :
    (space.put entry).modify entry.key change = space.put (change entry) := by
  unfold put modify
  rw [List.map_cons, if_pos rfl, same]
  congr 1
  refine (List.map_congr_left ?_).trans (List.map_id _)
  intro other inside
  have different : other.key ≠ entry.key := by
    unfold erase at inside
    rw [List.mem_filter] at inside
    simpa using inside.2
  rw [if_neg different]
  rfl

theorem put_put {first second : Entry} (same : second.key = first.key) :
    (space.put first).put second = space.put second := by
  unfold put
  rw [same]
  congr 1
  conv_lhs => unfold erase
  rw [List.filter_cons_of_neg (by simp)]
  exact erase_erase

theorem touch_put : (space.put entry).touch entry.key = space.put entry := by
  unfold touch
  rw [find_put, if_pos rfl]
  exact put_put rfl

end Keyspace

namespace Spec

/-- The keyspace after a key that was looked up for writing got a value, with
the deadline it had or without one. -/
def store (start : Outcome (Option Entry)) (key : Bytes) (value : Stored) (keepTtl : Bool) :
    Keyspace :=
  start.space.put ⟨key, value, if keepTtl then start.result.bind Entry.deadline else none⟩

variable {time : Option Int64} {key : Bytes} {space : Keyspace} {entry : Entry} {value : Stored}
variable {keepTtl : Bool}

/-- Replacing the value of a key that was found keeps its deadline. -/
theorem setValue_writable (result : (writable time key space).result = some entry) :
    (writable time key space).space.setValue key value =
      store (writable time key space) key value true := by
  have sameKey := key_of_writable result
  rw [writable_some result, store, Keyspace.setValue, <- sameKey, Keyspace.modify_put,
    Keyspace.put_put]
  · rfl
  · rfl
  · rfl

theorem touch_store (start : Outcome (Option Entry)) :
    (store start key value keepTtl).touch key = store start key value keepTtl :=
  @Keyspace.touch_put start.space ⟨key, value, _⟩

theorem setDeadline_store (start : Outcome (Option Entry)) :
    (store start key value keepTtl).setDeadline key none = store start key value false :=
  @Keyspace.modify_put start.space ⟨key, value, _⟩ _ rfl

theorem find_store (start : Outcome (Option Entry)) :
    (store start key value keepTtl).find key =
      some ⟨key, value, if keepTtl then start.result.bind Entry.deadline else none⟩ := by
  unfold store
  rw [Keyspace.find_put, if_pos rfl]

end Spec

end Reddish
