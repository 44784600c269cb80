import Reddish.Database.Expiry
import Reddish.Database.Strings
import Reddish.Database.Lists
import Reddish.Database.Hashes

namespace Reddish

open Library Numeral

/-!
# Operations leave other keys alone

The specifications name one key and change nothing else in the keyspace.  What
an operation keeps is stated for both ways it can end, so that the statements
chain along any sequence of operations, failed ones included.
-/

/-! ## Keyspaces that agree -/

/-- The two keyspaces have the same entries for the keys in `fixed`. -/
def Keyspace.Agree (fixed : Bytes -> Prop) (before after : Keyspace) : Prop :=
  forall probe, fixed probe -> after.find probe = before.find probe

namespace Spec

variable {time : Option Int64} {key : Bytes} {space later : Keyspace} {fixed : Bytes -> Prop}

open Keyspace (Agree)

theorem agree_refl : Agree fixed space space :=
  fun _ _ => rfl

theorem agree_trans {last : Keyspace} (one : Agree fixed space later)
    (two : Agree fixed later last) : Agree fixed space last :=
  fun probe kept => (two probe kept).trans (one probe kept)

theorem agree_writable : Agree (· ≠ key) space (writable time key space).space :=
  fun _ different => find_writable_other different

theorem agree_active : Agree (· ≠ key) space (active time key space).space := by
  intro probe different
  unfold active
  cases space.find key with
  | none => rfl
  | some entry =>
      simp only
      split
      · rfl
      · exact Keyspace.find_touch

theorem agree_erase (agree : Agree (· ≠ key) space later) :
    Agree (· ≠ key) space (later.erase key) := by
  intro probe different
  rw [Keyspace.find_erase, if_neg different]
  exact agree probe different

theorem agree_put {entry : Entry} (named : entry.key = key) (agree : Agree (· ≠ key) space later) :
    Agree (· ≠ key) space (later.put entry) := by
  intro probe different
  rw [Keyspace.find_put, if_neg (by rw [named]; exact different)]
  exact agree probe different

theorem agree_setDeadline {deadline : Option Int64} (agree : Agree (· ≠ key) space later) :
    Agree (· ≠ key) space (later.setDeadline key deadline) := by
  intro probe different
  unfold Keyspace.setDeadline
  rw [Keyspace.find_modify, if_neg different]
  · exact agree probe different
  · exact fun _ => rfl

theorem agree_store {value : Stored} {keepTtl : Bool} :
    Agree (· ≠ key) space (store (writable time key space) key value keepTtl) :=
  agree_put rfl agree_writable

/-- A specification that changes nothing but its key. -/
def Local {α : Type} (key : Bytes) (spec : Option Int64 -> Keyspace -> Outcome α) : Prop :=
  forall time space, Agree (· ≠ key) space (spec time space).space

theorem local_reading {α : Type} (answer : Option Entry -> α) : Local key (reading answer key) :=
  fun _ _ => agree_active

theorem local_set (val : Bytes) : Local key (set key val) :=
  fun _ _ => agree_store

theorem local_increment : Local key (increment key) := by
  intro time space
  unfold increment
  simp only
  split
  · exact agree_writable
  · exact agree_store

theorem local_listPush (value : Value) (front : Bool) : Local key (listPush key value front) := by
  intro time space
  unfold listPush
  simp only
  split
  · exact agree_writable
  · split
    · exact agree_writable
    · exact agree_store

theorem local_pushTexts (values : List Bytes) (front : Bool) :
    Local key (pushTexts key values front) := by
  intro time space
  unfold pushTexts
  simp only
  split
  · exact agree_writable
  · split
    · exact agree_writable
    · split
      · exact agree_writable
      · exact agree_store

theorem local_listPop (front : Bool) : Local key (listPop key front) := by
  intro time space
  unfold listPop
  simp only
  split
  · exact agree_writable
  · split
    · exact agree_writable
    · simp only
      split
      · exact agree_erase agree_writable
      · exact agree_store

theorem local_hashAssign (field : Bytes) (value : Value) :
    Local key (hashAssign key field value) := by
  intro time space
  unfold hashAssign
  simp only
  split
  · exact agree_writable
  · split
    · exact agree_writable
    · exact agree_store

theorem local_hashSetTexts (texts : List Bytes) : Local key (hashSetTexts key texts) := by
  intro time space
  unfold hashSetTexts
  simp only
  split
  · exact agree_refl
  · split
    · exact agree_writable
    · split
      · exact agree_writable
      · split
        · exact agree_writable
        · exact agree_store

theorem local_hashDel (field : Bytes) : Local key (hashDel key field) := by
  intro time space
  unfold hashDel
  simp only
  split
  · exact agree_writable
  · split
    · simp only
      split
      · exact agree_erase agree_writable
      · exact agree_store
    · exact agree_writable

theorem local_del : Local key (del key) := by
  intro time space
  unfold del
  simp only
  split
  · exact agree_writable
  · exact agree_erase agree_writable

theorem local_expire (seconds now wall : Int64) : Local key (expire key seconds now wall) := by
  intro time space
  unfold expire
  simp only
  split
  · exact agree_writable
  · split
    · exact agree_erase agree_writable
    · exact agree_setDeadline agree_writable

end Spec

/-! ## What code keeps -/

/-- A later state between two operations, in which the entries of the keys in
`fixed` are what they were. -/
def Database.Kept (fixed : Bytes -> Prop) (world : World) (space : Keyspace) (after : World) : Prop :=
  exists later, Ready after later ∧ Keyspace.Agree fixed space later ∧ World.Evolves world after

section Ready

variable {origin world : World} {space later : Keyspace} {records : List Wal.Record}
variable {oversize : Prop} {thrown : Exn} {fixed : Bytes -> Prop}

theorem Reached.ready (reached : Reached origin world [] space records) :
    Database.Ready world space :=
  ⟨reached.rep, reached.sound⟩

theorem Thrown.ready (failed : Thrown origin world [] space records oversize thrown) :
    Database.Ready world space :=
  ⟨failed.rep, failed.sound⟩

theorem Reached.kept (reached : Reached origin world [] later records)
    (agree : Keyspace.Agree fixed space later) : Database.Kept fixed origin space world :=
  ⟨later, reached.ready, agree, reached.evolves⟩

theorem Thrown.kept (failed : Thrown origin world [] later records oversize thrown)
    (agree : Keyspace.Agree fixed space later) : Database.Kept fixed origin space world :=
  ⟨later, failed.ready, agree, failed.evolves⟩

end Ready

namespace Database

open Keyspace (Agree)

/-- Code that starts and ends between two operations, however it ends, and
leaves the entries of the fixed keys alone. -/
def Keeps {α : Type} (fixed : Bytes -> Prop) (op : Op α) : Prop :=
  forall world space, Ready world space ->
    op.wp (fun _ => Kept fixed world space) (fun _ => Kept fixed world space) world

variable {α β : Type} {fixed : Bytes -> Prop} {op : Op α} {key : Bytes} {oversize : Prop}
variable {origin world after : World} {space later : Keyspace} {records : List Wal.Record}
variable {thrown : Exn}

theorem Ready.kept (ready : Ready world space) : Kept fixed world space world :=
  ready.reached.kept Spec.agree_refl

theorem keeps_pure (value : α) : Keeps fixed (pure value) :=
  fun _ _ ready => ready.kept

theorem keeps_raise (thrown : Exn) : Keeps fixed (Cmd.raise thrown : Op α) :=
  fun _ _ ready => ready.kept

theorem keeps_require (condition : Prop) [Decidable condition] (thrown : Exn) :
    Keeps fixed (Cmd.require condition thrown : Op Unit) :=
  fun _ _ ready => Cmd.wp_require (fun _ => ready.kept) (fun _ => ready.kept)

theorem Keeps.bind {rest : α -> Op β} (first : Keeps fixed op)
    (second : forall value, Keeps fixed (rest value)) : Keeps fixed (op >>= rest) := by
  intro world space ready
  refine Cmd.wp_step (first world space ready) ?_ (fun _ _ kept => kept)
  rintro value middle ⟨later, ready, agree, evolves⟩
  have rest : forall last, Kept fixed middle later last -> Kept fixed world space last := by
    rintro last ⟨final, ready, more, further⟩
    exact ⟨final, ready, Spec.agree_trans agree more, evolves.trans further⟩
  exact Cmd.wp_mono (second value middle later ready) (fun _ last => rest last)
    (fun _ last => rest last)

theorem keeps_allocate : Keeps fixed allocate := by
  intro world space ready
  refine Cmd.wp_mono (@allocate_spec _ _ _ _ _ False ready.reached) ?_ ?_
  · rintro _ after ⟨reached, -⟩
    exact reached.kept Spec.agree_refl
  · rintro thrown after ⟨failed, -⟩
    exact failed.kept Spec.agree_refl

/-- An exception on the way through an operation on a key. -/
theorem Aborted.kept (aborted : Aborted origin world key space oversize thrown) :
    Kept (· ≠ key) origin space world := by
  rcases aborted with failed | ⟨now, -, failed⟩
  · exact failed.kept Spec.agree_refl
  · exact failed.kept Spec.agree_writable

/-- Operations keep every key but the one they name. -/
theorem Implements.keeps {spec : Option Int64 -> Keyspace -> Spec.Outcome α}
    (implements : Implements op key oversize spec) (isLocal : Spec.Local key spec) :
    Keeps (· ≠ key) op := by
  intro world space ready
  refine Cmd.wp_mono (implements world space ready) ?_ (fun _ _ aborted => aborted.kept)
  rintro value after ⟨now, -, -, reached⟩
  exact reached.kept (isLocal _ _)

theorem keeps_expire (key : Bytes) (seconds : Int64) : Keeps (· ≠ key) (expire key seconds) := by
  intro world space ready
  refine Cmd.wp_mono (expire_spec ready key seconds) ?_ ?_
  · rintro value after ⟨now, moment, -, -, -, -, reached⟩
    exact reached.kept (Spec.local_expire _ _ _ _ _)
  · rintro thrown after (aborted | ⟨now, moment, -, -, -, failed⟩)
    · exact aborted.kept
    · exact failed.kept (Spec.agree_setDeadline Spec.agree_writable)

theorem keeps_ttl (key : Bytes) : Keeps (· ≠ key) (ttl key) := by
  intro world space ready
  refine Cmd.wp_mono (ttl_spec ready key) ?_ (fun _ _ never => never.elim)
  rintro value after ⟨now, moment, -, -, -, reached⟩
  exact reached.kept Spec.agree_active

theorem agree_nothing : Agree (fun _ => False) space later :=
  fun _ impossible => impossible.elim

theorem keeps_removeExpiredLocked (limit : Nat) :
    Keeps (fun _ => False) (removeExpiredLocked limit) := by
  intro world space ready
  refine Cmd.wp_mono (removeExpiredLocked_spec ready limit) ?_ ?_
  · rintro _ after ⟨now, keys, later, -, -, reached⟩
    exact reached.kept agree_nothing
  · rintro thrown after ⟨now, rounds, keys, later, -, -, -, failed⟩
    exact failed.kept agree_nothing

theorem keeps_removeExpired (limit : Nat) : Keeps (fun _ => False) (removeExpired limit) := by
  intro world space ready
  refine Cmd.wp_mono (removeExpired_spec ready limit) ?_ ?_
  · rintro _ after ⟨now, keys, later, -, -, reached⟩
    exact reached.kept agree_nothing
  · rintro thrown after ⟨now, rounds, keys, later, -, -, -, failed⟩
    exact failed.kept agree_nothing

theorem keeps_evictTo (target limit : Nat) : Keeps (fun _ => False) (evictTo target limit) := by
  intro world space ready
  refine Cmd.wp_mono (evictTo_spec ready target limit) ?_ ?_
  · rintro _ after ⟨-, reached⟩
    exact reached.kept agree_nothing
  · rintro thrown after ⟨rounds, -, failed⟩
    exact failed.kept agree_nothing

/-- Code that keeps some entries, without saying which. -/
theorem Keeps.forget (keeps : Keeps fixed op) : Keeps (fun _ => False) op := by
  intro world space ready
  have forgets : forall after, Kept fixed world space after ->
      Kept (fun _ => False) world space after := by
    rintro after ⟨later, ready, -, evolves⟩
    exact ⟨later, ready, agree_nothing, evolves⟩
  exact Cmd.wp_mono (keeps world space ready) (fun _ => forgets) (fun _ => forgets)

end Database

end Reddish
