import Reddish.Database.Maintenance

namespace Reddish

open Library Numeral

/-!
# Expired keys are not there

A key whose deadline has passed may stay in memory until something removes it.
What can be seen of a keyspace at an instant leaves such keys out; requests
depend on what can be seen and on nothing else, so that it makes no difference
when expired keys are removed.
-/

namespace Spec

open Database (Form)

/-- What can be seen of a key at an instant: its entry, unless the deadline has
passed. -/
def visible (now : Int64) (space : Keyspace) (key : Bytes) : Option Entry :=
  (space.find key).filter fun entry => !expired (some now) entry

/-- Two keyspaces that look the same at an instant.  One of them may still have
expired keys that were removed from the other. -/
def LooksLike (now : Int64) (left right : Keyspace) : Prop :=
  forall key, visible now left key = visible now right key

variable {now : Int64} {key probe : Bytes} {space left right : Keyspace} {effect : Effect}

theorem LooksLike.symm (same : LooksLike now left right) : LooksLike now right left :=
  fun key => (same key).symm

theorem LooksLike.trans {middle : Keyspace} (one : LooksLike now left middle)
    (two : LooksLike now middle right) : LooksLike now left right :=
  fun key => (one key).trans (two key)

theorem result_writable : (writable (some now) key space).result = visible now space key := by
  unfold writable visible
  cases space.find key with
  | none => rfl
  | some entry =>
      cases gone : expired (some now) entry with
      | true | false => simp [Option.filter, gone]

theorem result_active : (active (some now) key space).result = visible now space key := by
  unfold active visible
  cases space.find key with
  | none => rfl
  | some entry =>
      cases gone : expired (some now) entry with
      | true | false => simp [Option.filter, gone]

/-- Looking a key up for writing removes nothing that could be seen. -/
theorem looksLike_writable : LooksLike now (writable (some now) key space).space space := by
  intro probe
  by_cases same : probe = key
  · rw [same, visible, find_writable, result_writable, visible, Option.filter_filter]
    simp only [Bool.and_self]
  · rw [visible, find_writable_other same, visible]

theorem looksLike_active : LooksLike now (active (some now) key space).space space := by
  intro probe
  unfold visible active
  cases space.find key with
  | none => rfl
  | some entry =>
      simp only
      split
      · rfl
      · rw [Keyspace.find_touch]

/-- Removing the due keys leaves what can be seen. -/
theorem Reaps.find {limit : Nat} {rest : Keyspace} {keys : List Bytes}
    (reaps : Reaps now limit space keys rest) (complete : due now rest = []) (probe : Bytes) :
    rest.find probe = visible now space probe := by
  have all : forall {kept : Keyspace}, due now kept = [] ->
    kept.find probe = visible now kept probe := by
    intro kept none
    unfold visible
    cases found : kept.find probe with
    | none => rfl
    | some entry =>
        have fresh := List.filter_eq_nil_iff.mp none entry (List.mem_of_find?_eq_some found)
        simp [Option.filter, fresh]
  induction reaps with
  | full space | done limit space later => exact all complete
  | @next limit space rest keys key entry moment found deadline passed earliest more ih =>
      rw [ih complete, visible, visible, Keyspace.find_erase]
      split
      case isTrue same =>
        have gone : expired (some now) entry = true := expired_iff.mpr ⟨moment, deadline, passed⟩
        rw [same, found]
        simp [Option.filter, gone]
      case isFalse => rfl

/-- What can be seen after an effect depends on what could be seen before. -/
theorem looksLike_apply (same : LooksLike now left right) :
    LooksLike now (effect.apply key (writable (some now) key left))
      (effect.apply key (writable (some now) key right)) := by
  intro probe
  unfold visible
  by_cases equal : probe = key
  · rw [equal, find_apply, find_apply, result_writable, result_writable, same key]
  · rw [find_apply_other equal, find_apply_other equal]
    exact same probe

/-- Keyspaces that look the same give the same results and still look the same
afterwards. -/
theorem perform_looksLike (same : LooksLike now left right) (logging : Bool) (form : Form) :
    (perform logging now left form).result = (perform logging now right form).result ∧
      LooksLike now (perform logging now left form).space
        (perform logging now right form).space := by
  cases form with
  | answers result => exact ⟨rfl, same⟩
  | reads key answer =>
      refine ⟨?_, looksLike_active.trans (same.trans looksLike_active.symm)⟩
      simp only [perform, result_active, same key]
  | writes key plan tooLarge =>
      simp only [perform, result_writable, same key]
      split
      · exact ⟨rfl, looksLike_writable.trans (same.trans looksLike_writable.symm)⟩
      · exact ⟨rfl, looksLike_apply same⟩

end Spec

namespace Database

open World (Healthy)
open Spec (LooksLike)

variable {world other : World} {space : Keyspace} {call : Call} {key : Bytes} {now : Int64}

/-- The calls on a key are the ones with a form. -/
theorem Call.formed (named : call.key = some key) (moment : Moment) :
    exists form, call.form moment = some form := by
  cases call <;> first | exact ⟨_, rfl⟩ | cases named

/-- An exception after the lookup means that nothing else has been done. -/
def Form.Careful : Form -> Prop
  | .writes _ plan _ => forall found thrown, (plan found).result = .error thrown ->
      (plan found).effect = .keep
  | _ => True

theorem Form.careful_writing {α : Type} (wrap : α -> Answer) (key : Bytes)
    (plan : Option Entry -> Spec.Plan α) (tooLarge : Bool) :
    (Form.writing wrap key plan tooLarge).Careful := by
  unfold Form.writing
  split
  · exact trivial
  · intro found thrown impossible
    cases impossible

theorem Call.careful {moment : Moment} {form : Form} (formed : call.form moment = some form) :
    form.Careful := by
  cases call <;> first
    | cases formed
      done
    | cases Option.some.inj formed
      first | exact trivial | exact Form.careful_writing _ _ _ _ | skip
  case set key val =>
    split
    · exact trivial
    · exact Form.careful_writing _ _ _ _
  case hashSetTexts key fields =>
    split
    · exact trivial
    · exact Form.careful_writing _ _ _ _
  case expire key seconds =>
    split
    · exact trivial
    · intro found thrown failed
      unfold Form.expiring at failed ⊢
      split
      · rfl
      case isFalse fine =>
        rw [if_neg fine] at failed
        cases failed

/-- What a request leaves behind looks like what its form leaves behind. -/
theorem Performs.looksLike {op : Op Answer} {logging : Bool} {form : Form}
    (performs : Performs op world space (Spec.perform logging now space form))
    (careful : form.Careful) :
    exists later, Ready (op world).2 later ∧
      (op world).1 = (Spec.perform logging now space form).result ∧
      LooksLike now later (Spec.perform logging now space form).space := by
  rcases performs with ⟨after, later, records, ran, -, reached, same⟩
  rw [ran]
  refine ⟨later, reached.ready, rfl, ?_⟩
  rcases same with ⟨rfl, -⟩ | ⟨⟨thrown, failed⟩, rfl, -⟩
  · exact fun _ => rfl
  cases form with
  | answers result => exact fun _ => rfl
  | reads key answer => exact Spec.looksLike_active.symm
  | writes key plan tooLarge =>
      simp only [Spec.perform] at failed ⊢
      split at failed
      case isTrue refused =>
        rw [if_pos refused]
        exact Spec.looksLike_writable.symm
      case isFalse accepted =>
        rw [if_neg accepted, Spec.Plan.outcome, careful _ thrown failed]
        exact Spec.looksLike_writable.symm

/-- What can be seen of a key in a state.  A node that has expired is not seen,
even while it is in memory. -/
def seen (now : Int64) (world : World) (key : Bytes) : Option Entry :=
  (world.db.lookup key).filter fun entry => !Spec.expired (some now) entry

/-- Requests see no difference between a database with expired keys and one
from which they have been removed. -/
theorem lazy_expiry (reachable : Reachable world) (healthy : Healthy world)
    (still : forall n, world.steady.reading n = now) (settled : Idle other)
    (live : other.db.replaying = false) (healthyOther : Healthy other)
    (stillOther : forall n, other.steady.reading n = now)
    (wall : forall n, other.wall.reading n = world.wall.reading n)
    (logging : other.logging = world.logging)
    (removed : forall probe, other.db.lookup probe = seen now world probe)
    (named : call.key = some key) :
    (call.run world).1 = (call.run other).1 ∧
      forall probe, seen now (call.run world).2 probe = seen now (call.run other).2 probe := by
  rcases reachable.idle with ⟨space, ready⟩
  rcases settled with ⟨rest, readyOther⟩
  have same : LooksLike now space rest := by
    intro probe
    rw [Spec.visible, Spec.visible, readyOther.rep.find_eq, ready.rep.find_eq, removed probe, seen,
      Option.filter_filter]
    simp only [Bool.and_self]
  have stands : At world ⟨now, world.wall.reading 0, world.wall.reading 1⟩ := ⟨still, rfl, rfl⟩
  have standsOther : At other ⟨now, world.wall.reading 0, world.wall.reading 1⟩ :=
    ⟨stillOther, wall 0, wall 1⟩
  rcases Call.formed named ⟨now, world.wall.reading 0, world.wall.reading 1⟩ with ⟨form, formed⟩
  rcases (Call.performs formed ready healthy reachable.live stands).looksLike
    (Call.careful formed) with ⟨later, readyLater, result, looks⟩
  rcases (Call.performs formed readyOther healthyOther live standsOther).looksLike
    (Call.careful formed) with ⟨last, readyLast, resultOther, looksOther⟩
  rw [logging] at resultOther looksOther
  have both := Spec.perform_looksLike same world.logging form
  refine ⟨?_, ?_⟩
  · rw [result, resultOther]
    exact both.1
  · intro probe
    rw [seen, seen, <- readyLater.rep.find_eq, <- readyLast.rep.find_eq]
    exact looks.trans (both.2.trans looksOther.symm) probe

/-- `remove_expired` with a limit that is large enough leaves what can be seen. -/
theorem lookup_removeExpired {limit : Nat} {after : World} (reachable : Reachable world)
    (still : forall n, world.steady.reading n = now)
    (enough : (Spec.due now world.db.entries).length ≤ limit)
    (ran : removeExpired limit world = (.ok (), after)) (probe : Bytes) :
    after.db.lookup probe = seen now world probe := by
  rcases reachable.idle with ⟨space, ready⟩
  rcases Cmd.of_wp_ok (removeExpired_spec ready limit) ran with
    ⟨instant, keys, later, ⟨n, rfl⟩, reaps, reached⟩
  rw [still] at reaps
  rw [ready.rep.entries] at enough
  rw [seen, <- ready.rep.find_eq, <- reached.rep.find_eq]
  exact reaps.find ((reaps.removesDue ready.rep.distinct).complete enough) probe

theorem healthy_calm : Healthy calm :=
  ⟨fun _ impossible => Option.some_ne_none _ impossible, nofun⟩

theorem healthy_timed : Healthy timed := by
  rcases reachable_timed.idle with ⟨space, ready⟩
  have begun : Healthy timedStart := ⟨fun _ => Option.some_ne_none _, nofun⟩
  exact begun.evolves evolves_timed ready.sound

/-- A key whose deadline has passed, in a database where it is still in memory and
in the same one after `remove_expired`. -/
theorem lazy_expiry_timed :
    (timed.db.findNode [98] = some 1 ∧ timed.db.deadline 1 = some 1000) ∧
      reaped.db.findNode [98] = none ∧
      ((Call.increment [98]).run timed).1 = .ok (.number (.ok 1)) ∧
      ((Call.increment [98]).run timed).1 = ((Call.increment [98]).run reaped).1 ∧
      forall probe, seen 5000 ((Call.increment [98]).run timed).2 probe =
        seen 5000 ((Call.increment [98]).run reaped).2 probe := by
  have returned : (removeExpired 9 timed).1 = .ok () := by decide +kernel
  have ran : removeExpired 9 timed = (.ok (), reaped) := Prod.ext returned rfl
  have reachable : Reachable reaped := reachable_timed.call (.removeExpired 9) ran
  rcases reachable_timed.idle with ⟨space, ready⟩
  rcases Cmd.of_wp_ok (keeps_removeExpired 9 timed space ready) ran with ⟨later, done, -, evolves⟩
  have few : (Spec.due 5000 timed.db.entries).length ≤ 9 := by decide +kernel
  have same := lazy_expiry reachable_timed healthy_timed steady_timed reachable.idle reachable.live
    (healthy_timed.evolves evolves done.sound) ?_ ?_ (by decide +kernel)
    (lookup_removeExpired reachable_timed steady_timed few ran)
    (show (Call.increment [98]).key = some [98] from rfl)
  · exact ⟨⟨by decide +kernel, by decide +kernel⟩, by decide +kernel, by decide +kernel, same⟩
  · intro n
    rcases evolves.steady with ⟨skipped, shift⟩
    rw [shift, steady_timed]
  · intro n
    rcases evolves_timed.wall with ⟨before, begun⟩
    rcases evolves.wall with ⟨skipped, shift⟩
    rw [shift, begun, begun]
    rfl

end Database

end Reddish
