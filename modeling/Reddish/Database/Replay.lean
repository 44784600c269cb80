import Reddish.Database.Requests

namespace Reddish

open Library Numeral

/-!
# Records applied to a keyspace

What `replay` is meant to do, stated on the logical keyspace: most records
follow the plan of the operation that logged them, at a time at which no key
has expired.  A record that cannot be applied has no meaning.  The deadline
that stands for a stamp of the wall clock is left open; it depends on when the
record is replayed.
-/

namespace Spec

variable {α : Type}

/-- The value that two arguments of a record stand for. -/
def replayValue (kind text : Bytes) : Option Value :=
  if kind = ascii "i" then (parseInt64 text).map Value.integer
  else if kind ≠ ascii "s" then none
  else some (.text text)

/-- Follow the plan of an operation that has to succeed. -/
def replayPlan (key : Bytes) (plan : Option Entry -> Plan (Except ErrorCode α)) (space : Keyspace) :
    Option Keyspace :=
  match (plan (writable none key space).result).result with
  | .ok _ =>
    some ((plan (writable none key space).result).outcome key (writable none key space)).space
  | .error _ => none

/-- Follow the plan of an operation that always succeeds. -/
def replayAlways (key : Bytes) (plan : Option Entry -> Plan α) (space : Keyspace) : Keyspace :=
  ((plan (writable none key space).result).outcome key (writable none key space)).space

/-- Set the deadline that a stamp stands for. -/
def replayExpireAt (restamp : Int64 -> Int64) (key stamp : Bytes) (space : Keyspace) :
    Option Keyspace :=
  match space.find key, parseInt64 stamp with
  | some _, some wall =>
      if wall < 0 then none else some (space.setDeadline key (some (restamp wall)))
  | _, _ => none

def applyRecord (restamp : Int64 -> Int64) (op : Option WalOp) (arg : Nat -> Bytes)
    (space : Keyspace) : Option Keyspace :=
  match op with
  | some .set =>
      if Database.maxValueLength < (arg 1).length then none
      else some (replayAlways (arg 0) (planSet (arg 0) (arg 1)) space)
  | some .integerSet =>
      (parseInt64 (arg 1)).map fun n => space.put ⟨arg 0, .integer n, none⟩
  | some .increment => replayPlan (arg 0) (planIncrement (arg 0)) space
  | some .pushLeft =>
      (replayValue (arg 1) (arg 2)).bind fun value =>
        replayPlan (arg 0) (planPush (arg 0) value true) space
  | some .pushRight =>
      (replayValue (arg 1) (arg 2)).bind fun value =>
        replayPlan (arg 0) (planPush (arg 0) value false) space
  | some .popLeft => replayPlan (arg 0) (planPop (arg 0) true) space
  | some .popRight => replayPlan (arg 0) (planPop (arg 0) false) space
  | some .hashSet =>
      (replayValue (arg 2) (arg 3)).bind fun value =>
        replayPlan (arg 0) (planHashAssign (arg 0) (arg 1) value) space
  | some .hashDel => replayPlan (arg 0) (planHashDel (arg 0) (arg 1)) space
  | some .expireAt => replayExpireAt restamp (arg 0) (arg 1) space
  | some .del => some (replayAlways (arg 0) (planDel (arg 0)) space)
  | none => none

def replay (restamp : Int64 -> Int64) (record : Wal.Record) (space : Keyspace) : Option Keyspace :=
  if record.args.length = WalOp.expected (WalOp.ofCode record.op) ∧ record.args ≠ [] ∧
      (record.args.getD 0 []).length ≤ Node.maxKeyLength then
    applyRecord restamp (WalOp.ofCode record.op) (fun i => record.args.getD i []) space
  else none

end Spec

namespace Database

variable {α : Type} {origin world after : World} {space later : Keyspace} {key : Bytes}
variable {spec : Option Int64 -> Keyspace -> Spec.Outcome α} {oversize : Prop}

/-- The deadline of a stamp when a record is replayed.  A stamp is a time of the
wall clock; what is left until then is put on the steady clock. -/
def restamp (world : World) (wall : Int64) : Int64 :=
  world.steady.reading 0 + if wall > world.wall.reading 0 then wall - world.wall.reading 0 else 0

/-- The state after a record, which may only have used the environment up. -/
structure Applied (origin after : World) (later : Keyspace) : Prop where
  ready : Ready after later
  evolves : World.Evolves origin after

/-- During a replay nothing is logged, and no key has expired. -/
theorem time_of_replaying (replaying : world.db.replaying = true) (now : Int64) :
    world.time now = none := by
  rw [World.time, replaying, if_pos rfl]

theorem logging_of_replaying (replaying : world.db.replaying = true) : world.logging = false := by
  rw [World.logging, replaying]
  simp

theorem scarce_of_thrown {records : List Wal.Record} {thrown : Exn}
    (failed : Thrown world after [] space records False thrown)
    (replaying : world.db.replaying = true) : ¬ world.Plentiful := by
  intro plentiful
  rcases failed.cause with logging | ⟨n, fails⟩ | never
  · rw [logging_of_replaying replaying] at logging
    cases logging
  · exact plentiful n fails
  · exact never

/-- Code that returns a keyspace, or throws when there is none. -/
def Replays (op : Op Unit) (world : World) (result : Option Keyspace) : Prop :=
  op.wp (fun _ after => exists later, result = some later ∧ Applied world after later)
    (fun _ _ => world.Plentiful -> result = none) world

/-- An operation that is replayed follows its plan. -/
theorem Implements.replaying {op : Op α} {plan : Option Entry -> Spec.Plan α}
    (implements : Implements op key oversize spec) (follows : Spec.Follows key spec plan)
    (small : ¬ oversize) (ready : Ready world space) (replaying : world.db.replaying = true) :
    op.wp
      (fun result after => result = (plan (Spec.writable none key space).result).result ∧
        Applied world after (Spec.replayAlways key plan space))
      (fun _ _ => ¬ world.Plentiful) world := by
  refine Cmd.wp_mono (implements world space ready) ?_ ?_
  · rintro result after ⟨now, -, rfl, reached⟩
    rw [follows, time_of_replaying replaying] at reached ⊢
    exact ⟨rfl, reached.ready, reached.evolves⟩
  · intro thrown after aborted plentiful
    exact small (aborted.tooLarge plentiful (logging_of_replaying replaying))

theorem replays_succeed {op : Op (Except ErrorCode α)}
    {spec : Option Int64 -> Keyspace -> Spec.Outcome (Except ErrorCode α)}
    {plan : Option Entry -> Spec.Plan (Except ErrorCode α)}
    (implements : Implements op key oversize spec) (follows : Spec.Follows key spec plan)
    (small : ¬ oversize) (ready : Ready world space) (replaying : world.db.replaying = true) :
    Replays (succeed op) world (Spec.replayPlan key plan space) := by
  unfold Replays succeed
  refine Cmd.wp_step (implements.replaying follows small ready replaying) ?_
    (fun _ _ scarce plentiful => absurd plentiful scarce)
  rintro result after ⟨rfl, applied⟩
  unfold Spec.replayPlan
  cases (plan (Spec.writable none key space).result).result with
  | ok value => exact ⟨_, rfl, applied⟩
  | error code => exact fun _ => rfl

theorem replays_always {op : Op α} {plan : Option Entry -> Spec.Plan α}
    (implements : Implements op key oversize spec) (follows : Spec.Follows key spec plan)
    (small : ¬ oversize) (ready : Ready world space) (replaying : world.db.replaying = true) :
    Replays (discard op) world (some (Spec.replayAlways key plan space)) := by
  unfold Replays discard
  refine Cmd.wp_step (implements.replaying follows small ready replaying) ?_
    (fun _ _ scarce plentiful => absurd plentiful scarce)
  rintro result after ⟨-, applied⟩
  exact ⟨_, rfl, applied⟩

/-- Memory is the first thing that is needed. -/
theorem replays_allocate {rest : (Nat -> UInt8) -> Op Unit} {result : Option Keyspace}
    (ready : Ready world space)
    (next : forall garbage later, Ready later space -> later.db = world.db ->
      restamp later = restamp world -> Replays (rest garbage) later result) :
    Replays (allocate >>= rest) world result := by
  unfold Replays
  rw [Cmd.wp_bind]
  have enough : allocate.wp (fun _ after => restamp after = restamp world)
      (fun _ _ => ¬ world.Plentiful) world :=
    wp_allocate (fun fails plentiful => plentiful 0 fails) (fun _ _ => rfl)
  refine Cmd.wp_mono (Cmd.wp_and (@allocate_spec _ _ _ _ _ False ready.reached) enough) ?_ ?_
  · rintro garbage middle ⟨⟨reached, same, -⟩, clocks⟩
    refine Cmd.wp_mono (next garbage middle reached.ready same clocks) ?_ ?_
    · rintro _ after ⟨later, equal, applied⟩
      exact ⟨later, equal, applied.ready, reached.evolves.trans applied.evolves⟩
    · exact fun _ after fails plentiful => fails (reached.evolves.plentiful plentiful)
  · rintro thrown after ⟨-, scarce⟩ plentiful
    exact absurd plentiful scarce

/-- The value is read before the operation starts. -/
theorem replays_value {kind text : Bytes} {rest : Value -> Op Unit}
    {result : Value -> Option Keyspace} (ready : Ready world space)
    (next : forall value later, Ready later space -> later.db = world.db ->
      Replays (rest value) later (result value)) :
    Replays (replayValue kind text >>= rest) world
      ((Spec.replayValue kind text).bind result) := by
  by_cases integer : kind = ascii "i"
  · simp only [replayValue, replayInteger, Spec.replayValue, if_pos integer]
    unfold Replays
    rw [Cmd.wp_bind, Cmd.wp_bind]
    cases parseInt64 text with
    | none => exact fun _ => rfl
    | some n => exact next (.integer n) world ready rfl
  · by_cases unknown : kind ≠ ascii "s"
    · simp only [replayValue, Spec.replayValue, if_neg integer, if_pos unknown]
      exact fun _ => rfl
    · simp only [replayValue, Spec.replayValue, if_neg integer, if_neg unknown]
      have copied : Replays (allocate >>= fun _ => rest (.text text)) world (result (.text text)) :=
        replays_allocate ready fun _ later ready same _ => next (.text text) later ready same
      unfold Replays at copied ⊢
      rw [Cmd.wp_bind] at copied
      rw [Cmd.wp_bind, Cmd.wp_bind]
      exact copied

theorem replays_expireAt {stamp : Bytes} (ready : Ready world space)
    (replaying : world.db.replaying = true) :
    Replays (replayExpireAt key stamp) world
      (Spec.replayExpireAt (restamp world) key stamp space) := by
  unfold Replays replayExpireAt Spec.replayExpireAt
  rw [Cmd.wp_bind, Cmd.wp_read]
  cases found : world.db.findNode key with
  | none =>
      rw [ready.rep.find_none found]
      exact fun _ => rfl
  | some addr =>
      rw [ready.rep.find_some found]
      cases parseInt64 stamp with
      | none => exact fun _ => rfl
      | some wall =>
          simp only [replayExpiry, Cmd.wp_bind]
          have steady : currentUnixMs.wp (fun _ after => after.steady = world.steady)
              (fun _ _ => False) world := rfl
          refine Cmd.wp_mono (Cmd.wp_and (currentUnixMs_spec ready.reached) steady) ?_
            (fun _ _ never => never.2.elim)
          rintro current clocked ⟨⟨rfl, reached, same, -⟩, steady⟩
          refine Cmd.wp_ite (fun negative _ => if_pos negative) ?_
          intro positive
          rw [Cmd.wp_bind, if_neg positive]
          refine Cmd.wp_mono (nowMs_spec reached) ?_ (fun _ _ never => never.elim)
          rintro now dated ⟨-, rfl, reached, sameDated, -⟩
          have there : dated.db.findNode key = some addr := by
            rw [sameDated, same]
            exact found
          refine Cmd.wp_mono (@scheduleExpiry_spec _ _ _ _ _ False _ _ _ reached there) ?_ ?_
          · rintro _ after ⟨reached, -, -⟩
            refine ⟨_, rfl, ?_, reached.evolves⟩
            rw [steady] at reached
            exact reached.ready
          · rintro thrown after ⟨failed, -⟩ plentiful
            exact absurd plentiful (scarce_of_thrown failed replaying)

theorem replays_integerSet {n : Int64} (ready : Ready world space)
    (replaying : world.db.replaying = true) (short : key.length ≤ Node.maxKeyLength) :
    Replays (eraseFound key >>= fun _ => insertInteger key n) world
      (some (space.put ⟨key, .integer n, none⟩)) := by
  refine Cmd.wp_mono (@replaceInteger_spec _ _ _ _ False _ ready.reached short n) ?_ ?_
  · intro _ after reached
    exact ⟨_, rfl, reached.ready, reached.evolves⟩
  · rintro thrown after (failed | failed) plentiful
    · exact absurd plentiful (scarce_of_thrown failed replaying)
    · exact absurd plentiful (scarce_of_thrown failed replaying)

/-- The switch of `replay` does what the record means. -/
theorem replays_applyRecord (op : Option WalOp) (arg : Nat -> Bytes) (ready : Ready world space)
    (replaying : world.db.replaying = true) (short : (arg 0).length ≤ Node.maxKeyLength) :
    Replays (applyRecord op arg) world (Spec.applyRecord (restamp world) op arg space) := by
  have small : ¬ Node.maxKeyLength < (arg 0).length := Nat.not_lt.mpr short
  cases op with
  | none => exact fun _ => rfl
  | some op =>
      cases op with
      | set =>
          unfold applyRecord Spec.applyRecord
          by_cases long : maxValueLength < (arg 1).length
          · simp only [if_pos long, set]
            exact fun _ => rfl
          · simp only [if_neg long]
            refine Cmd.wp_mono ((set_spec (arg 0) (arg 1)).replaying (Spec.follows_set (arg 1))
              (not_or.mpr ⟨small, long⟩) ready replaying) ?_
              (fun _ _ scarce plentiful => absurd plentiful scarce)
            rintro _ after ⟨-, applied⟩
            exact ⟨_, rfl, applied⟩
      | increment =>
          exact replays_succeed (increment_spec _) Spec.follows_increment small ready replaying
      | pushLeft =>
          refine replays_value ready fun value later ready same => ?_
          exact replays_succeed (listPush_spec _ value true) (Spec.follows_listPush value true) small
            ready (by rw [same]; exact replaying)
      | pushRight =>
          refine replays_value ready fun value later ready same => ?_
          exact replays_succeed (listPush_spec _ value false) (Spec.follows_listPush value false)
            small ready (by rw [same]; exact replaying)
      | popLeft =>
          exact replays_succeed (listPop_spec _ true) (Spec.follows_listPop true) small ready
            replaying
      | popRight =>
          exact replays_succeed (listPop_spec _ false) (Spec.follows_listPop false) small ready
            replaying
      | hashSet =>
          refine replays_value ready fun value later ready same => ?_
          exact replays_succeed (hashAssign_spec _ _ value) (Spec.follows_hashAssign _ value) small
            ready (by rw [same]; exact replaying)
      | hashDel =>
          exact replays_succeed (hashDel_spec _ _) (Spec.follows_hashDel _) small ready replaying
      | del => exact replays_always (del_spec _) Spec.follows_del small ready replaying
      | expireAt => exact replays_expireAt ready replaying
      | integerSet =>
          unfold applyRecord Spec.applyRecord replayInteger
          simp only
          cases parseInt64 (arg 1) with
          | none => exact fun _ => rfl
          | some n => exact replays_integerSet ready replaying short

theorem replays_replay (record : Wal.Record) (ready : Ready world space)
    (replaying : world.db.replaying = true) :
    Replays (replay record) world (Spec.replay (restamp world) record space) := by
  unfold Replays replay Spec.replay
  rw [Cmd.wp_bind]
  refine Cmd.wp_require ?_ ?_
  · intro wellFormed
    rw [if_pos wellFormed]
    exact replays_applyRecord _ _ ready replaying wellFormed.2.2
  · intro malformed _
    exact if_neg malformed

theorem replays_replayFrame (record : Wal.Record) (ready : Ready world space)
    (replaying : world.db.replaying = true) :
    Replays (replayFrame record) world (Spec.replay (restamp world) record space) := by
  refine replays_allocate ready fun _ later ready same clocks => ?_
  rw [<- clocks]
  exact replays_replay record ready (by rw [same]; exact replaying)

end Database

end Reddish
