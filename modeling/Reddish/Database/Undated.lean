import Reddish.Database.Healthy
import Reddish.Database.Replay

namespace Reddish
namespace Database

open Library Numeral
open Cmd (onlyIf)

/-!
# Replaying without a clock

While a log is replayed, deadlines do not matter and nothing is logged, so that
an operation has no reason to look at a clock.  Only the record of a deadline
does: it needs one reading of each clock to carry its stamp over.  How many
readings a replay takes is therefore decided by the records alone.
-/

variable {α β ι : Type} {op : Op α} {rest : α -> Op β} {world : World} {key : Bytes} {addr : Addr}

/-- What code leaves of the environment of a replay. -/
structure Spent (world after : World) : Prop where
  replaying : after.db.replaying = true
  detached : world.wal = none -> after.wal = none
  memory : world.Plentiful -> after.Plentiful

/-- A later state of a replay in which no clock was read. -/
structure Undated (world after : World) : Prop extends Spent world after where
  steady : after.steady = world.steady
  wall : after.wall = world.wall

/-- Code that reads no clock during a replay, however it ends. -/
def Timeless (op : Op α) : Prop :=
  forall world, world.db.replaying = true -> Undated world (op world).2

theorem Spent.trans {first second third : World} (left : Spent first second)
    (right : Spent second third) : Spent first third where
  replaying := right.replaying
  detached := fun detached => right.detached (left.detached detached)
  memory := fun memory => right.memory (left.memory memory)

theorem Undated.refl (replaying : world.db.replaying = true) : Undated world world where
  steady := rfl
  wall := rfl
  replaying := replaying
  detached := id
  memory := id

theorem Undated.trans {first second third : World} (left : Undated first second)
    (right : Undated second third) : Undated first third where
  toSpent := left.toSpent.trans right.toSpent
  steady := right.steady.trans left.steady
  wall := right.wall.trans left.wall

/-! ## Building blocks -/

theorem timeless_allocate : Timeless allocate := by
  intro world replaying
  have spent : Undated world { world with allocations := fun n => world.allocations (n + 1) } :=
    { Undated.refl replaying with memory := fun memory n => memory (n + 1) }
  unfold allocate
  cases world.allocations 0 with
  | none => exact spent
  | some garbage => exact spent

theorem Timeless.bind (first : Timeless op) (second : forall value, Timeless (rest value)) :
    Timeless (op >>= rest) := by
  intro world replaying
  have begun := first world replaying
  change Undated world (Cmd.bind op rest world).2
  unfold Cmd.bind
  rcases ran : op world with ⟨thrown | value, middle⟩
  · rw [ran] at begun
    exact begun
  · rw [ran] at begun
    exact begun.trans (second value middle begun.replaying)

theorem Timeless.handle {handler : Exn -> Op α} (body : Timeless op)
    (handled : forall thrown, Timeless (handler thrown)) : Timeless (op.handle handler) := by
  intro world replaying
  have begun := body world replaying
  unfold Cmd.handle
  rcases ran : op world with ⟨thrown | value, middle⟩
  · rw [ran] at begun
    exact begun.trans (handled thrown middle begun.replaying)
  · rw [ran] at begun
    exact begun

theorem timeless_log (kind : WalOp) (args : List Bytes) : Timeless (log kind args) := by
  intro world replaying
  have off : ¬ world.db.replaying = false := by
    rw [replaying]
    exact nofun
  change Undated world (onlyIf (world.db.replaying = false) _ world).2
  rw [onlyIf, if_neg off]
  exact Undated.refl replaying

theorem timeless_mustDrop : Timeless (mustDrop addr) := by
  intro world replaying
  change Undated world ((if world.db.replaying = true then pure false else _ : Op Bool) world).2
  rw [if_pos replaying]
  exact Undated.refl replaying

/-- What an operation does during a replay needs no clock. -/
theorem Routine.timeless {refusal : Prop} (routine : Routine refusal op) : Timeless op := by
  induction routine with
  | pure | raise => exact fun _ replaying => Undated.refl replaying
  | modifyDb settings =>
      exact fun world replaying =>
        { Undated.refl replaying with replaying := (settings world.db).trans replaying }
  | nextOrder => exact fun _ replaying => { Undated.refl replaying with }
  | allocate => exact timeless_allocate
  | mustDrop => exact timeless_mustDrop
  | log => exact timeless_log _ _
  | read _ _ each => exact fun world replaying => each world world replaying
  | bind _ _ first second => exact first.bind second
  | handle _ _ _ body handled => exact body.handle handled

/-! ## The readings of a replay -/

variable {refusal : Prop}

theorem routine_replayInteger {text : Bytes} : Routine refusal (replayInteger text) := by
  unfold replayInteger
  split
  · exact .pure _
  · exact .raise _

theorem routine_replayValue {kind text : Bytes} : Routine refusal (replayValue kind text) := by
  refine routine_ite (fun _ => .bind routine_replayInteger fun _ => .pure _) fun _ => ?_
  exact routine_ite (fun _ => .raise _) fun _ => .bind .allocate fun _ => .pure _

theorem Routine.succeed {op : Op (Except ErrorCode α)} (routine : Routine refusal op) :
    Routine refusal (succeed op) := by
  refine routine.bind fun outcome => ?_
  cases outcome with
  | error code => exact .raise _
  | ok value => exact .pure _

theorem routine_replaceInteger {n : Int64} :
    Routine refusal (eraseFound key >>= fun _ => insertInteger key n) := by
  refine .bind (.read (fun _ => rfl) fun world => ?_) fun _ => .bind ?_ fun _ =>
    .modifyDb fun _ => rfl
  · split
    · exact .pure _
    · exact .modifyDb fun _ => Db.settings_eraseNode.1
  · exact .bind routine_maybeRehash fun _ => .bind routine_createNode fun _ =>
      .bind (.modifyDb fun _ => rfl) fun _ => .pure _

/-- A record without a deadline is replayed by steps that need no clock. -/
theorem routine_applyRecord {op : Option WalOp} {arg : Nat -> Bytes} (plain : op ≠ some .expireAt) :
    Routine True (applyRecord op arg) := by
  have free : forall {kind : WalOp} {args : List Bytes},
      ¬ Wal.Accepted (Spec.record kind args) -> True := fun _ => trivial
  cases op with
  | none => exact .raise _
  | some op =>
      cases op with
      | set => exact routine_set fun _ => free
      | increment => exact (routine_increment free).succeed
      | pushLeft | pushRight =>
          exact .bind routine_replayValue fun _ => (routine_listPush fun _ => free).succeed
      | popLeft | popRight => exact (routine_listPop free).succeed
      | hashSet => exact .bind routine_replayValue fun _ => (routine_hashAssign free).succeed
      | hashDel => exact (routine_hashDel free).succeed
      | expireAt => exact absurd rfl plain
      | del => exact .bind (routine_del free) fun _ => .pure _
      | integerSet => exact .bind routine_replayInteger fun _ => routine_replaceInteger

def clocksAfter (record : Wal.Record) (world : World) : Clock × Clock :=
  if WalOp.ofCode record.op = some .expireAt then (world.steady.later, world.wall.later)
  else (world.steady, world.wall)

theorem replayExpireAt_clocks {stamp : Bytes} (replaying : world.db.replaying = true) :
    (replayExpireAt key stamp).wp
      (fun _ after => Spent world after ∧
        (after.steady, after.wall) = (world.steady.later, world.wall.later))
      (fun _ after => Spent world after) world := by
  have kept : Spent world world := (Undated.refl replaying).toSpent
  unfold replayExpireAt
  rw [Cmd.wp_bind, Cmd.wp_read]
  cases world.db.findNode key with
  | none => exact kept
  | some addr =>
      cases parseInt64 stamp with
      | none => exact kept
      | some wall =>
          change (if wall < 0 then unreadable else _ : Op Unit).wp _ _
            { world with wall := world.wall.later }
          refine Cmd.wp_ite (fun _ => ⟨replaying, kept.detached, kept.memory⟩) fun _ => ?_
          let dated : World := { world with steady := world.steady.later, wall := world.wall.later }
          change (scheduleExpiry addr _).wp _ _ dated
          have undated := fun deadline =>
            (@routine_scheduleExpiry True addr deadline).timeless dated replaying
          refine Cmd.wp_mono ((Cmd.wp_state (fun after => Undated dated after)).mpr (undated _)) ?_ ?_
          · intro _ after undated
            refine ⟨⟨undated.replaying, undated.detached, undated.memory⟩, ?_⟩
            rw [undated.steady, undated.wall]
          · exact fun _ after undated => ⟨undated.replaying, undated.detached, undated.memory⟩

/-- The clocks after a record that could be replayed. -/
theorem replayFrame_clocks (record : Wal.Record) (replaying : world.db.replaying = true) :
    (replayFrame record).wp
      (fun _ after => Spent world after ∧ (after.steady, after.wall) = clocksAfter record world)
      (fun _ after => Spent world after) world := by
  unfold clocksAfter
  by_cases dated : WalOp.ofCode record.op = some .expireAt
  · rw [if_pos dated]
    unfold replayFrame replay
    have allocated := timeless_allocate world replaying
    refine Cmd.wp_step ((Cmd.wp_state (fun after => Undated world after)).mpr allocated) ?_
      (fun _ _ undated => undated.toSpent)
    intro _ middle undated
    rw [Cmd.wp_bind]
    refine Cmd.wp_require (fun _ => ?_) (fun _ => undated.toSpent)
    rw [dated]
    refine Cmd.wp_mono (replayExpireAt_clocks undated.replaying) ?_ ?_
    · rintro _ after ⟨spent, clocks⟩
      rw [undated.steady, undated.wall] at clocks
      exact ⟨undated.toSpent.trans spent, clocks⟩
    · exact fun _ after spent => undated.toSpent.trans spent
  · rw [if_neg dated]
    have timeless : Timeless (replayFrame record) :=
      timeless_allocate.bind fun _ => Routine.timeless
        (.bind (routine_ite (fun _ => .pure _) fun _ => .raise _) fun _ => routine_applyRecord dated)
    refine Cmd.wp_mono ((Cmd.wp_state (fun after => Undated world after)).mpr
      (timeless world replaying)) ?_ (fun _ _ undated => undated.toSpent)
    intro _ after undated
    exact ⟨undated.toSpent, by rw [undated.steady, undated.wall]⟩

end Database

end Reddish
