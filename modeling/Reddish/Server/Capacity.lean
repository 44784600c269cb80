import Reddish.Server.Threads

namespace Reddish

open Library Numeral

/-!
# The limit on keys

A batch may add keys beyond the limit; `execute_batch` then waits for the
maintenance thread.  Between the return of a batch and the next one only keys
are removed, so that the limit holds all that time, and a round of the eviction
loop counts the keys before it takes one.
-/

namespace Database

variable {world : World} {space : Keyspace}

theorem Ready.overCapacity (ready : Ready world space) :
    world.db.overCapacity = decide (world.db.maxKeys < world.db.keyTotal) := by
  rcases ready.rep with ⟨order, consistent, -, -, -⟩
  rw [Db.overCapacity, consistent.keyHint]

theorem onWal_db (body : Cmd Exn Wal Unit) (world : World) : (onWal body world).2.db = world.db := by
  unfold onWal
  cases world.wal with
  | none => rfl
  | some wal => rfl

theorem reapRound_fewer (ready : Ready world space) (now : Int64) :
    (reapRound now world).2.db.keyTotal ≤ world.db.keyTotal := by
  rcases reapRound_spec ready now with ⟨later, done, sub, -⟩
  rw [done.rep.length, ready.rep.length]
  exact sub.length_le

theorem evictRound_fewer (ready : Ready world space) (target : Nat) :
    (evictRound target world).2.db.keyTotal ≤ world.db.keyTotal := by
  have spec : (evictRound target).wp (fun _ after => after.db.keyTotal ≤ world.db.keyTotal)
      (fun _ after => after.db.keyTotal ≤ world.db.keyTotal) world := by
    refine Cmd.wp_mono (evictRound_spec ready target) ?_ ?_
    · rintro victim after ⟨-, ⟨-, done⟩ | ⟨addr, -, -, -, done⟩⟩
      · rw [done.rep.length, ready.rep.length]
      · rw [done.rep.length, ready.rep.length, List.length_dropLast]
        exact Nat.sub_le _ _
    · rintro thrown after ⟨done, -⟩
      rw [done.rep.length, ready.rep.length]
  exact (Cmd.wp_state fun after : World => after.db.keyTotal ≤ world.db.keyTotal).mp spec

end Database

namespace Server

open Database (Advanced Idle Ready)

variable {machine later : Machine} {observed : Observation} {world : World} {space : Keyspace}

/-- The limit after a batch has returned. -/
def Bounded (machine : Machine) : Prop :=
  machine.loop = .returned -> machine.world.db.keyTotal ≤ machine.world.db.maxKeys

/-- The other threads add no key. -/
theorem Bounded.fewer (bounded : Bounded machine) (advanced : Advanced machine.world later.world)
    (loop : later.loop = machine.loop)
    (fewer : later.world.db.keyTotal ≤ machine.world.db.keyTotal) : Bounded later := by
  intro returned
  rw [advanced.evolves.maxKeys]
  exact Nat.le_trans fewer (bounded (loop.symm.trans returned))

theorem bounded_answer {client : ClientId} {replies : List Answer} (ready : Ready machine.world space)
    (capacity : machine.world.db.overCapacity = false) : Bounded (machine.answer client replies) := by
  intro _
  rw [ready.overCapacity] at capacity
  exact Nat.not_lt.mp (of_decide_eq_false capacity)

theorem bounded_of_loop {loop : LoopPhase} (elsewhere : loop ≠ .returned)
    (same : later.loop = loop) : Bounded later :=
  fun returned => absurd (same.symm.trans returned) elsewhere

theorem keyTotal_onWal {body : Cmd Exn Wal Unit} {before after : World} {outcome : Except Exn Unit}
    (ran : Database.onWal body before = (outcome, after)) :
      after.db.keyTotal = before.db.keyTotal := by
  have kept := Database.onWal_db body before
  rw [ran] at kept
  rw [kept]

/-- A round of maintenance and the end of its batch add no key. -/
theorem keyTotal_round {α : Type} {round : Op α} {before idle after : World}
    {outcome : Except Exn α} {ended : Except Exn Unit}
    (fewer : (round before).2.db.keyTotal ≤ before.db.keyTotal)
    (ran : round before = (outcome, idle)) (ends : Database.endWalBatch idle = (ended, after)) :
    after.db.keyTotal ≤ before.db.keyTotal := by
  rw [ran] at fewer
  rw [keyTotal_onWal ends]
  exact fewer

theorem Step.bounded (step : Step machine observed later) (ready : Ready machine.world space)
    (bounded : Bounded machine) : Bounded later := by
  have advanced := step.advanced ⟨space, ready⟩
  have reaps := fun now => Database.reapRound_fewer ready now
  have evicts := fun target => Database.evictRound_fewer ready target
  cases step with
  | beginBatch | execute | overflow | crash | endBatch | endBatchFails =>
      exact bounded_of_loop LoopPhase.noConfusion rfl
  | within phase capacity => exact bounded_answer ready capacity
  | beyond => exact bounded_of_loop LoopPhase.noConfusion rfl
  | wake phase capacity working => exact bounded_answer ready capacity
  | wakeFails => exact bounded_of_loop LoopPhase.noConfusion rfl
  | send | sendPart | complain | disconnect => exact bounded.fewer advanced rfl (Nat.le_refl _)
  | stop => exact bounded_of_loop LoopPhase.noConfusion rfl
  | need | noExpiry | expiry => exact bounded.fewer advanced rfl (Nat.le_refl _)
  | beginReaping phase unlocked read ran =>
      cases read
      have total := keyTotal_onWal ran
      exact bounded.fewer advanced rfl (Nat.le_of_eq total)
  | @reap after now left phase ran =>
      have fewer := reaps now
      rw [ran] at fewer
      exact bounded.fewer advanced rfl fewer
  | reaped phase done ran =>
      rcases done with ⟨-, rfl⟩ | stopped
      · exact bounded.fewer advanced rfl (Nat.le_of_eq (keyTotal_onWal ran))
      · exact bounded.fewer advanced rfl (keyTotal_round (reaps _) stopped ran)
  | reapFails phase ran => exact bounded.fewer advanced rfl (keyTotal_round (reaps _) ran rfl)
  | keeperEndFails phase ran =>
      exact bounded.fewer advanced rfl (Nat.le_of_eq (keyTotal_onWal ran))
  | enough | tooMany => exact bounded.fewer advanced rfl (Nat.le_refl _)
  | beginEvicting phase unlocked ran =>
      exact bounded.fewer advanced rfl (Nat.le_of_eq (keyTotal_onWal ran))
  | evict phase ran =>
      have fewer := evicts machine.world.db.maxKeys
      rw [ran] at fewer
      exact bounded.fewer advanced rfl fewer
  | evicted phase done ran =>
      rcases done with ⟨-, rfl⟩ | stopped
      · exact bounded.fewer advanced rfl (Nat.le_of_eq (keyTotal_onWal ran))
      · exact bounded.fewer advanced rfl (keyTotal_round (evicts _) stopped ran)
  | evictFails phase ran => exact bounded.fewer advanced rfl (keyTotal_round (evicts _) ran rfl)
  | fail | quit => exact bounded.fewer advanced rfl (Nat.le_refl _)
  | tick => exact bounded.fewer advanced rfl (Nat.le_of_eq (keyTotal_onWal rfl))

theorem Running.bounded (running : Running world machine) (idle : Idle world) : Bounded machine := by
  induction running with
  | start => exact bounded_of_loop LoopPhase.noConfusion rfl
  | step running step ih =>
      rcases (running.advanced idle).idle with ⟨space, ready⟩
      exact step.bounded ready ih

/-- Whatever the threads do in whatever order, the limit holds from the return of
a batch to the next one, and an eviction takes the oldest of too many keys. -/
theorem key_limit_holds (reachable : Database.Reachable world) (running : Running world machine) :
    (machine.loop = .returned -> machine.world.db.keyTotal ≤ world.db.maxKeys) ∧
      forall victim later, Step machine (.evicts victim) later ->
        world.db.maxKeys < machine.world.db.keyTotal ∧ machine.world.db.lru.tail = some victim ∧
          later.world.db.entries = machine.world.db.entries.dropLast := by
  have advanced := running.advanced reachable.idle
  rw [<- advanced.evolves.maxKeys]
  refine ⟨running.bounded reachable.idle, ?_⟩
  intro victim later step
  rcases advanced.idle with ⟨space, ready⟩
  cases step with
  | evict phase ran =>
      have round := Cmd.of_wp_ok (Database.evictRound_spec ready machine.world.db.maxKeys) ran
      rcases round with ⟨-, ⟨impossible, -⟩ | ⟨addr, same, many, tail, done⟩⟩
      · cases impossible
      · cases same
        refine ⟨many, tail, ?_⟩
        rw [done.rep.entries, ready.rep.entries]

/-- A batch has added a second key where there is room for one, and waits; the
maintenance thread has come to its loop. -/
def crowded : Machine :=
  { Machine.incremented [98] Database.oneKey with
    world := (Database.beginWalBatch (Machine.incremented [98] Database.oneKey).world).2
    loop := .waiting 0 [incremented [98] Database.oneKey]
    keeper := .evicting evictionSlice }

theorem running_crowded : Running Database.oneKey crowded := by
  have batch : Running Database.oneKey (.incremented [98] Database.oneKey) :=
    running_incremented (by decide +kernel) (by decide +kernel) (by decide +kernel)
  have waits := batch.step (.beyond rfl (by decide +kernel))
  have called := (waits.step (.need rfl (by decide +kernel))).step (.noExpiry rfl (by decide +kernel))
  exact (called.step (.tooMany rfl (by decide +kernel))).step
    (.beginEvicting rfl id (ran_ok (by decide +kernel)))

/-- The thread evicts the older key, which lets the batch return. -/
theorem key_limit_holds_crowded :
    Running Database.oneKey crowded ∧ crowded.world.db.keyTotal = 2 ∧
      exists evicting returned, Step crowded (.evicts 0) evicting ∧
        Database.oneKey.db.maxKeys < crowded.world.db.keyTotal ∧
        evicting.world.db.entries = crowded.world.db.entries.dropLast ∧
        Running Database.oneKey returned ∧ returned.loop = .returned ∧
        returned.world.db.keyTotal ≤ Database.oneKey.db.maxKeys := by
  have evicts : Step crowded (.evicts 0) _ :=
    @Step.evict crowded _ 0 (evictionSlice - 1) rfl (ran_ok (by decide +kernel))
  have rests := (running_crowded.step evicts).step
    (.evicted rfl (Or.inr (ran_ok (by decide +kernel))) (ran_ok (by decide +kernel)))
  have returned := rests.step (.wake rfl (by decide +kernel) rfl)
  rcases (key_limit_holds Database.reachable_oneKey running_crowded).2 _ _ evicts with
    ⟨many, -, shorter⟩
  exact ⟨running_crowded, by decide +kernel, _, _, evicts, many, shorter, returned, rfl,
    (key_limit_holds Database.reachable_oneKey returned).1 rfl⟩

end Server

end Reddish
