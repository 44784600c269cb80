import Reddish.Database.Eviction
import Reddish.Resp.SoleCalls
import Reddish.Server.Connection

namespace Reddish

open Library Numeral

/-!
# The threads of the server

The event loop executes batches of commands, the maintenance thread removes due
keys and evicts old ones in slices, and the flusher of the log wakes up now and
then.  The database is used under a mutex, but the two hints that say whether
there is something to do are read without it.  A state of the machine says where
both threads are in their code; every round of a loop that holds the mutex is a
step of its own.
-/

namespace Database

variable {α β : Type} {op : Op α} {world after : World} {space : Keyspace}

/-! ## What code under the mutex keeps -/

/-- A later state between two operations. -/
structure Advanced (world after : World) : Prop where
  idle : Idle after
  evolves : World.Evolves world after

theorem Advanced.refl (idle : Idle world) : Advanced world world :=
  ⟨idle, World.Evolves.refl world⟩

theorem Advanced.trans {first second third : World} (left : Advanced first second)
    (right : Advanced second third) : Advanced first third :=
  ⟨right.idle, left.evolves.trans right.evolves⟩

/-- Code under the mutex that keeps the invariant leads to a later state. -/
theorem Keeps.advanced {outcome : Except Exn α} (keeps : Keeps (fun _ => False) op)
    (idle : Idle world) (ran : op world = (outcome, after)) : Advanced world after := by
  rcases idle with ⟨space, ready⟩
  rcases Cmd.wp_final (keeps world space ready) ran with ⟨later, done, -, evolves⟩
  exact ⟨⟨later, done⟩, evolves⟩

def flusherTick : Op Unit :=
  onWal Wal.flusherTick

theorem keeps_flusherTick : Keeps (fun _ => False) flusherTick :=
  keeps_onWal fun _ sound => Cmd.wp_mono (Wal.flusherTick_spec sound)
    (fun _ _ done => ⟨done.1, done.2.toEvolves⟩) (fun _ _ never => never.elim)

/-! ## The rounds of maintenance -/

/-- A round of the loop of `remove_expired_locked`; says whether it goes on. -/
def reapRound (now : Int64) : Op Bool := do
  let world <- Cmd.read
  match world.db.expiries.order.head? with
  | none => pure false
  | some addr =>
      if (world.db.deadline addr).getD 0 > now then pure false
      else do
        log .del [world.db.key addr]
        modifyDb (Db.expireNode addr)
        pure true

/-- A round of the loop of `evict_to`; the result is the node that was evicted. -/
def evictRound (target : Nat) : Op (Option Addr) := do
  let world <- Cmd.read
  if world.db.keyTotal ≤ target then pure none
  else
    match world.db.lru.tail with
    | none => pure none
    | some victim => do
        log .del [world.db.key victim]
        modifyDb (Db.evictNode victim)
        pure (some victim)

/-- A round that removes a due key, or stops. -/
theorem reapRound_spec (ready : Ready world space) (now : Int64) :
    exists later, Ready (reapRound now world).2 later ∧ later.Sublist space ∧
      World.Evolves world (reapRound now world).2 := by
  have spec : (reapRound now).wp
      (fun _ after => exists later, Ready after later ∧ later.Sublist space ∧
        World.Evolves world after)
      (fun _ after => exists later, Ready after later ∧ later.Sublist space ∧
        World.Evolves world after) world := by
    have nothing : exists later, Ready world later ∧ later.Sublist space ∧
        World.Evolves world world :=
      ⟨space, ready, List.Sublist.refl space, World.Evolves.refl world⟩
    unfold reapRound
    rw [Cmd.wp_bind, Cmd.wp_read]
    cases first : world.db.expiries.order.head? with
    | none => exact nothing
    | some addr =>
        rcases ready.rep.first_due first with ⟨-, -, found, -⟩
        refine Cmd.wp_ite (fun _ => nothing) fun _ => ?_
        simp only [Cmd.wp_bind]
        refine Cmd.wp_mono (@log_spec _ _ _ _ _ False ready.reached .del [world.db.key addr]) ?_ ?_
        · rintro _ logged ⟨reached, same, -, -⟩
          unfold modifyDb
          rw [Cmd.wp_update, Cmd.wp_pure]
          rw [<- same] at found
          have erased := reached.modifyDb (reached.rep.expireNode found) Db.settings_eraseNode
          exact ⟨_, erased.ready, List.filter_sublist, erased.evolves⟩
        · rintro thrown after ⟨failed, -, -⟩
          exact ⟨space, failed.ready, List.Sublist.refl space, failed.evolves⟩
  exact (Cmd.wp_state (fun after => exists later, Ready after later ∧ later.Sublist space ∧
    World.Evolves world after)).mp spec

/-- A round evicts the oldest key of a database with too many of them. -/
theorem evictRound_spec (ready : Ready world space) (target : Nat) :
    (evictRound target).wp
      (fun victim after => World.Evolves world after ∧
        ((victim = none ∧ Ready after space) ∨ exists addr, victim = some addr ∧
          target < world.db.keyTotal ∧ world.db.lru.tail = some addr ∧ Ready after space.dropLast))
      (fun _ after => Ready after space ∧ World.Evolves world after) world := by
  unfold evictRound
  rw [Cmd.wp_bind, Cmd.wp_read]
  refine Cmd.wp_ite (fun _ => ⟨World.Evolves.refl world, Or.inl ⟨rfl, ready⟩⟩) fun many => ?_
  cases tail : world.db.lru.tail with
  | none => exact ⟨World.Evolves.refl world, Or.inl ⟨rfl, ready⟩⟩
  | some victim =>
      rcases ready.rep.oldest.2 victim tail with ⟨found, shorter⟩
      simp only [Cmd.wp_bind]
      refine Cmd.wp_mono (@log_spec _ _ _ _ _ False ready.reached .del [world.db.key victim]) ?_ ?_
      · rintro _ logged ⟨reached, same, -, -⟩
        unfold modifyDb
        rw [Cmd.wp_update, Cmd.wp_pure]
        rw [<- same] at found shorter
        have erased := reached.modifyDb (reached.rep.evictNode found) Db.settings_eraseNode
        rw [shorter] at erased
        exact ⟨erased.evolves, Or.inr ⟨victim, rfl, Nat.not_le.mp many, rfl, erased.ready⟩⟩
      · rintro thrown after ⟨failed, -, -⟩
        exact ⟨failed.ready, failed.evolves⟩

theorem keeps_reapRound (now : Int64) : Keeps (fun _ => False) (reapRound now) := by
  intro world space ready
  rcases reapRound_spec ready now with ⟨later, ready, -, evolves⟩
  exact (Cmd.wp_state _).mpr ⟨later, ready, agree_nothing, evolves⟩

theorem keeps_evictRound (target : Nat) : Keeps (fun _ => False) (evictRound target) := by
  intro world space ready
  refine Cmd.wp_mono (evictRound_spec ready target) ?_ ?_
  · rintro victim after ⟨evolves, ⟨-, ready⟩ | ⟨addr, -, -, -, ready⟩⟩
    · exact ⟨space, ready, agree_nothing, evolves⟩
    · exact ⟨space.dropLast, ready, agree_nothing, evolves⟩
  · rintro thrown after ⟨ready, evolves⟩
    exact ⟨space, ready, agree_nothing, evolves⟩

end Database

/-! ## Commands -/

namespace Resp

open Database (Idle Keeps)

variable {command : Command}

theorem keeps_delLoop (keys : List Bytes) :
    forall deleted, Keeps (fun _ => False) (delLoop keys deleted) := by
  induction keys with
  | nil => exact fun _ => Database.keeps_pure _
  | cons key keys ih =>
      exact fun _ => ((Database.del_spec key).keeps Spec.local_del).forget.bind fun _ => ih _

/-- Every command starts and ends between two operations. -/
theorem keeps_handler (report : Report) (id : CommandId) :
    Keeps (fun _ => False) (handler command report id) := by
  by_cases isDel : id = .del
  · subst isDel
    change Keeps _ (if _ then pure _ else replying _ (delLoop command.texts 0))
    split
    · exact Database.keeps_pure _
    · exact (keeps_delLoop _ _).bind fun _ => Database.keeps_pure _
  · intro world space ready
    refine (Cmd.wp_state _).mpr ?_
    rcases (handler_oneCall isDel).state world with same | ⟨call, key, named, same⟩
    · rw [same]
      exact ready.kept
    · have kept := (Database.Call.keeps named).forget world space ready
      rw [Cmd.wp_state, call.perform_eq] at kept
      rw [same]
      exact kept

end Resp

namespace Server

open Resp (Command Report)

/-! ## The machine -/

def expirySlice : Nat := 128
def evictionSlice : Nat := 256

def databaseService (report : ServerStats -> Report) (awaitCapacity : Cmd Exn World Unit) :
    Service World where
  executeInto := fun stats command =>
    Resp.executeInto command (report stats) (Resp.classifyCommand command.name).id
  beginBatch := Database.beginWalBatch
  endBatch := Database.endWalBatch
  awaitCapacity := awaitCapacity
  appends := by
    intro stats command world output
    rcases ran : Resp.handler command (report stats) (Resp.classifyCommand command.name).id world with
      ⟨thrown | reply, after⟩
    · rw [Resp.executeInto_thrown ran]
      exact ⟨[], by simp⟩
    · rw [Resp.executeInto_answered ran]
      by_cases fits : Resp.Fits reply output
      · rw [Resp.deliver_fits fits]
        exact ⟨reply.bytes, rfl⟩
      · rw [Resp.deliver_lost fits]
        exact ⟨[], by simp⟩

/-- A reply in the output of a client: whether it answers a write, how many
records the log had when the command was done, and the bytes that were not sent
yet. -/
structure Answer where
  write : Bool
  mark : Nat
  bytes : Bytes

/-- Where the event loop is: outside of `execute_batch`, in its loop with the
mutex and the replies so far, at its first test of `over_capacity`, waiting for
the maintenance thread, outside after `execute_batch` returned, or ended by an
exception. -/
inductive LoopPhase where
  | outside
  | executing (client : ClientId) (hasWrite : Bool) (replies : List Answer)
  | asking (client : ClientId) (replies : List Answer)
  | waiting (client : ClientId) (replies : List Answer)
  | returned
  | stopped

/-- Where the maintenance thread is: waiting, in front of `remove_expired`, in
front of its mutex, in its loop, in front of the test of `over_capacity`, in front
of the mutex of `evict_to`, in its loop, leaving with an exception, or ended. -/
inductive KeeperPhase where
  | resting
  | expiring
  | acquiring
  | reaping (now : Int64) (left : Nat)
  | deciding
  | enlisted
  | evicting (left : Nat)
  | failing
  | stopped

/-- The phases in which the event loop does not execute a batch. -/
def LoopPhase.Free : LoopPhase -> Prop
  | outside => True
  | returned => True
  | _ => False

/-- The phases in which the maintenance thread has the mutex. -/
def KeeperPhase.Locks : KeeperPhase -> Prop
  | reaping _ _ => True
  | evicting _ => True
  | _ => False

def LoopPhase.Locks : LoopPhase -> Prop
  | executing _ _ _ => True
  | _ => False

/-- The state of the server's threads: how far the event loop and the
maintenance have come, and the replies that wait in the outputs. -/
structure Machine where
  world : World
  loop : LoopPhase
  keeper : KeeperPhase
  maintenanceFailed : Bool
  output : ClientId -> List Answer

namespace Machine

def buffered (machine : Machine) (client : ClientId) (replies : List Answer) : Bytes :=
  (machine.output client ++ replies).flatMap Answer.bytes

/-- `execute_batch` returns to `process_client`. -/
def answer (machine : Machine) (client : ClientId) (replies : List Answer) : Machine :=
  { machine with
    loop := .returned
    output := Function.update machine.output client (machine.output client ++ replies) }

def drop (machine : Machine) (client : ClientId) : Machine :=
  { machine with output := Function.update machine.output client [] }

end Machine

/-- The calls around a batch, which only a batch with writes makes. -/
def ifWrite (hasWrite : Bool) (op : Op Unit) : Op Unit :=
  Cmd.onlyIf (hasWrite = true) op

def executeOne (stats : ServerStats) (report : ServerStats -> Report) (command : Command) :
    Cmd Exn (World × Bytes) Unit :=
  executeGuarded (databaseService report (pure ())) stats command

/-- What can be observed of a step: replies that are handed to a socket, and a
key that is evicted. -/
inductive Observation where
  | nothing
  | hands (answers : List Answer)
  | evicts (victim : Addr)

inductive Step : Machine -> Observation -> Machine -> Prop where
  | beginBatch {machine : Machine} {after : World} (client : ClientId) (hasWrite : Bool)
      (free : machine.loop.Free) (unlocked : ¬ machine.keeper.Locks)
      (ran : ifWrite hasWrite Database.beginWalBatch machine.world = (.ok (), after)) :
      Step machine .nothing { machine with world := after, loop := .executing client hasWrite [] }
  | execute {machine : Machine} {client : ClientId} {hasWrite : Bool} {replies : List Answer}
      {after : World} {output : Bytes} (stats : ServerStats) (report : ServerStats -> Report)
      (command : Command) (phase : machine.loop = .executing client hasWrite replies)
      (classified : (Resp.classifyCommand command.name).isWrite = true -> hasWrite = true)
      (ran : executeOne stats report command (machine.world, machine.buffered client replies) =
        (.ok (), (after, output))) :
      Step machine .nothing
        { machine with
          world := after
          loop := .executing client hasWrite (replies ++
            [⟨(Resp.classifyCommand command.name).isWrite, after.records.length,
              output.drop (machine.buffered client replies).length⟩]) }
  | overflow {machine : Machine} {client : ClientId} {hasWrite : Bool} {replies : List Answer}
      {after last : World} {output : Bytes} (stats : ServerStats) (report : ServerStats -> Report)
      (command : Command) (phase : machine.loop = .executing client hasWrite replies)
      (ran : executeOne stats report command (machine.world, machine.buffered client replies) =
        (.error (.error .requestTooLarge), (after, output)))
      (ended : ifWrite hasWrite Database.endWalBatch after = (.ok (), last)) :
      Step machine .nothing { machine.drop client with world := last, loop := .outside }
  | crash {machine : Machine} {client : ClientId} {hasWrite : Bool} {replies : List Answer}
      {thrown : Exn} {after : World} {output : Bytes} (stats : ServerStats)
      (report : ServerStats -> Report) (command : Command)
      (phase : machine.loop = .executing client hasWrite replies)
      (ran : executeOne stats report command (machine.world, machine.buffered client replies) =
        (.error thrown, (after, output)))
      (fatal : thrown ≠ .error .requestTooLarge ∨
        (ifWrite hasWrite Database.endWalBatch after).1 ≠ .ok ()) :
      Step machine .nothing
        { machine with
          world := (ifWrite hasWrite Database.endWalBatch after).2
          loop := .stopped }
  | endBatch {machine : Machine} {client : ClientId} {hasWrite : Bool} {replies : List Answer}
      {after : World} (phase : machine.loop = .executing client hasWrite replies)
      (ran : ifWrite hasWrite Database.endWalBatch machine.world = (.ok (), after)) :
      Step machine .nothing { machine with world := after, loop := .asking client replies }
  | endBatchFails {machine : Machine} {client : ClientId} {hasWrite : Bool} {replies : List Answer}
      {thrown : Exn} {after : World} (phase : machine.loop = .executing client hasWrite replies)
      (ran : ifWrite hasWrite Database.endWalBatch machine.world = (.error thrown, after)) :
      Step machine .nothing { machine with world := after, loop := .stopped }
  | within {machine : Machine} {client : ClientId} {replies : List Answer}
      (phase : machine.loop = .asking client replies)
      (capacity : machine.world.db.overCapacity = false) :
      Step machine .nothing (machine.answer client replies)
  | beyond {machine : Machine} {client : ClientId} {replies : List Answer}
      (phase : machine.loop = .asking client replies)
      (capacity : machine.world.db.overCapacity = true) :
      Step machine .nothing { machine with loop := .waiting client replies }
  | wake {machine : Machine} {client : ClientId} {replies : List Answer}
      (phase : machine.loop = .waiting client replies)
      (capacity : machine.world.db.overCapacity = false)
      (working : machine.maintenanceFailed = false) :
      Step machine .nothing (machine.answer client replies)
  | wakeFails {machine : Machine} {client : ClientId} {replies : List Answer}
      (phase : machine.loop = .waiting client replies) (failed : machine.maintenanceFailed = true) :
      Step machine .nothing { machine with loop := .stopped }
  | send {machine : Machine} {client : ClientId} {answers rest : List Answer}
      (free : machine.loop.Free) (queue : machine.output client = answers ++ rest) :
      Step machine (.hands answers)
        { machine with output := Function.update machine.output client rest }
  | sendPart {machine : Machine} {client : ClientId} {answer : Answer} {rest : List Answer}
      {front back : Bytes} (free : machine.loop.Free)
      (queue : machine.output client = answer :: rest) (split : answer.bytes = front ++ back) :
      Step machine (.hands [{ answer with bytes := front }])
        { machine with
          output := Function.update machine.output client ({ answer with bytes := back } :: rest) }
  | complain {machine : Machine} (client : ClientId) (text : Bytes) (free : machine.loop.Free) :
      Step machine .nothing
        { machine with
          output := Function.update machine.output client
            (machine.output client ++ [⟨false, machine.world.records.length, text⟩]) }
  | disconnect {machine : Machine} (client : ClientId) (free : machine.loop.Free) :
      Step machine .nothing (machine.drop client)
  | stop {machine : Machine} (free : machine.loop.Free) :
      Step machine .nothing { machine with loop := .stopped }
  | need {machine : Machine} (phase : machine.keeper = .resting)
      (needed : machine.world.db.maintenanceNeeded = true) :
      Step machine .nothing { machine with keeper := .expiring }
  | noExpiry {machine : Machine} (phase : machine.keeper = .expiring)
      (hint : machine.world.db.ttlHint = false) :
      Step machine .nothing { machine with keeper := .deciding }
  | expiry {machine : Machine} (phase : machine.keeper = .expiring)
      (hint : machine.world.db.ttlHint = true) :
      Step machine .nothing { machine with keeper := .acquiring }
  | beginReaping {machine : Machine} {clocked after : World} {now : Int64}
      (phase : machine.keeper = .acquiring) (unlocked : ¬ machine.loop.Locks)
      (read : Database.nowMs machine.world = (.ok now, clocked))
      (ran : Database.beginWalBatch clocked = (.ok (), after)) :
      Step machine .nothing { machine with world := after, keeper := .reaping now expirySlice }
  | reap {machine : Machine} {after : World} {now : Int64} {left : Nat}
      (phase : machine.keeper = .reaping now (left + 1))
      (ran : Database.reapRound now machine.world = (.ok true, after)) :
      Step machine .nothing { machine with world := after, keeper := .reaping now left }
  | reaped {machine : Machine} {idle after : World} {now : Int64} {left : Nat}
      (phase : machine.keeper = .reaping now left)
      (done : left = 0 ∧ idle = machine.world ∨
        Database.reapRound now machine.world = (.ok false, idle))
      (ran : Database.endWalBatch idle = (.ok (), after)) :
      Step machine .nothing { machine with world := after, keeper := .deciding }
  | reapFails {machine : Machine} {after : World} {thrown : Exn} {now : Int64} {left : Nat}
      (phase : machine.keeper = .reaping now (left + 1))
      (ran : Database.reapRound now machine.world = (.error thrown, after)) :
      Step machine .nothing
        { machine with world := (Database.endWalBatch after).2, keeper := .failing }
  | keeperEndFails {machine : Machine} {after : World} {thrown : Exn}
      (phase : machine.keeper.Locks)
      (ran : Database.endWalBatch machine.world = (.error thrown, after)) :
      Step machine .nothing { machine with world := after, keeper := .failing }
  | enough {machine : Machine} (phase : machine.keeper = .deciding)
      (capacity : machine.world.db.overCapacity = false) :
      Step machine .nothing { machine with keeper := .resting }
  | tooMany {machine : Machine} (phase : machine.keeper = .deciding)
      (capacity : machine.world.db.overCapacity = true) :
      Step machine .nothing { machine with keeper := .enlisted }
  | beginEvicting {machine : Machine} {after : World} (phase : machine.keeper = .enlisted)
      (unlocked : ¬ machine.loop.Locks)
      (ran : Database.beginWalBatch machine.world = (.ok (), after)) :
      Step machine .nothing { machine with world := after, keeper := .evicting evictionSlice }
  | evict {machine : Machine} {after : World} {victim : Addr} {left : Nat}
      (phase : machine.keeper = .evicting (left + 1))
      (ran : Database.evictRound machine.world.db.maxKeys machine.world =
        (.ok (some victim), after)) :
      Step machine (.evicts victim) { machine with world := after, keeper := .evicting left }
  | evicted {machine : Machine} {idle after : World} {left : Nat}
      (phase : machine.keeper = .evicting left)
      (done : left = 0 ∧ idle = machine.world ∨
        Database.evictRound machine.world.db.maxKeys machine.world = (.ok none, idle))
      (ran : Database.endWalBatch idle = (.ok (), after)) :
      Step machine .nothing { machine with world := after, keeper := .resting }
  | evictFails {machine : Machine} {after : World} {thrown : Exn} {left : Nat}
      (phase : machine.keeper = .evicting (left + 1))
      (ran : Database.evictRound machine.world.db.maxKeys machine.world = (.error thrown, after)) :
      Step machine .nothing
        { machine with world := (Database.endWalBatch after).2, keeper := .failing }
  | fail {machine : Machine} (phase : machine.keeper = .failing) :
      Step machine .nothing { machine with keeper := .stopped, maintenanceFailed := true }
  | quit {machine : Machine} (phase : machine.keeper = .resting) :
      Step machine .nothing { machine with keeper := .stopped }
  | tick {machine : Machine} :
      Step machine .nothing { machine with world := (Database.flusherTick machine.world).2 }

/-- The server after `open_wal`. -/
def Machine.start (world : World) : Machine :=
  ⟨world, .outside, .resting, false, fun _ => []⟩

/-- The states of all interleavings of the event loop, the maintenance thread
and the thread that flushes the log. -/
inductive Running (world : World) : Machine -> Prop where
  | start : Running world (Machine.start world)
  | step {machine later : Machine} {observed : Observation} (running : Running world machine)
      (step : Step machine observed later) : Running world later

/-! ## What every step keeps -/

open Database (Advanced Idle Keeps Ready)

theorem keeps_ifWrite {op : Op Unit} (hasWrite : Bool) (keeps : Keeps (fun _ => False) op) :
    Keeps (fun _ => False) (ifWrite hasWrite op) := by
  unfold ifWrite Cmd.onlyIf
  split
  · exact keeps
  · exact Database.keeps_pure ()

/-- A command starts and ends between two operations. -/
theorem executeOne_advanced {stats : ServerStats} {report : ServerStats -> Report}
    {command : Command} {world after : World} {output last : Bytes} {outcome : Except Exn Unit}
    (idle : Idle world)
    (ran : executeOne stats report command (world, output) = (outcome, (after, last))) :
    Advanced world after := by
  have handled : (Resp.handler command (report stats) (Resp.classifyCommand command.name).id).wp
      (fun _ => Advanced world) (fun _ => Advanced world) world :=
    (Cmd.wp_state _).mpr ((Resp.keeps_handler _ _).advanced idle rfl)
  have body : (Resp.executeInto command (report stats) (Resp.classifyCommand command.name).id).wp
      (fun _ pair => Advanced world pair.1) (fun _ pair => Advanced world pair.1)
      (world, output) := by
    unfold Resp.executeInto Resp.onDatabase
    rw [Cmd.wp_bind, Cmd.wp_zoom]
    refine Cmd.wp_mono handled ?_ (fun _ _ advanced => advanced)
    intro reply later advanced
    unfold Resp.onOutput
    rw [Cmd.wp_zoom]
    exact Cmd.wp_of_forall (fun _ _ => advanced) (fun _ _ => advanced)
  have whole : (executeOne stats report command).wp (fun _ pair => Advanced world pair.1)
      (fun _ pair => Advanced world pair.1) (world, output) := by
    unfold executeOne executeGuarded
    rw [Cmd.wp_handle]
    refine Cmd.wp_mono body (fun _ _ advanced => advanced) ?_
    intro thrown pair advanced
    refine Cmd.wp_ite (fun _ => ?_) (fun _ => advanced)
    rw [Cmd.wp_zoom]
    exact Cmd.wp_of_forall (fun _ _ => advanced) (fun _ _ => advanced)
  have final : Advanced world (executeOne stats report command (world, output)).2.1 :=
    (Cmd.wp_state fun pair : World × Bytes => Advanced world pair.1).mp whole
  rw [ran] at final
  exact final

theorem Step.advanced {machine later : Machine} {observed : Observation}
    (step : Step machine observed later) (idle : Idle machine.world) :
    Advanced machine.world later.world := by
  have begins := @Database.keeps_beginWalBatch fun _ => False
  have ends := @Database.keeps_endWalBatch fun _ => False
  have same : Advanced machine.world machine.world := Advanced.refl idle
  cases step with
  | beginBatch client hasWrite free unlocked ran =>
      exact (keeps_ifWrite hasWrite begins).advanced idle ran
  | execute stats report command phase classified ran => exact executeOne_advanced idle ran
  | overflow stats report command phase ran ended =>
      have executed := executeOne_advanced idle ran
      exact executed.trans ((keeps_ifWrite _ ends).advanced executed.idle ended)
  | crash stats report command phase ran fatal =>
      have executed := executeOne_advanced idle ran
      exact executed.trans ((keeps_ifWrite _ ends).advanced executed.idle rfl)
  | endBatch phase ran | endBatchFails phase ran =>
      exact (keeps_ifWrite _ ends).advanced idle ran
  | within | beyond | wake | wakeFails | send | sendPart | complain | disconnect | stop | need
  | noExpiry | expiry => exact same
  | beginReaping phase unlocked read ran =>
      have clocked := Database.keeps_nowMs.advanced idle read
      exact clocked.trans (begins.advanced clocked.idle ran)
  | reap phase ran => exact (Database.keeps_reapRound _).advanced idle ran
  | reaped phase done ran =>
      rcases done with ⟨-, rfl⟩ | stopped
      · exact ends.advanced idle ran
      · have reaped := (Database.keeps_reapRound _).advanced idle stopped
        exact reaped.trans (ends.advanced reaped.idle ran)
  | reapFails phase ran =>
      have reaped := (Database.keeps_reapRound _).advanced idle ran
      exact reaped.trans (ends.advanced reaped.idle rfl)
  | keeperEndFails phase ran => exact ends.advanced idle ran
  | enough | tooMany => exact same
  | beginEvicting phase unlocked ran => exact begins.advanced idle ran
  | evict phase ran => exact (Database.keeps_evictRound _).advanced idle ran
  | evicted phase done ran =>
      rcases done with ⟨-, rfl⟩ | stopped
      · exact ends.advanced idle ran
      · have evicted := (Database.keeps_evictRound _).advanced idle stopped
        exact evicted.trans (ends.advanced evicted.idle ran)
  | evictFails phase ran =>
      have evicted := (Database.keeps_evictRound _).advanced idle ran
      exact evicted.trans (ends.advanced evicted.idle rfl)
  | fail phase => exact same
  | quit phase => exact same
  | tick => exact Database.keeps_flusherTick.advanced idle rfl

theorem Running.advanced {world : World} {machine : Machine} (running : Running world machine)
    (idle : Idle world) : Advanced world machine.world := by
  induction running with
  | start => exact Advanced.refl idle
  | step running step ih =>
      exact ih.trans (step.advanced ih.idle)

/-- What `INCR` does in a batch of its own. -/
def increments (key : Bytes) (world : World) : Except Exn Unit × World × Bytes :=
  executeOne ⟨0, 0, 0⟩ (fun _ => Resp.emptyReport) (Resp.commandOn (ascii "incr") key .increment)
    ((Database.beginWalBatch world).2, [])

def incremented (key : Bytes) (world : World) : Answer :=
  ⟨(Resp.classifyCommand (ascii "incr")).isWrite, (increments key world).2.1.records.length,
    (increments key world).2.2.drop 0⟩

/-- The server after that batch, in front of the test of `over_capacity`. -/
def Machine.incremented (key : Bytes) (world : World) : Machine :=
  { Machine.start world with
    world := (Database.endWalBatch (increments key world).2.1).2
    loop := .asking 0 [Server.incremented key world] }

theorem ran_ok {σ α : Type} {op : Cmd Exn σ α} {state : σ} {value : α}
    (returned : (op state).1 = .ok value) : op state = (.ok value, (op state).2) :=
  Prod.ext returned rfl

theorem running_incremented {key : Bytes} {world : World}
    (began : (Database.beginWalBatch world).1 = .ok ()) (returned : (increments key world).1 = .ok ())
    (ended : (Database.endWalBatch (increments key world).2.1).1 = .ok ()) :
    Running world (.incremented key world) := by
  have begins : Running world { Machine.start world with
      world := (Database.beginWalBatch world).2, loop := .executing 0 true [] } :=
    Running.start.step (.beginBatch 0 true trivial id (ran_ok began))
  have executes := begins.step (.execute ⟨0, 0, 0⟩ (fun _ => Resp.emptyReport)
    (Resp.commandOn (ascii "incr") key .increment) rfl (fun _ => rfl) (ran_ok returned))
  have replied : Running world { Machine.start world with
      world := (increments key world).2.1, loop := .executing 0 true [incremented key world] } :=
    executes
  exact replied.step (.endBatch rfl (ran_ok ended))

end Server

end Reddish
