import Reddish.Database.Opening
import Reddish.Resp.LostReplies
import Reddish.Server.Threads

namespace Reddish

open Library Numeral

/-!
# Acknowledged writes

With a log in `always` mode the reply to a write waits for the end of its batch,
and the end of a batch returns only after a sync that covers everything handed to
the file.  A batch of the maintenance thread and the flusher can only add to what
is covered, and a failure of either stops everything after it.
-/

namespace Wal

variable {wal after : Wal} {mark : Nat}

/-- The first `mark` records of the log were covered by a successful sync. -/
structure Covers (wal : Wal) (mark : Nat) : Prop where
  logged : mark ≤ wal.appended.length
  synced : (magic ++ frames (wal.appended.take mark)).length ≤ wal.stream.synced

/-- What is durable stays durable. -/
theorem Covers.evolves (covers : Covers wal mark) (evolves : Evolves wal after) :
    Covers after mark := by
  rcases evolves.appended with ⟨more, appended⟩
  have same : after.appended.take mark = wal.appended.take mark := by
    rw [<- appended, List.take_append_of_le_length covers.logged]
  refine ⟨Nat.le_trans covers.logged evolves.appended.length_le, ?_⟩
  rw [same]
  exact Nat.le_trans covers.synced evolves.synced

/-- A clean log is durable as a whole. -/
theorem Sound.covers (sound : Sound wal) (healthy : wal.failed = false) (clean : wal.dirty = false)
    (mode : wal.sync ≠ .none) (logged : mark ≤ wal.appended.length) : Covers wal mark := by
  refine ⟨logged, ?_⟩
  have split : frames wal.appended =
      frames (wal.appended.take mark) ++ frames (wal.appended.drop mark) := by
    unfold frames
    rw [<- List.flatMap_append, List.take_append_drop]
  rw [sound.clean healthy clean mode, sound.written healthy, split]
  simp only [List.length_append]
  omega

end Wal

namespace Database

variable {world after : World} {space : Keyspace} {mark : Nat}

/-- The log of a world syncs at the end of every batch. -/
def Always (world : World) : Prop :=
  forall wal, world.wal = some wal -> wal.sync = .always

/-- The first `mark` records are durable. -/
def Secured (world : World) (mark : Nat) : Prop :=
  forall wal, world.wal = some wal -> Wal.Covers wal mark

/-- A log does not appear and does not go away. -/
theorem evolved_wal (evolves : World.Evolves world after) {wal : Wal}
    (present : after.wal = some wal) :
    exists before, world.wal = some before ∧ Wal.Evolves before wal := by
  have related := evolves.wal
  rw [present] at related
  cases found : world.wal with
  | none =>
      rw [found] at related
      cases related
  | some before =>
      rw [found] at related
      cases related with
      | some evolves => exact ⟨before, rfl, evolves⟩

theorem Always.evolves (always : Always world) (evolves : World.Evolves world after) :
    Always after := by
  intro wal present
  rcases evolved_wal evolves present with ⟨before, found, evolved⟩
  rw [evolved.sync]
  exact always before found

theorem Secured.evolves (secured : Secured world mark) (evolves : World.Evolves world after) :
    Secured after mark := by
  intro wal present
  rcases evolved_wal evolves present with ⟨before, found, evolved⟩
  exact (secured before found).evolves evolved

theorem records_length_le (evolves : World.Evolves world after) :
    world.records.length ≤ after.records.length := by
  have related := evolves.wal
  unfold World.records
  cases found : world.wal with
  | none => exact Nat.zero_le _
  | some before =>
      rw [found] at related
      cases present : after.wal with
      | none =>
          rw [present] at related
          cases related
      | some wal =>
          rw [present] at related
          cases related with
          | some evolves => exact evolves.appended.length_le

/-- The end of a batch makes the records so far durable. -/
theorem endWalBatch_secures (ready : Ready world space) (always : Always world)
    (ran : endWalBatch world = (.ok (), after)) (logged : mark ≤ world.records.length) :
    Secured after mark := by
  have spec : endWalBatch.wp (fun _ later => Secured later mark) (fun _ _ => True) world := by
    refine wp_onWal ?_ ?_
    · intro absent wal present
      rw [absent] at present
      cases present
    · intro wal here
      refine Cmd.wp_mono (Wal.endBatch_spec (ready.sound wal here)) ?_ (fun _ _ _ => trivial)
      rintro _ last ⟨sound, evolves, appended, ended⟩ other equal
      cases equal
      have mode := always wal here
      refine sound.covers (ended mode).1 (ended mode).2 ?_ ?_
      · rw [evolves.sync, mode]
        exact WalSync.noConfusion
      · rw [appended]
        unfold World.records at logged
        rw [here] at logged
        exact logged
  have secured := Cmd.of_wp_ok spec ran
  exact secured

end Database

namespace Server

open Database (Advanced Always Idle Ready Secured)

variable {machine later : Machine} {observed : Observation} {world after : World}

/-- A reply to a write promises that its records are durable; `mark` is the
number of records when the command had been executed. -/
def Promised (world : World) (answer : Answer) : Prop :=
  answer.write = true -> Secured world answer.mark

/-- What holds of the replies on their way to the output. -/
def LoopPhase.Promises (world : World) : LoopPhase -> Prop
  | executing _ hasWrite replies => forall answer, answer ∈ replies ->
      answer.mark ≤ world.records.length ∧ (answer.write = true -> hasWrite = true)
  | asking _ replies => forall answer, answer ∈ replies -> Promised world answer
  | waiting _ replies => forall answer, answer ∈ replies -> Promised world answer
  | _ => True

/-- No reply to a write is in an output before its records are durable. -/
structure Keeping (machine : Machine) : Prop where
  mode : Always machine.world
  queued : forall client, forall answer, answer ∈ machine.output client ->
    Promised machine.world answer
  pending : machine.loop.Promises machine.world

theorem Promised.evolves {answer : Answer} (promised : Promised world answer)
    (evolves : World.Evolves world after) : Promised after answer :=
  fun write => (promised write).evolves evolves

theorem LoopPhase.Promises.evolves {loop : LoopPhase} (promises : loop.Promises world)
    (evolves : World.Evolves world after) : loop.Promises after := by
  cases loop with
  | executing client hasWrite replies =>
      intro answer inside
      have pending := promises answer inside
      exact ⟨Nat.le_trans pending.1 (Database.records_length_le evolves), pending.2⟩
  | asking | waiting => exact fun answer inside => (promises answer inside).evolves evolves
  | outside => trivial
  | returned => trivial
  | stopped => trivial

theorem Keeping.loops (keeping : Keeping machine) (advanced : Advanced machine.world later.world)
    (output : later.output = machine.output) (pending : later.loop.Promises later.world) :
    Keeping later := by
  refine ⟨keeping.mode.evolves advanced.evolves, ?_, pending⟩
  intro client answer inside
  rw [output] at inside
  exact (keeping.queued client answer inside).evolves advanced.evolves

theorem Keeping.advances (keeping : Keeping machine) (advanced : Advanced machine.world later.world)
    (output : later.output = machine.output) (loop : later.loop = machine.loop) : Keeping later := by
  refine keeping.loops advanced output ?_
  rw [loop]
  exact keeping.pending.evolves advanced.evolves

theorem Keeping.outputs (keeping : Keeping machine) (advanced : Advanced machine.world later.world)
    {client : ClientId} {answers : List Answer}
    (output : later.output = Function.update machine.output client answers)
    (promised : forall answer, answer ∈ answers -> Promised machine.world answer)
    (pending : later.loop.Promises later.world) : Keeping later := by
  refine ⟨keeping.mode.evolves advanced.evolves, ?_, pending⟩
  intro other answer inside
  rw [output] at inside
  by_cases same : other = client
  · rw [same, Function.update_self] at inside
    exact (promised answer inside).evolves advanced.evolves
  · rw [Function.update_of_ne same] at inside
    exact (keeping.queued other answer inside).evolves advanced.evolves

/-- A batch returns with promised replies. -/
theorem Keeping.answer {client : ClientId} {replies : List Answer} (keeping : Keeping machine)
    (advanced : Advanced machine.world machine.world)
    (promised : forall answer, answer ∈ replies -> Promised machine.world answer) :
    Keeping (machine.answer client replies) := by
  refine keeping.outputs advanced rfl ?_ trivial
  intro answer inside
  rcases List.mem_append.mp inside with old | new
  · exact keeping.queued client answer old
  · exact promised answer new

/-- The end of a batch turns the replies of writes into promises. -/
theorem promised_of_ended {client : ClientId} {hasWrite : Bool} {replies : List Answer}
    {space : Keyspace} (ready : Ready world space) (mode : Always world)
    (pending : (LoopPhase.executing client hasWrite replies).Promises world)
    (ran : ifWrite hasWrite Database.endWalBatch world = (.ok (), after)) :
    (LoopPhase.asking client replies).Promises after := by
  intro answer inside write
  have counted := pending answer inside
  have ended : Database.endWalBatch world = (.ok (), after) := by
    rw [counted.2 write] at ran
    exact ran
  exact Database.endWalBatch_secures ready mode ended counted.1

theorem Step.keeping (step : Step machine observed later) (idle : Idle machine.world)
    (keeping : Keeping machine) : Keeping later := by
  have advanced := step.advanced idle
  have pending := keeping.pending
  rcases id idle with ⟨space, ready⟩
  cases step with
  | beginBatch client hasWrite free unlocked ran =>
      exact keeping.loops advanced rfl nofun
  | execute stats report command phase classified ran =>
      rw [phase] at pending
      refine keeping.loops advanced rfl ?_
      intro answer inside
      rcases List.mem_append.mp inside with old | new
      · have counted := pending answer old
        exact ⟨Nat.le_trans counted.1 (Database.records_length_le advanced.evolves), counted.2⟩
      · cases List.mem_singleton.mp new
        exact ⟨Nat.le_refl _, classified⟩
  | overflow stats report command phase ran ended =>
      exact keeping.outputs advanced rfl nofun trivial
  | crash => exact keeping.loops advanced rfl trivial
  | endBatch phase ran =>
      rw [phase] at pending
      exact keeping.loops advanced rfl (promised_of_ended ready keeping.mode pending ran)
  | endBatchFails => exact keeping.loops advanced rfl trivial
  | within phase capacity =>
      rw [phase] at pending
      exact keeping.answer advanced pending
  | beyond phase capacity =>
      rw [phase] at pending
      exact keeping.loops advanced rfl pending
  | wake phase capacity working =>
      rw [phase] at pending
      exact keeping.answer advanced pending
  | wakeFails => exact keeping.loops advanced rfl trivial
  | @send client answers rest free queue =>
      refine keeping.outputs advanced rfl ?_ pending
      intro answer inside
      refine keeping.queued client answer ?_
      rw [queue]
      exact List.mem_append_right answers inside
  | @sendPart client answer rest front back free queue split =>
      refine keeping.outputs advanced rfl ?_ pending
      intro other inside
      have queued := keeping.queued client
      rw [queue] at queued
      rcases List.mem_cons.mp inside with rfl | inside
      · exact queued answer List.mem_cons_self
      · exact queued other (List.mem_cons_of_mem _ inside)
  | complain client text free =>
      refine keeping.outputs advanced rfl ?_ pending
      intro answer inside
      rcases List.mem_append.mp inside with old | new
      · exact keeping.queued client answer old
      · cases List.mem_singleton.mp new
        exact nofun
  | disconnect client free =>
      exact keeping.outputs advanced rfl nofun pending
  | stop => exact keeping.loops advanced rfl trivial
  | need | noExpiry | expiry | beginReaping | reap | reaped | reapFails | keeperEndFails
  | enough | tooMany | beginEvicting | evict | evicted | evictFails | fail | quit | tick =>
      exact keeping.advances advanced rfl rfl

theorem Running.keeping (running : Running world machine) (idle : Idle world)
    (mode : Always world) : Keeping machine := by
  induction running with
  | start => exact ⟨mode, nofun, trivial⟩
  | step running step ih =>
      exact step.keeping (running.advanced idle).idle ih

/-- What is handed to a socket was in an output. -/
theorem Step.handed {answers : List Answer} (step : Step machine (.hands answers) later)
    (keeping : Keeping machine) : forall answer, answer ∈ answers ->
      Promised machine.world answer := by
  cases step with
  | @send client _ rest free queue =>
      intro answer inside
      refine keeping.queued client answer ?_
      rw [queue]
      exact List.mem_append_left rest inside
  | @sendPart client answer rest front back free queue split =>
      intro other inside
      cases List.mem_singleton.mp inside
      refine keeping.queued client answer ?_
      rw [queue]
      exact List.mem_cons_self

inductive Steps : Machine -> Machine -> Prop where
  | refl (machine : Machine) : Steps machine machine
  | step {first second third : Machine} {observed : Observation} (steps : Steps first second)
      (step : Step second observed third) : Steps first third

theorem Steps.advanced (steps : Steps machine later) (idle : Idle machine.world) :
    Advanced machine.world later.world := by
  induction steps with
  | refl => exact Advanced.refl idle
  | step steps step ih =>
      exact ih.trans (step.advanced ih.idle)

/-- The log of the start and the log of a later state. -/
theorem Steps.wal {wal : Wal} (steps : Steps machine later) (idle : Idle machine.world)
    (present : machine.world.wal = some wal) :
    exists last, later.world.wal = some last ∧ Wal.Evolves wal last := by
  have related := (steps.advanced idle).evolves.wal
  rw [present] at related
  cases found : later.world.wal with
  | none =>
      rw [found] at related
      cases related
  | some last =>
      rw [found] at related
      cases related with
      | some evolves => exact ⟨last, rfl, evolves⟩

/-- Whatever the threads do in whatever order and whatever fails: a reply to a
write is handed to a socket only after its records and all earlier ones are
durable; the bytes in the file are the start of the magic number and whole frames;
and between two states a failure of a call leaves a log that has failed, which
rejects every append and flush and keeps its bytes for good. -/
theorem acknowledged_durable (reachable : Database.Reachable world) (always : Always world)
    (running : Running world machine) :
    (forall answers later, Step machine (.hands answers) later ->
      forall answer, answer ∈ answers -> answer.write = true ->
        Secured machine.world answer.mark) ∧
    forall wal, machine.world.wal = some wal ->
      (exists extra : List Wal.Record, extra.length ≤ 1 ∧
        wal.stream.handed <+: Wal.magic ++ Wal.frames (wal.appended ++ extra)) ∧
      (forall later, Steps machine later -> exists last skipped, later.world.wal = some last ∧
        (forall n, last.io n = wal.io (n + skipped)) ∧
        (Wal.Fails wal skipped -> last.failed = true)) ∧
      (wal.failed = true ->
        (forall record, (Wal.append record wal).1 = .error (.error .diskWriteFailed)) ∧
        (Wal.flush wal).1 = .error (.error .diskWriteFailed) ∧
        forall later, Steps machine later -> exists last, later.world.wal = some last ∧
          last.failed = true ∧ last.stream = wal.stream ∧ last.appended = wal.appended) := by
  have idle := (running.advanced reachable.idle).idle
  have keeping := running.keeping reachable.idle always
  refine ⟨fun answers later step => step.handed keeping, ?_⟩
  intro wal present
  rcases id idle with ⟨space, ready⟩
  have sound := ready.sound wal present
  refine ⟨sound.framed, ?_, ?_⟩
  · intro later steps
    rcases steps.wal idle present with ⟨last, found, evolves⟩
    rcases evolves.io with ⟨skipped, shift, noticed⟩
    exact ⟨last, skipped, found, shift, noticed⟩
  · intro failed
    have rejects := Wal.failed_rejects sound failed
    refine ⟨fun record => (rejects record).1, (rejects ⟨0, []⟩).2, ?_⟩
    intro later steps
    rcases steps.wal idle present with ⟨last, found, evolves⟩
    have stuck := evolves.sticky failed
    exact ⟨last, found, stuck.1, stuck.2.2, stuck.2.1⟩

/-- A new database with a new log. -/
def logged : World :=
  ((Database.Call.openWal (Database.undisturbed [])).perform Database.calm).2

theorem reachable_logged : Database.Reachable logged :=
  @Database.Reachable.call Database.calm logged _ (Database.Reachable.start ..)
    (.openWal (Database.undisturbed [])) rfl

theorem always_logged : Always logged := by
  have mode : logged.wal.map Wal.sync = some .always := by decide +kernel
  intro wal present
  rw [present] at mode
  exact Option.some.inj mode

/-- The server after a batch with `INCR a`. -/
def answered : Machine :=
  { Machine.incremented [97] logged with
    loop := .returned
    output := Function.update (fun _ => []) 0 [incremented [97] logged] }

theorem running_answered : Running logged answered :=
  (running_incremented (by decide +kernel) (by decide +kernel) (by decide +kernel)).step
    (.within rfl (by decide +kernel))

/-- The reply to `INCR a` is sent after its record is durable. -/
theorem acknowledged_durable_incr :
    Running logged answered ∧ (exists later, Step answered (.hands [incremented [97] logged]) later) ∧
      (incremented [97] logged).write = true ∧ (incremented [97] logged).mark = 1 ∧
      Secured answered.world (incremented [97] logged).mark := by
  have sends := @Step.send answered 0 [incremented [97] logged] [] trivial rfl
  refine ⟨running_answered, ⟨_, sends⟩, rfl, by decide +kernel, ?_⟩
  exact (acknowledged_durable reachable_logged always_logged running_answered).1 _ _ sends
    _ (List.mem_singleton_self _) rfl

end Server

end Reddish
