import Reddish.Wal.Reading
import Reddish.Database.Undated
import Reddish.Database.Eviction
import Reddish.Database.Transparency

namespace Reddish

open Library Numeral

/-!
# Opening any file

Records are applied to the database while the file is still being read, so that
a file that turns out to be unreadable has changed the database already.  If
nothing else goes wrong, `open_wal` then throws what the reader threw and leaves
an empty database behind that cannot be told from a new one.
-/

/-! ## The constructor of the log -/

namespace Wal

/-- Neither opening a log nor using it will fail. -/
structure Opening.Works (opening : Opening) : Prop where
  opens : opening.opens = true
  reads : opening.readLimit = none
  truncates : opening.truncates = true
  buffers : opening.buffers = true
  directory : opening.directory = true
  starts : opening.starts = true
  io : forall n progress, opening.io n ≠ .failed progress
  reserve : forall n, opening.reserveFails n = false

variable {σ : Type} {opening : Opening} {replay : Replay σ} {s t : σ} {valid : Nat} {left : Bytes}

theorem writeMagic_total (works : opening.Works) (empty : recordsOf opening.file = []) :
    writeMagic.wp (fun _ after => Healthy after) (fun _ _ => False) (attached opening 0 []) := by
  have quiet : writeMagic.wp (fun _ after => after.failed = false ∧
      (forall n progress, after.io n ≠ .failed progress) ∧
      forall n, after.reserveFails n = false) (fun _ _ => False) (attached opening 0 []) := by
    unfold writeMagic
    refine wp_ioCall ?_ ?_
    · exact fun progress fails => absurd fails (works.io 0 progress)
    · exact fun progress _ => ⟨rfl, fun n => works.io (n + 1), works.reserve⟩
  refine Cmd.wp_mono (Cmd.wp_and (writeMagic_spec empty) quiet) ?_ (fun _ _ never => never.2)
  rintro _ after ⟨started, working, io, reserve⟩
  exact ⟨started.sound, working, io, reserve⟩

/-- A log whose file could be read can be used. -/
theorem initialise_total (works : opening.Works)
    (ran : recover opening.file replay s = (.ok (valid, left), t)) :
    (initialise opening valid).wp (fun _ after => Healthy after) (fun _ _ => False)
      (attached opening valid left) := by
  have finish : forall wal, Healthy wal ->
      (Cmd.require (opening.starts = true) (Exn.error .diskWriteFailed) : Cmd Exn Wal Unit).wp
        (fun _ after => Healthy after) (fun _ _ => False) wal :=
    fun wal healthy => Cmd.wp_require (fun _ => healthy) fun stuck => stuck works.starts
  unfold initialise
  rw [Cmd.wp_bind]
  rcases recover_sound ran with ⟨nothing, rfl, rfl, -⟩ | ⟨records, kept, length, -, -, -, -⟩
  · refine Cmd.wp_onlyIf (fun _ => ?_) (fun impossible => absurd rfl impossible)
    have empty : recordsOf opening.file = [] := by
      rw [nothing]
      rfl
    refine Cmd.wp_step (writeMagic_total works empty) ?_ (fun _ _ never => never)
    intro _ written healthy
    refine Cmd.wp_step (flushLocked_spec healthy.sound) ?_ ?_
    · rintro _ flushed ⟨sound, quiet, -, -⟩
      have still := healthy.evolves sound quiet.toEvolves
      refine Cmd.wp_onlyIf (fun _ => ?_) (fun _ => finish flushed still)
      exact Cmd.wp_require (fun _ => finish flushed still) (fun fails => fails works.directory)
    · rintro thrown failed ⟨sound, quiet, -, broken⟩
      rw [(healthy.evolves sound quiet.toEvolves).working] at broken
      cases broken
  · have positive : valid ≠ 0 := by
      rw [length, kept, List.length_append, length_magic]
      omega
    refine Cmd.wp_onlyIf (fun impossible => absurd impossible positive) (fun _ => ?_)
    have spec := initialise_spec ran
    unfold initialise at spec
    rw [Cmd.wp_bind, Cmd.onlyIf, if_neg positive, Cmd.wp_pure] at spec
    have started : Started opening (attached opening valid left) := by
      unfold Cmd.require at spec
      rw [if_pos works.starts] at spec
      exact spec
    exact finish _ ⟨started.sound, rfl, works.io, works.reserve⟩

/-- The constructor throws what the reader throws, and nothing else. -/
theorem construct_total (works : opening.Works) :
    (construct opening replay).wp
      (fun wal after => Healthy wal ∧ exists outcome,
        recover opening.file replay s = (.ok outcome, after))
      (fun thrown after => recover opening.file replay s = (.error thrown, after)) s := by
  unfold construct
  rw [Cmd.wp_bind]
  refine Cmd.wp_require (fun _ => ?_) (fun closed => absurd works.opens closed)
  rw [Cmd.wp_bind, works.reads]
  unfold readLog
  rw [Cmd.wp_bind]
  have read : (recover opening.file replay).wp
      (fun outcome after => recover opening.file replay s = (.ok outcome, after))
      (fun thrown after => recover opening.file replay s = (.error thrown, after)) s := by
    unfold Cmd.wp
    rcases recover opening.file replay s with ⟨thrown | outcome, after⟩
    · rfl
    · rfl
  refine Cmd.wp_mono read ?_ (fun _ _ failed => failed)
  rintro ⟨valid, left⟩ after ran
  rw [Cmd.wp_bind]
  refine Cmd.wp_require (fun _ => ?_) (fun fails => absurd (Or.inr works.truncates) fails)
  rw [Cmd.wp_pure, Cmd.wp_bind]
  refine Cmd.wp_require (fun _ => ?_) (fun fails => absurd works.buffers fails)
  have usable := initialise_total works ran
  unfold Cmd.wp at usable
  unfold Cmd.lift Cmd.wp
  rcases outcome : initialise opening valid (attached opening valid left) with ⟨thrown | _, wal⟩
  · rw [outcome] at usable
    exact usable.elim
  · rw [outcome] at usable
    exact ⟨usable, _, ran⟩

end Wal

/-! ## The replay -/

namespace Spec

variable {now time : Int64} {limit : Nat} {space rest : Keyspace} {keys : List Bytes}

/-- Removing due keys removes nothing that can be seen from then on. -/
theorem Reaps.looksLike (reaps : Reaps now limit space keys rest) (later : now ≤ time) :
    LooksLike time rest space := by
  induction reaps with
  | full | done => exact fun _ => rfl
  | @next limit space rest keys key entry moment found deadline due earliest more
      ih =>
      refine ih.trans ?_
      intro probe
      rw [visible, visible, Keyspace.find_erase]
      by_cases same : probe = key
      · have expired : expired (some time) entry = true :=
          expired_iff.mpr ⟨moment, deadline, Int64.le_trans due later⟩
        rw [if_pos same, same, found]
        simp [Option.filter, expired]
      · rw [if_neg same]

end Spec

namespace Database

open World (Healthy)

variable {world after first second : World} {space : Keyspace} {opening : Wal.Opening}

/-- A database into which a log is being read, with memory for it. -/
structure Replayer (world : World) (space : Keyspace) : Prop where
  ready : Ready world space
  replaying : world.db.replaying = true
  detached : world.wal = none
  memory : world.Plentiful

/-- What the failed replay of a file has left. -/
structure Interrupted (world : World) : Prop where
  idle : Idle world
  detached : world.wal = none
  memory : world.Plentiful

theorem Replayer.frame (replayer : Replayer world space) (record : Wal.Record) :
    (replayFrame record).wp
      (fun _ after => exists later, Spec.replay (restamp world) record space = some later ∧
        Replayer after later ∧ (after.steady, after.wall) = clocksAfter record world)
      (fun _ after => Spec.replay (restamp world) record space = none ∧ Interrupted after)
      world := by
  refine Cmd.wp_mono (Cmd.wp_and (replays_replayFrame record replayer.ready replayer.replaying)
    (Cmd.wp_and ((keeps_replayFrame record).idle ⟨space, replayer.ready⟩)
      (replayFrame_clocks record replayer.replaying))) ?_ ?_
  · rintro _ after ⟨⟨later, meaning, applied⟩, -, spent, clocks⟩
    exact ⟨later, meaning, ⟨applied.ready, spent.replaying, spent.detached replayer.detached,
      spent.memory replayer.memory⟩, clocks⟩
  · rintro thrown after ⟨meaningless, idle, spent⟩
    exact ⟨meaningless replayer.memory, idle, spent.detached replayer.detached,
      spent.memory replayer.memory⟩

/-- A record reads the clock forward. -/
theorem reads_of_clocksAfter {record : Wal.Record} {now : Int64}
    (clocks : (after.steady, after.wall) = clocksAfter record world) (reads : after.Reads now) :
    world.Reads now := by
  rcases reads with ⟨n, reading⟩
  unfold clocksAfter at clocks
  split at clocks
  · rw [(Prod.mk.inj clocks).1] at reading
    exact ⟨n + 1, reading⟩
  · rw [(Prod.mk.inj clocks).1] at reading
    exact ⟨n, reading⟩

/-- A file is replayed completely, or up to a record that has no meaning. -/
theorem Replayer.file (replayer : Replayer world space) (file : Bytes) :
    (Wal.recover file replayFrame).wp
      (fun _ after => (exists later, Replayer after later) ∧
        forall now, after.Reads now -> world.Reads now)
      (fun _ after => Interrupted after) world := by
  refine @Wal.recover_invariant _ replayFrame (fun after => (exists later, Replayer after later) ∧
    forall now, after.Reads now -> world.Reads now) Interrupted ?_ ?_ file world
    ⟨⟨space, replayer⟩, fun _ reads => reads⟩
  · rintro later ⟨⟨space, replayer⟩, -⟩
    exact ⟨⟨space, replayer.ready⟩, replayer.detached, replayer.memory⟩
  · rintro record middle ⟨⟨space, replayer⟩, forward⟩
    refine Cmd.wp_mono (replayer.frame record) ?_ (fun _ _ failed => failed.2)
    rintro _ after ⟨later, -, replayer, clocks⟩
    exact ⟨⟨later, replayer⟩, fun now reads => forward now (reads_of_clocksAfter clocks reads)⟩

/-- Two databases with the same keys at the same time, whose nodes may lie at
different addresses. -/
def Twins (first second : World) : Prop :=
  exists space, Replayer first space ∧ Replayer second space ∧ first.steady = second.steady ∧
    first.wall = second.wall

/-- What a record does depends on the keys and on the time only. -/
theorem Twins.frame (twins : Twins first second) (record : Wal.Record) :
    Wal.Together Twins (replayFrame record first) (replayFrame record second) := by
  rcases twins with ⟨space, one, two, steady, wall⟩
  have stamps : restamp second = restamp first := by
    funext stamp
    rw [restamp, restamp, steady, wall]
  have clocks : clocksAfter record second = clocksAfter record first := by
    rw [clocksAfter, clocksAfter, steady, wall]
  have left := one.frame record
  have right := two.frame record
  rw [stamps, clocks] at right
  unfold Cmd.wp at left right
  rcases ran : replayFrame record first with ⟨thrown | _, after⟩
  · rw [ran] at left
    rcases ranToo : replayFrame record second with ⟨other | _, last⟩
    · exact Or.inr ⟨_, _, _, _, rfl, rfl⟩
    · rw [ranToo] at right
      rcases right with ⟨later, meaning, -⟩
      rw [left.1] at meaning
      cases meaning
  · rw [ran] at left
    rcases left with ⟨later, meaning, one, clocks⟩
    rcases ranToo : replayFrame record second with ⟨other | _, last⟩
    · rw [ranToo, meaning] at right
      cases right.1
    · rw [ranToo, meaning] at right
      rcases right with ⟨other, equal, two, same⟩
      cases equal
      rw [<- clocks] at same
      rcases Prod.mk.inj same with ⟨steady, wall⟩
      exact Or.inl ⟨(), after, last, rfl, rfl, later, one, two, steady.symm, wall.symm⟩

/-! ## The database after a failure -/

/-- A database without keys and without a log, as `clear_keyspace` leaves it: no
index has an entry, and no byte is tracked. -/
structure Emptied (world : World) : Prop where
  keyTotal : world.db.keyTotal = 0
  keyHint : world.db.keyHint = 0
  buckets : forall bucket, bucket ∈ world.db.buckets -> bucket = []
  head : world.db.lru.head = none
  tail : world.db.lru.tail = none
  expiries : world.db.expiries = IndexedHeap.empty
  ttlKeyCount : world.db.ttlKeyCount = 0
  ttlHint : world.db.ttlHint = false
  trackedBytes : world.db.trackedBytes = 0
  replaying : world.db.replaying = false
  wal : world.wal = none

/-- The state in which the reader of the file starts. -/
def recovering (world : World) : World :=
  (allocate (replayStart world)).2

/-- The state that the handler of `open_wal` makes of a failed replay. -/
def discarded (failed : World) : World :=
  { failed with db := Db.clearKeyspace { failed.db with replaying := false } }

theorem Interrupted.emptied (interrupted : Interrupted world) :
    Emptied (discarded world) ∧ Ready (discarded world) [] := by
  have stopped : Idle { world with db := { world.db with replaying := false } } :=
    interrupted.idle.setReplaying
  rcases stopped with ⟨space, ready⟩
  refine ⟨⟨rfl, rfl, ?_, rfl, rfl, rfl, rfl, rfl, ready.rep.clearKeyspace.2,
    replaying_clearKeyspace _, interrupted.detached⟩, ready.rep.clearKeyspace.1, ready.sound⟩
  intro bucket inside
  exact (List.mem_replicate.mp inside).2

/-- A database into which a log can be read. -/
structure Blank (world : World) : Prop where
  ready : Ready world []
  detached : world.wal = none
  memory : world.Plentiful

theorem Blank.keyTotal (blank : Blank world) : world.db.keyTotal = 0 := by
  rw [blank.ready.rep.length]
  rfl

theorem Blank.begins (blank : Blank world) :
    Replayer (recovering world) [] ∧ (recovering world).steady = world.steady ∧
      (recovering world).wall = world.wall ∧
      exists garbage, allocate (replayStart world) = (.ok garbage, recovering world) := by
  have begun : Ready (replayStart world) [] := blank.ready.setReplaying
  have undated := timeless_allocate (replayStart world) rfl
  have enough : allocate.wp (fun _ _ => True) (fun _ _ => False) (replayStart world) :=
    wp_allocate (fun fails => blank.memory 0 fails) (fun _ _ => trivial)
  have allocated : allocate.wp (fun _ later => Ready later []) (fun _ _ => False)
      (replayStart world) := by
    refine Cmd.wp_mono (Cmd.wp_and (@allocate_spec _ _ _ _ _ False begun.reached) enough) ?_
      (fun _ _ never => never.2)
    rintro _ later ⟨⟨reached, -, -⟩, -⟩
    exact reached.ready
  unfold Cmd.wp at allocated
  rcases ran : allocate (replayStart world) with ⟨thrown | garbage, later⟩
  · rw [ran] at allocated
    exact allocated.elim
  · rw [ran] at allocated undated
    have same : recovering world = later := by rw [recovering, ran]
    rw [same]
    exact ⟨⟨allocated, undated.replaying, undated.detached blank.detached,
      undated.memory blank.memory⟩, undated.steady, undated.wall, garbage, rfl⟩

/-- The world in which `open_wal` removes the due keys. -/
def attachedTo (wal : Wal) (loaded : World) : World :=
  { loaded with wal := some wal, db := { loaded.db with replaying := false } }

/-- `open_wal` throws what the reader throws, or goes on with a working log. -/
theorem Blank.opens (blank : Blank world) (works : opening.Works) :
    (exists outcome loaded wal, Wal.recover opening.file replayFrame (recovering world) =
        (.ok outcome, loaded) ∧ Wal.Healthy wal ∧
        openWal opening world = removeExpiredLocked noExpiryLimit (attachedTo wal loaded)) ∨
      exists thrown failed, Wal.recover opening.file replayFrame (recovering world) =
        (.error thrown, failed) ∧ openWal opening world = (.error thrown, discarded failed) := by
  rcases blank.begins with ⟨-, -, -, garbage, allocated⟩
  have built := @Wal.construct_total _ opening replayFrame (recovering world) works
  rw [openWal_eq blank.detached blank.keyTotal]
  change (exists outcome loaded wal, _ ∧ _ ∧
    Cmd.bind (constructWal opening) _ (replayStart world) = _) ∨
    exists thrown failed, _ ∧ Cmd.bind (constructWal opening) _ (replayStart world) = _
  have body : (allocate >>= fun _ => Wal.construct opening replayFrame)
      (replayStart world) = Wal.construct opening replayFrame (recovering world) := by
    change Cmd.bind allocate _ (replayStart world) = _
    rw [Cmd.bind, allocated]
  unfold Cmd.bind constructWal Cmd.handle
  rw [body]
  unfold Cmd.wp at built
  rcases constructed : Wal.construct opening replayFrame (recovering world) with
    ⟨thrown | wal, later⟩
  · rw [constructed] at built
    exact Or.inr ⟨thrown, later, built, rfl⟩
  · rw [constructed] at built
    rcases built with ⟨healthy, outcome, read⟩
    exact Or.inl ⟨outcome, later, wal, read, healthy, rfl⟩

theorem Replayer.attached (replayer : Replayer world space) {wal : Wal} (healthy : Wal.Healthy wal) :
    Ready (attachedTo wal world) space ∧ Healthy (attachedTo wal world) := by
  have attached : Ready { world with wal := some wal } space := by
    refine ⟨replayer.ready.rep, ?_⟩
    rintro other equal
    cases equal
    exact healthy.sound
  refine ⟨attached.setReplaying, replayer.memory, ?_⟩
  rintro other equal
  cases equal
  exact healthy

/-- The due keys are removed at the first reading, and the log stays. -/
theorem removeDue_attached (ready : Ready world space) (healthy : Healthy world)
    (attached : world.wal.isSome = true) :
    exists after keys later, removeExpiredLocked noExpiryLimit world = (.ok (), after) ∧
      Spec.Reaps (world.steady.reading 0) noExpiryLimit space keys later ∧ Ready after later ∧
      after.wal.isSome = true ∧ after.db.replaying = world.db.replaying := by
  have spec : (removeExpiredLocked noExpiryLimit).wp
      (fun _ after => exists keys later,
        Spec.Reaps (world.steady.reading 0) noExpiryLimit space keys later ∧
        Reached world after [] later (Spec.deletions keys)) (fun _ _ => True) world := by
    unfold removeExpiredLocked
    refine Cmd.wp_step (nowMs_spec ready.reached) ?_ (fun _ _ never => never.elim)
    rintro now clocked ⟨-, rfl, reached, -, -⟩
    exact Cmd.wp_mono (reapBatch_spec reached _ noExpiryLimit) (fun _ _ done => done)
      (fun _ _ _ => trivial)
  have both := Cmd.wp_and spec (removeExpiredLocked_total ready healthy noExpiryLimit)
  unfold Cmd.wp at both
  rcases ran : removeExpiredLocked noExpiryLimit world with ⟨thrown | _, after⟩
  · rw [ran] at both
    exact both.2.elim
  · rw [ran] at both
    rcases both with ⟨⟨keys, later, reaps, reached⟩, -⟩
    refine ⟨after, keys, later, rfl, reaps, reached.ready, ?_, reached.evolves.replaying⟩
    have wal := reached.evolves.wal
    rcases Option.isSome_iff_exists.mp attached with ⟨log, here⟩
    rw [here] at wal
    cases there : after.wal with
    | none =>
        rw [there] at wal
        cases wal
    | some log => rfl

/-- The log file after `open_wal` has read it; only a torn tail is cut off. -/
def fileLeft (opening : Wal.Opening) (world : World) : Bytes :=
  Wal.fileAfter opening.file
    (Wal.recover opening.file replayFrame (recovering world)).1

/-- Two empty databases at the same time read the same log in the same way. -/
theorem Blank.alike (one : Blank first) (two : Blank second) (steady : first.steady = second.steady)
    (wall : first.wall = second.wall) (works : opening.Works)
    (accepted : (openWal opening second).1 = .ok ()) :
    (openWal opening first).1 = .ok () ∧
      exists now, second.Reads now ∧ forall time, now ≤ time -> forall key,
        seen time (openWal opening first).2 key = seen time (openWal opening second).2 key := by
  rcases one.begins with ⟨left, leftSteady, leftWall, -⟩
  rcases two.begins with ⟨right, rightSteady, rightWall, -⟩
  have twins : Twins (recovering first) (recovering second) :=
    ⟨[], left, right, by rw [leftSteady, rightSteady, steady], by rw [leftWall, rightWall, wall]⟩
  have together := Wal.recover_together (fun record s t twins => Twins.frame twins record)
    opening.file twins
  rcases two.opens works with ⟨outcome, loaded, wal, read, healthy, opened⟩ | ⟨_, _, _, failed⟩
  · rcases together with ⟨value, early, late, readFirst, readSecond, space, ready, readyToo,
      sameSteady, -⟩ |
      ⟨_, _, _, _, -, fails⟩
    · rcases one.opens works with ⟨_, _, log, readToo, healthyToo, openedToo⟩ | ⟨_, _, fails, -⟩
      · rw [readFirst] at readToo
        cases readToo
        rw [readSecond] at read
        cases read
        rcases ready.attached healthyToo with ⟨live, working⟩
        rcases readyToo.attached healthy with ⟨liveToo, workingToo⟩
        rcases removeDue_attached live working rfl with
          ⟨after, keys, later, removed, reaps, done, -, -⟩
        rcases removeDue_attached liveToo workingToo rfl with
          ⟨last, others, rest, removedToo, reapsToo, doneToo, -, -⟩
        have forward := Cmd.of_wp_ok (right.file opening.file) readSecond
        have shown : second.Reads (loaded.steady.reading 0) := by
          rcases forward.2 _ ⟨0, rfl⟩ with ⟨n, reading⟩
          rw [rightSteady] at reading
          exact ⟨n, reading⟩
        have sameReading : (attachedTo log early).steady.reading 0 = loaded.steady.reading 0 := by
          rw [<- sameSteady]
          rfl
        rw [sameReading] at reaps
        rw [openedToo, removed, opened, removedToo]
        refine ⟨rfl, _, shown, fun time later key => ?_⟩
        rw [seen, seen, <- done.rep.find_eq, <- doneToo.rep.find_eq]
        exact (reaps.looksLike later).trans (reapsToo.looksLike later).symm key
      · rw [readFirst] at fails
        cases fails
    · rw [read] at fails
      cases fails
  · rw [failed] at accepted
    cases accepted

/-- Reading stays inside the payloads of a file, and opening the file succeeds or
throws what the reader threw.  In the latter case the database is empty, the
file is as it was, and any log that a new database can open is opened with the
same keys. -/
theorem openWal_clean (reachable : Reachable world) (empty : world.db.keyTotal = 0)
    (detached : world.wal = none) (memory : world.Plentiful) (works : opening.Works) :
    (forall payload : Bytes, 2 ≤ payload.length -> payload.length ≤ Wal.maxRecord ->
      Wal.scanPayload payload = some (Wal.decodePayload payload)) ∧
    (((openWal opening world).1 = .ok () ∧ (openWal opening world).2.wal.isSome = true ∧
        (openWal opening world).2.db.replaying = false) ∨
      exists thrown, (openWal opening world).1 = .error thrown ∧
        (Wal.recover opening.file replayFrame (recovering world)).1 = .error thrown ∧
        fileLeft opening world = opening.file ∧ Emptied (openWal opening world).2 ∧
        forall (again : Wal.Opening) (maxKeys : Nat) (allocations : Nat -> Option (Nat -> UInt8))
          (orders : Nat -> TableOrder), again.Works -> (forall n, allocations n ≠ none) ->
          (openWal again (fresh maxKeys (openWal opening world).2.steady
            (openWal opening world).2.wall allocations orders)).1 = .ok () ->
          (openWal again (openWal opening world).2).1 = .ok () ∧
          exists now, (openWal opening world).2.Reads now ∧ forall time, now ≤ time -> forall key,
            seen time (openWal again (openWal opening world).2).2 key =
              seen time (openWal again (fresh maxKeys (openWal opening world).2.steady
                (openWal opening world).2.wall allocations orders)).2 key) := by
  refine ⟨fun payload header small => Wal.scanPayload_eq header
    (Nat.lt_of_le_of_lt small (by decide)), ?_⟩
  rcases reachable.idle with ⟨space, ready⟩
  have nothing : space = [] := by
    rw [ready.rep.length] at empty
    exact List.eq_nil_of_length_eq_zero empty
  rw [nothing] at ready
  have blank : Blank world := ⟨ready, detached, memory⟩
  have read := blank.begins.1.file opening.file
  rcases blank.opens works with ⟨outcome, loaded, wal, recovered, healthy, opened⟩ |
    ⟨thrown, failed, recovered, opened⟩
  · have replayed := (Cmd.of_wp_ok read recovered).1
    rcases replayed with ⟨later, replayer⟩
    rcases replayer.attached healthy with ⟨live, working⟩
    rcases removeDue_attached live working rfl with ⟨after, -, -, removed, -, -, attached, off⟩
    rw [opened, removed]
    exact Or.inl ⟨rfl, attached, off⟩
  · have interrupted : Interrupted failed := Cmd.of_wp_error read recovered
    have emptied := interrupted.emptied
    have left : fileLeft opening world = opening.file := by
      rw [fileLeft, recovered]
      rfl
    refine Or.inr ⟨thrown, by rw [opened], by rw [recovered], left,
      by rw [opened]; exact emptied.1, ?_⟩
    rw [opened]
    intro again maxKeys allocations orders worksAgain plenty accepted
    have one : Blank (discarded failed) :=
      ⟨emptied.2, interrupted.detached, interrupted.memory⟩
    have two : Blank (fresh maxKeys (discarded failed).steady (discarded failed).wall allocations
        orders) :=
      ⟨⟨rep_empty maxKeys, nofun⟩, rfl, plenty⟩
    rcases one.alike two rfl rfl worksAgain accepted with ⟨opens, now, reads, same⟩
    exact ⟨opens, now, reads, same⟩

/-- A file on a disk that does what it is asked for. -/
def undisturbed (file : Bytes) : Wal.Opening where
  file := file
  sync := .always
  opens := true
  readLimit := none
  truncates := true
  buffers := true
  directory := true
  starts := true
  capacity := 0
  io := fun _ => .done 0
  reserveFails := fun _ => false
  ticks := fun _ => 0

theorem works_undisturbed (file : Bytes) : (undisturbed file).Works :=
  ⟨rfl, rfl, rfl, rfl, rfl, rfl, fun _ _ failed => (by cases failed), fun _ => rfl⟩

/-- A log of which the last record pushes onto a text. -/
def contradictory : Bytes :=
  Wal.magic ++ Wal.frames [Spec.record .set [[97], [98]], Spec.record (.push true) [[97], [99]]]

/-- The same log without its last record. -/
def repaired : Bytes :=
  Wal.magic ++ Wal.frames [Spec.record .set [[97], [98]]]

/-- The replay fails at the second record, when the first one has been replayed, and
the database can open another log afterwards. -/
theorem openWal_clean_contradictory :
    (Wal.recover contradictory replayFrame (recovering calm)).2.db.keyTotal = 1 ∧
      (openWal (undisturbed contradictory) calm).1 = .error (.error .diskReadFailed) ∧
      Emptied (openWal (undisturbed contradictory) calm).2 ∧
      (openWal (undisturbed repaired) (openWal (undisturbed contradictory) calm).2).1 = .ok () := by
  have refused : (openWal (undisturbed contradictory) calm).1 = .error (.error .diskReadFailed) := by
    decide +kernel
  have reachable : Reachable calm := Reachable.start ..
  have plenty : calm.Plentiful := fun _ => Option.some_ne_none _
  refine ⟨by decide +kernel, refused, ?_⟩
  rcases (openWal_clean reachable rfl rfl plenty (works_undisturbed contradictory)).2 with
    ⟨opened, -, -⟩ | ⟨thrown, -, -, -, emptied, again⟩
  · rw [refused] at opened
    cases opened
  · refine ⟨emptied, (again _ 1 calm.allocations calm.orders (works_undisturbed repaired) plenty ?_).1⟩
    decide +kernel

end Database

end Reddish
