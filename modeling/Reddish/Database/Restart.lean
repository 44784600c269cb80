import Reddish.Database.Snapshot
import Reddish.Database.Opening
import Reddish.Database.Maintenance

namespace Reddish

open Library Numeral

/-!
# Restarts

The log of a running database tells the database: replaying it from nothing
gives the keys that are there, with their values, and deadlines at the same
keys.  This holds after any calls, among them removals, evictions and
compactions, calls that threw, and the opening itself.  So a process that opens
what the last one has written finds the database again; what is written may have
been cut off anywhere, and then it finds what the complete records tell.
-/

/-! ## Reading a file -/

namespace Wal

variable {σ : Type} {opening : Opening} {replay : Replay σ} {s t : σ}

/-- A log that was constructed has read its file to the end. -/
theorem construct_reads :
    (construct opening replay).wp
      (fun wal after => Started opening wal ∧
        exists outcome, recover opening.file replay s = (.ok outcome, after))
      (fun _ _ => True) s := by
  have anything : forall record s, True ->
      (replay record).wp (fun _ _ => True) (fun _ _ => True) s :=
    fun _ _ _ => Cmd.wp_of_forall (fun _ _ => trivial) (fun _ _ => trivial)
  have started := @construct_spec σ replay (fun _ => True) (fun _ => True) (fun _ _ => trivial)
    anything opening s trivial
  have reads : (construct opening replay).wp
      (fun _ after => exists outcome, recover opening.file replay s = (.ok outcome, after))
      (fun _ _ => True) s := by
    unfold construct
    rw [Cmd.wp_bind]
    refine Cmd.wp_require (fun _ => ?_) (fun _ => trivial)
    refine Cmd.wp_step (@readLog_invariant σ replay (fun _ => True) (fun _ => True)
      (fun _ _ => trivial) anything _ _ _ s trivial) ?_ (fun _ _ _ => trivial)
    rintro ⟨valid, left⟩ after ⟨-, ran⟩
    rw [Cmd.wp_bind]
    refine Cmd.wp_require (fun _ => ?_) (fun _ => trivial)
    unfold Cmd.lift Cmd.wp
    rcases outcome : initialise opening valid (attached opening valid left) with ⟨thrown | _, wal⟩
    · exact trivial
    · exact ⟨_, ran⟩
  refine Cmd.wp_mono (Cmd.wp_and started reads) ?_ (fun _ _ _ => trivial)
  rintro wal after ⟨⟨-, started⟩, read⟩
  exact ⟨started, read⟩

/-- A file is read record by record. -/
theorem recover_forEach {file : Bytes} {outcome : Nat × Bytes}
    (ran : recover file replay s = (.ok outcome, t)) :
    Cmd.forEach (recordsOf file) replay s = (.ok (), t) := by
  rcases recover_sound ran with ⟨rfl, -, -, rfl⟩ | ⟨records, -, -, -, -, replayed, rfl⟩
  · rfl
  · exact replayed

end Wal

namespace Spec

variable {now : Int64} {limit : Nat} {space rest live replica : Keyspace} {keys : List Bytes}
variable {restamp : Int64 -> Int64}

/-- What a restart makes of an entry: the same key and value, with a deadline if
there was one; only an entry with a deadline may be gone. -/
def Restored (before after : Option Entry) : Prop :=
  Option.Rel Alike before after ∨
    after = none ∧ exists entry, before = some entry ∧ entry.deadline.isSome = true

/-- Only keys with a deadline are removed for their age. -/
theorem Reaps.restored (reaps : Reaps now limit space keys rest) (key : Bytes) :
    Restored (space.find key) (rest.find key) := by
  induction reaps with
  | full | done => exact Or.inl (alike_refl _)
  | @next limit space rest keys other entry moment found deadline due earliest more
      ih =>
      rw [Keyspace.find_erase] at ih
      by_cases same : key = other
      · rw [if_pos same] at ih
        rw [same, found]
        refine Or.inr ⟨?_, entry, rfl, by rw [deadline]; rfl⟩
        rw [same] at ih
        rcases ih with alike | ⟨gone, -⟩
        · generalize rest.find other = left at alike
          cases alike
          rfl
        · exact gone
      · rw [if_neg same] at ih
        exact ih

theorem alike_symm {left right : Option Entry} (alike : Option.Rel Alike left right) :
    Option.Rel Alike right left := by
  cases alike with
  | none => exact .none
  | some alike => exact .some ⟨alike.key.symm, alike.value.symm, alike.dated.symm⟩

theorem Restored.of_alike {before middle after : Option Entry}
    (alike : Option.Rel Alike before middle)
    (restored : Restored middle after) : Restored before after := by
  rcases restored with same | ⟨gone, entry, rfl, dated⟩
  · exact Or.inl (alike_trans alike same)
  · cases alike with
    | some alike => exact Or.inr ⟨gone, _, rfl, by rw [alike.dated]; exact dated⟩

/-- What can be replayed can be replayed up to any record. -/
theorem replayAll_left {first second : List Wal.Record} {last : Keyspace}
    (replayed : replayAll restamp (first ++ second) space = some last) :
    exists middle, replayAll restamp first space = some middle := by
  unfold replayAll at replayed ⊢
  rw [List.foldlM_append] at replayed
  rcases Option.bind_eq_some_iff.mp replayed with ⟨middle, begun, -⟩
  exact ⟨middle, begun⟩

end Spec

namespace Database

open World (Healthy)

variable {world after other : World} {space later : Keyspace} {opening : Wal.Opening}
variable {records : List Wal.Record} {thrown : Exn} {key : Bytes} {call : Call}

/-- The database takes every record as its replica does, or throws where the
replica has no meaning. -/
theorem forEach_replayFrame (records : List Wal.Record) :
    forall (world : World) (space replica : Keyspace), Ready world space ->
      world.db.replaying = true -> Spec.Mirrors space replica ->
      (Cmd.forEach records replayFrame).wp
        (fun _ after => Spent world after ∧ exists later, Ready after later ∧
          Spec.Follow id records later replica)
        (fun _ _ => world.Plentiful -> Spec.replayAll id records replica = none) world := by
  induction records with
  | nil => exact fun world space replica ready replaying mirrors =>
      ⟨⟨replaying, id, id⟩, space, ready, mirrors.follow⟩
  | cons record records ih =>
      intro world space replica ready replaying mirrors
      have meaning := @Spec.replay_mirrors space replica (restamp world) id record mirrors
      unfold Cmd.forEach
      refine Cmd.wp_step (Cmd.wp_and (replays_replayFrame record ready replaying)
        (replayFrame_clocks record replaying)) ?_ ?_
      · rintro _ middle ⟨⟨next, replayed, applied⟩, spent, -⟩
        rw [replayed] at meaning
        rcases told : Spec.replay id record replica with _ | nextReplica
        · rw [told] at meaning
          cases meaning
        · rw [told] at meaning
          have still : Spec.Mirrors next nextReplica := by
            cases meaning with
            | some still => exact still
          refine Cmd.wp_mono (ih middle next nextReplica applied.ready
            spent.replaying still) ?_ ?_
          · rintro _ after ⟨more, later, ready, last, all, same⟩
            refine ⟨spent.trans more, later, ready, last, ?_, same⟩
            rw [Spec.replayAll_cons, told]
            exact all
          · intro _ _ failed plenty
            rw [Spec.replayAll_cons, told]
            exact failed (spent.memory plenty)
      · rintro _ _ ⟨fails, -⟩ plenty
        rw [fails plenty] at meaning
        rw [Spec.replayAll_cons]
        generalize Spec.replay id record replica = result at meaning
        cases meaning
        rfl

/-! ## Calls -/

/-- Replaying the log gives the database: its keys with their values, and
deadlines at the same keys. -/
def Mirrored (world : World) : Prop :=
  exists space, Ready world space ∧ Spec.Follow id world.records space []

/-- A log that can be used, without records that it could not be told from. -/
structure Legible (world : World) : Prop where
  working : exists wal, world.wal = some wal ∧ wal.failed = false
  clean : Spec.Clean world.records

/-- A database whose log tells its keyspace. -/
structure Told (world : World) (space : Keyspace) : Prop where
  ready : Ready world space
  logging : world.logging = true
  told : Spec.Follow id world.records space []

/-- Code after which the log still tells the database. -/
def Tells (op : Op Unit) : Prop :=
  forall world space, Told world space ->
    op.wp (fun _ after => Legible after -> Mirrored after)
      (fun thrown after => thrown ≠ .error .diskWriteFailed -> Legible after -> Mirrored after) world

theorem Told.attached (told : Told world space) :
    world.wal.isSome = true ∧ world.db.replaying = false := by
  have logging := told.logging
  rwa [World.logging, Bool.and_eq_true, Bool.not_eq_true'] at logging

theorem Told.mirrored (told : Told world space) : Mirrored world :=
  ⟨space, told.ready, told.told⟩

/-- The log has grown by records that the replica follows. -/
theorem Told.follow (told : Told world space)
    (logged : after.records = world.records ++ if world.logging then records else [])
    (follow : forall replica, Spec.Mirrors space replica -> Spec.Follow id records later replica) :
    Spec.Follow id after.records later [] := by
  rcases told.told with ⟨replica, replayed, mirrors⟩
  rcases follow replica mirrors with ⟨last, more, same⟩
  refine ⟨last, ?_, same⟩
  rw [logged, told.logging, if_pos rfl, Spec.replayAll_append replayed]
  exact more

theorem Told.grows (told : Told world space) (ready : Ready after later)
    (logged : after.records = world.records ++ if world.logging then records else [])
    (follow : forall replica, Spec.Mirrors space replica -> Spec.Follow id records later replica) :
    Mirrored after :=
  ⟨later, ready, told.follow logged follow⟩

theorem Told.growsBefore (told : Told world space) (ready : Ready after later)
    (logged : LoggedBefore world after records thrown) (written : thrown ≠ .error .diskWriteFailed)
    (follow : forall replica, Spec.Mirrors space replica -> Spec.Follow id records later replica) :
    Mirrored after := by
  rcases logged with logged | disk
  · exact told.grows ready logged follow
  · exact absurd disk written

theorem Legible.more (legible : Legible after) (told : Told world space)
    (logged : after.records = world.records ++ if world.logging then records else []) :
    Spec.Clean records := by
  have clean := legible.clean
  rw [logged, told.logging, if_pos rfl] at clean
  exact (Spec.clean_append.mp clean).2

theorem follow_lookup {form : Form} {now : Int64} (retold : Spec.Retold form) (replica : Keyspace)
    (mirrors : Spec.Mirrors space replica) :
    Spec.Follow id (form.lookupRecords now space) (form.lookup now space) replica := by
  cases form with
  | answers result => exact mirrors.follow
  | reads key answer =>
      -- a reading logs nothing, whether it is finished or not
      exact @Spec.follow_perform space replica id now (.reads key answer) trivial mirrors
        nofun
  | writes key plan tooLarge => exact Spec.follow_writable mirrors retold.1

theorem tells_keyed (named : call.key = some key) : Tells call.perform := by
  intro world space told
  rcases Call.carries named with ⟨form, formed, carries⟩
  have retold : forall moment, Spec.Retold (form moment) := fun moment => Spec.retold (formed moment)
  have carried := carries world space told.ready told.attached.2
  unfold Cmd.wp at carried ⊢
  rw [call.perform_eq]
  rcases ran : call.run world with ⟨thrown | answer, after⟩
  all_goals rw [ran] at carried
  · intro written legible
    rcases carried with ⟨ready, logged⟩ | ⟨now, moment, -, -, ready, logged⟩
    · exact told.growsBefore ready logged written fun _ mirrors => mirrors.follow
    · exact told.growsBefore ready logged written (follow_lookup (retold moment))
  · intro legible
    rcases carried with ⟨now, moment, -, -, -, reached⟩
    exact told.grows reached.ready reached.logged fun replica mirrors =>
      Spec.follow_perform (retold moment) mirrors (legible.more told reached.logged)

theorem Ready.shortKeys (ready : Ready world space) (entry : Entry) (inside : entry ∈ space) :
    entry.key.length ≤ Node.maxKeyLength := by
  have found := ready.rep.distinct.find_iff.mpr ⟨inside, rfl⟩
  rw [ready.rep.find_eq] at found
  rcases Option.map_eq_some_iff.mp found with ⟨addr, there, -⟩
  exact ready.rep.short there

theorem tells_removeExpiredLocked (limit : Nat) : Tells (removeExpiredLocked limit) := by
  intro world space told
  refine Cmd.wp_mono (removeExpiredLocked_spec told.ready limit) ?_ ?_
  · rintro _ after ⟨now, keys, later, -, reaps, reached⟩ legible
    exact told.grows reached.ready reached.logged (Spec.follow_reaps reaps told.ready.shortKeys)
  · rintro thrown after ⟨now, rounds, keys, later, -, -, reaps, failed⟩ written legible
    exact told.growsBefore failed.ready (Thrown.loggedBefore failed) written
      (Spec.follow_reaps reaps told.ready.shortKeys)

theorem tells_removeExpired (limit : Nat) : Tells (removeExpired limit) := by
  intro world space told
  unfold removeExpired
  rw [Cmd.wp_bind, Cmd.wp_read]
  exact Cmd.wp_onlyIf (fun _ => tells_removeExpiredLocked limit world space told)
    (fun _ _ => told.mirrored)

theorem tells_evictTo (target limit : Nat) : Tells (discard (evictTo target limit)) := by
  intro world space told
  have follow : forall rounds replica, Spec.Mirrors space replica ->
      Spec.Follow id (Spec.evict target rounds space).records
        (Spec.evict target rounds space).space replica :=
    fun rounds replica => Spec.follow_evict target rounds space replica told.ready.rep.distinct
      told.ready.shortKeys
  unfold discard
  refine Cmd.wp_step (evictTo_spec told.ready target limit) ?_ ?_
  · rintro evicted after ⟨-, reached⟩ legible
    exact told.grows reached.ready reached.logged (follow limit)
  · rintro thrown after ⟨rounds, -, failed⟩ written legible
    exact told.growsBefore failed.ready (Thrown.loggedBefore failed) written (follow rounds)

theorem mirrored_withLog (rep : world.db.Rep [] space) {last : Wal} (sound : Wal.Sound last)
    (follow : Spec.Follow id last.appended space []) : Mirrored { world with wal := some last } := by
  refine ⟨space, ⟨rep, ?_⟩, follow⟩
  rintro other equal
  cases equal
  exact sound

theorem tells_onWal {body : Cmd Exn Wal Unit}
    (quiet : forall wal, Wal.Sound wal ->
      body.wp (fun _ last => Wal.Sound last ∧ last.appended = wal.appended)
        (fun _ last => Wal.Sound last ∧ last.appended = wal.appended) wal) : Tells (onWal body) := by
  intro world space told
  have kept : forall wal last, world.wal = some wal ->
      Wal.Sound last ∧ last.appended = wal.appended -> Mirrored { world with wal := some last } := by
    rintro wal last here ⟨sound, same⟩
    have follow := told.told
    rw [World.records, here] at follow
    exact mirrored_withLog told.ready.rep sound (same ▸ follow)
  refine wp_onWal (fun _ _ => told.mirrored) fun wal here => ?_
  exact Cmd.wp_mono (quiet wal (told.ready.sound wal here))
    (fun _ last done _ => kept wal last here done)
    (fun _ last done _ _ => kept wal last here done)

theorem tells_flushWal : Tells flushWal := by
  refine tells_onWal fun wal sound => Cmd.wp_mono (Wal.flush_spec sound) ?_ ?_
  · exact fun _ _ ⟨sound, quiet, _⟩ => ⟨sound, quiet.sameAppended⟩
  · exact fun _ _ ⟨sound, quiet, _⟩ => ⟨sound, quiet.sameAppended⟩

theorem tells_beginWalBatch : Tells beginWalBatch :=
  tells_onWal fun _ sound => Cmd.wp_mono (Wal.beginBatch_spec sound)
    (fun _ _ ⟨sound, _, same⟩ => ⟨sound, same⟩) (fun _ _ never => never.elim)

theorem tells_endWalBatch : Tells endWalBatch := by
  refine tells_onWal fun wal sound => Cmd.wp_mono (Wal.endBatch_spec sound) ?_ ?_
  · exact fun _ _ ⟨sound, _, same, _⟩ => ⟨sound, same⟩
  · exact fun _ _ ⟨sound, _, same, _⟩ => ⟨sound, same⟩

theorem tells_openWal : Tells (openWal opening) := by
  intro world space told
  unfold Cmd.wp
  rw [openWal_refused_eq (Or.inl told.attached.1)]
  exact fun _ _ => told.mirrored

/-- A compaction that returns has written the keyspace; one that throws has left
the log as it was, unless the log has failed. -/
theorem compactLog_spec {environment : Wal.Compacting} {memory : Option Nat} {steady wall : Int64}
    {wal : Wal} (rep : world.db.Rep [] space) (sound : Wal.Sound wal)
    (told : Spec.Follow id wal.appended space []) :
    (compactLog environment (interrupted memory (snapshot world.db steady wall))).wp
      (fun _ last => Spec.Clean last.appended -> Mirrored { world with wal := some last })
      (fun thrown last => thrown ≠ .error .diskWriteFailed -> last.failed = false ->
        Mirrored { world with wal := some last }) wal := by
  unfold compactLog Cmd.wp
  rcases Wal.compact_cases environment (interrupted memory (snapshot world.db steady wall)) sound with
    ⟨start, -, startSound, quiet, ran | ⟨healthy, ⟨site, ran, records, whole, reopened, -⟩ |
      ⟨thrown, count, site, breaks, ran⟩⟩⟩
  · simp only [ran]
    exact fun written => absurd rfl written
  · simp only [ran]
    intro clean
    rw [reopened.appended] at clean
    -- a writer that was interrupted has not returned
    have complete : snapshot world.db steady wall = records.map Except.ok := by
      cases memory with
      | none => exact whole
      | some count =>
          have refused : Except.error Exn.badAlloc ∈ records.map Except.ok :=
            whole ▸ List.mem_append_right _ List.mem_cons_self
          rcases List.mem_map.mp refused with ⟨_, -, impossible⟩
          cases impossible
    rcases told with ⟨replica, replayed, mirrors⟩
    have solid : Spec.Solid [] := nofun
    refine mirrored_withLog rep reopened.sound ?_
    rw [reopened.appended]
    exact Spec.follow_snapshot rep (mirrors.solid (Spec.replayAll_solid solid replayed)) complete clean
  · simp only [ran]
    intro _ working
    have broken := (@Wal.through_compactSteps start (Wal.Site.idle start) environment _
      ⟨rfl, rfl, rfl⟩ startSound healthy).broken breaks
    rw [Nat.zero_add] at broken
    rcases Nat.lt_trichotomy count (Wal.flushes (interrupted memory (snapshot world.db steady wall)))
      with early | now | late
    · have untouched := broken.untouched early
      have same : site.cleanup.wal = start := by
        rw [Wal.Site.cleanup, untouched.switching]
        exact untouched.wal
      rw [same]
      exact mirrored_withLog rep startSound (quiet.sameAppended ▸ told)
    · rw [Wal.Site.cleanup, (broken.unflushed now).2] at working
      exact absurd ((broken.unflushed now).1.symm.trans working) (by decide)
    · rw [Wal.Site.cleanup, broken.switching late] at working
      cases working

theorem tells_compactWal (environment : Wal.Compacting) (memory : Option Nat) :
    Tells (compactWal environment memory) := by
  intro world space told
  unfold compactWal
  rw [Cmd.wp_bind, Cmd.wp_read, Cmd.wp_bind]
  refine Cmd.wp_require (fun _ => ?_) (fun _ written => absurd rfl written)
  refine Cmd.wp_step (removeExpiredLocked_spec told.ready noExpiryLimit) ?_ ?_
  · rintro _ reaped ⟨now, keys, later, -, reaps, reached⟩
    refine Cmd.wp_step (nowMs_spec reached) ?_ (fun _ _ never => never.elim)
    rintro steady clocked ⟨-, -, reached, -, -⟩
    refine Cmd.wp_step (currentUnixMs_spec reached) ?_ (fun _ _ never => never.elim)
    rintro wall stamped ⟨-, reached, -, -⟩
    rw [Cmd.wp_bind, Cmd.wp_read]
    have follow := told.follow reached.logged (Spec.follow_reaps reaps told.ready.shortKeys)
    refine wp_onWal (fun _ _ => ⟨later, reached.ready, follow⟩) fun wal here => ?_
    rw [World.records, here] at follow
    refine Cmd.wp_mono (compactLog_spec reached.rep (reached.sound wal here) follow) ?_ ?_
    · exact fun _ last done legible => done legible.clean
    · rintro thrown last done written ⟨⟨wal, equal, working⟩, -⟩
      cases equal
      exact done written working
  · rintro thrown after ⟨now, rounds, keys, later, -, -, reaps, failed⟩ written legible
    exact told.growsBefore failed.ready (Thrown.loggedBefore failed) written
      (Spec.follow_reaps reaps told.ready.shortKeys)

theorem Call.tells (call : Call) : Tells call.perform := by
  cases named : call.key with
  | some key => exact tells_keyed named
  | none =>
      cases call with
      | removeExpired limit => exact tells_removeExpired limit
      | evictTo target limit => exact tells_evictTo target limit
      | openWal opening => exact tells_openWal
      | flushWal => exact tells_flushWal
      | compactWal environment memory => exact tells_compactWal environment memory
      | beginWalBatch => exact tells_beginWalBatch
      | endWalBatch => exact tells_endWalBatch
      | _ => cases named

/-! ## Runs -/

/-- A log that was opened tells what it was read into. -/
theorem openWal_tells (empty : Ready world []) :
    (openWal opening).wp (fun _ after => Legible after -> Mirrored after)
      (fun _ _ => True) world := by
  unfold openWal
  rw [Cmd.wp_bind, Cmd.wp_read]
  refine Cmd.wp_ite (fun _ => trivial) fun _ => ?_
  unfold setReplaying modifyDb
  rw [Cmd.wp_bind, Cmd.wp_update, Cmd.wp_bind]
  refine Cmd.wp_mono constructWal_loads ?_ (fun _ _ _ => trivial)
  rintro wal loaded ⟨-, garbage, middle, allocated, constructed, -⟩
  have begun : Ready (replayStart world) [] := empty.setReplaying
  have reached := Cmd.of_wp_ok (@allocate_spec _ _ _ _ _ False begun.reached) allocated
  have spent := timeless_allocate (replayStart world) rfl
  rw [show allocate (replayStart world) = _ from allocated] at spent
  have built := Cmd.of_wp_ok Wal.construct_reads constructed
  rcases built with ⟨started, outcome, read⟩
  have replayed := Cmd.of_wp_ok (forEach_replayFrame _ middle [] [] reached.1.ready
    spent.replaying Spec.mirrors_nil) (Wal.recover_forEach read)
  rcases replayed with ⟨-, later, ready, follow⟩
  rw [Cmd.wp_bind, Cmd.wp_update, Cmd.wp_bind, Cmd.wp_update]
  have attached : Ready { loaded with wal := some wal } later := by
    refine ⟨ready.rep, ?_⟩
    rintro other equal
    cases equal
    exact started.sound
  rw [<- started.appended] at follow
  exact Cmd.wp_mono (tells_removeExpiredLocked noExpiryLimit (attachedTo wal loaded) later
    ⟨attached.setReplaying, rfl, follow⟩) (fun _ _ tells => tells) (fun _ _ _ => trivial)

/-- Runs of a database with a log.  The log was opened and then any calls were
made; they may have thrown, but never because the disk could not be written. -/
inductive Journal : World -> Prop where
  | opened {world after : World} (opening : Wal.Opening) (empty : Ready world [])
      (live : world.db.replaying = false) (opens : openWal opening world = (.ok (), after))
      (legible : Legible after) : Journal after
  | call {world after : World} {outcome : Except Exn Unit} (earlier : Journal world) (call : Call)
      (ran : call.perform world = (outcome, after))
      (written : outcome ≠ .error (.error .diskWriteFailed)) (legible : Legible after) :
      Journal after

theorem Journal.told (journal : Journal world) : exists space, Told world space := by
  have build : forall {after : World}, after.db.replaying = false -> Legible after ->
      Mirrored after -> exists space, Told after space := by
    rintro after live ⟨⟨wal, here, -⟩, -⟩ ⟨space, ready, follow⟩
    refine ⟨space, ready, ?_, follow⟩
    rw [World.logging, here, live]
    rfl
  induction journal with
  | opened opening empty live opens legible =>
      have still := (Cmd.of_wp_ok (rests_openWal opening _ ⟨⟨[], empty⟩, live⟩) opens).live
      have mirrored := Cmd.of_wp_ok (openWal_tells empty) opens
      exact build still legible (mirrored legible)
  | @call world after outcome earlier call ran written legible ih =>
      rcases ih with ⟨space, told⟩
      have still := (Cmd.wp_final (call.rests world ⟨⟨space, told.ready⟩, told.attached.2⟩) ran).live
      have tells := call.tells world space told
      rcases outcome with thrown | _
      · have mirrored := Cmd.of_wp_error tells ran
        exact build still legible (mirrored (fun disk => written (disk ▸ rfl)) legible)
      · have mirrored := Cmd.of_wp_ok tells ran
        exact build still legible (mirrored legible)

theorem Journal.legible (journal : Journal world) : Legible world := by
  cases journal with
  | opened opening empty live opens legible | call earlier call ran written legible => exact legible

/-- The log holds no record that it would not accept. -/
theorem Journal.accepted (journal : Journal world) (record : Wal.Record)
    (inside : record ∈ world.records) : Wal.Accepted record := by
  rcases journal.told with ⟨space, ready, -⟩
  rcases journal.legible.working with ⟨wal, here, working⟩
  rw [World.records, here] at inside
  exact (ready.sound wal here).accepted working record inside

/-- Replaying the log of a running database gives the database. -/
theorem log_tells_database (journal : Journal world) :
    exists replica, Spec.replayAll id world.records [] = some replica ∧
      Spec.Mirrors world.db.entries replica := by
  rcases journal.told with ⟨space, ready, -, replica, replayed, mirrors⟩
  rw [ready.rep.entries]
  exact ⟨replica, replayed, mirrors⟩

/-- A new log, and one key set. -/
def loggedKey : World :=
  ((Call.set [97] [98]).perform (openWal (undisturbed []) calm).2).2

theorem blank_calm : Blank calm :=
  ⟨⟨rep_empty 1, nofun⟩, rfl, fun _ => Option.some_ne_none _⟩

theorem journal_logged : Journal loggedKey := by
  have legible : forall {world : World}, world.wal.map Wal.failed = some false ->
      Spec.Clean world.records -> Legible world :=
    fun working clean => ⟨Option.map_eq_some_iff.mp working, clean⟩
  have opens : (openWal (undisturbed []) calm).1 = .ok () := by decide +kernel
  have sets : ((Call.set [97] [98]).perform (openWal (undisturbed []) calm).2).1 = .ok () := by
    decide +kernel
  have opened : Journal (openWal (undisturbed []) calm).2 :=
    .opened (undisturbed []) blank_calm.ready rfl (Prod.ext opens rfl)
      (legible (by decide +kernel) (by unfold Spec.Clean; decide +kernel))
  exact .call opened (.set [97] [98]) (Prod.ext sets rfl) (fun failed => by cases failed)
    (legible (by decide +kernel) (by unfold Spec.Clean; decide +kernel))

theorem log_tells_database_logged :
    loggedKey.records.length = 1 ∧ exists replica,
      Spec.replayAll id loggedKey.records [] = some replica ∧
      Spec.Mirrors loggedKey.db.entries replica :=
  ⟨by decide +kernel, log_tells_database journal_logged⟩

/-- A process that ends after any calls, and whose log has lost any number of
its last bytes, is followed by one that finds what the complete records tell,
which is the database itself if no byte is lost. -/
theorem restart_restores (journal : Journal world) (blank : Blank other) (works : opening.Works)
    (room : Nat)
    (file : opening.file = Wal.magic ++ (Wal.frames world.records).take room) :
    exists replica recovered,
      Spec.replayAll id (Wal.keptWithin room world.records) [] = some replica ∧
      openWal opening other = (.ok (), recovered) ∧
      (forall key, Spec.Restored (replica.find key) (recovered.db.lookup key)) ∧
      ((Wal.frames world.records).length ≤ room ->
        forall key, Spec.Restored (world.db.lookup key) (recovered.db.lookup key)) := by
  rcases journal.told with ⟨space, ready, -, whole, replayed, mirrors⟩
  rcases Wal.keptWithin_spec room world.records with ⟨lost, split, -, -⟩
  rcases Spec.replayAll_left (split ▸ replayed) with ⟨replica, kept⟩
  have begun := blank.begins.1
  have read := forEach_replayFrame (Wal.keptWithin room world.records) _ [] [] begun.ready
    begun.replaying Spec.mirrors_nil
  rcases ran : Cmd.forEach (Wal.keptWithin room world.records) replayFrame (recovering other) with
    ⟨thrown | _, loaded⟩
  · have fails := Cmd.of_wp_error read ran begun.memory
    rw [kept] at fails
    cases fails
  have loads := Cmd.of_wp_ok read ran
  rcases loads with ⟨spent, later, loadedReady, last, told, same⟩
  rw [kept] at told
  cases told
  have recovers := Wal.recover_take world.records journal.accepted room ran
  rw [<- file] at recovers
  rcases blank.opens works with ⟨_, found, wal, reads, healthy, opens⟩ | ⟨_, _, fails, -⟩
  · rw [recovers] at reads
    cases reads
    have replayer : Replayer loaded later := ⟨loadedReady, spent.replaying,
      spent.detached begun.detached, spent.memory begun.memory⟩
    rcases replayer.attached healthy with ⟨live, working⟩
    rcases removeDue_attached live working rfl with ⟨recovered, keys, rest, removed, reaps, done, -, -⟩
    have restored : forall key, Spec.Restored (replica.find key) (recovered.db.lookup key) := by
      intro key
      rw [<- done.rep.find_eq]
      exact Spec.Restored.of_alike (Spec.alike_symm (same key)) (reaps.restored key)
    refine ⟨replica, recovered, kept, by rw [opens, removed], restored, fun enough key => ?_⟩
    rw [Wal.keptWithin_of_le enough, replayed] at kept
    cases kept
    rw [<- ready.rep.find_eq]
    exact (restored key).of_alike (mirrors key)
  · rw [recovers] at fails
    cases fails

/-- All bytes of the log are left. -/
theorem restart_restores_logged :
    exists recovered, openWal (undisturbed (Wal.magic ++ (Wal.frames loggedKey.records).take 100)) calm =
        (.ok (), recovered) ∧
      Spec.Restored (loggedKey.db.lookup [97]) (recovered.db.lookup [97]) := by
  rcases restart_restores journal_logged blank_calm (works_undisturbed _) 100 rfl with
    ⟨replica, recovered, -, opened, -, whole⟩
  exact ⟨recovered, opened, whole (by decide +kernel) [97]⟩

end Database

end Reddish
