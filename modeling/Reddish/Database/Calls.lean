import Reddish.Database.Spec

namespace Reddish

open Library Numeral

/-!
# What the basic calls achieve

`Reached` describes a state on the way through an operation, relative to the
state the operation started from.  `Thrown` describes the state an exception
leaves behind: the keyspace and the log are still in step, unless the log
itself broke, and an exception always has a cause outside the database.
-/

/-- The state during an operation that started at `origin`: the database stands for
`space`, apart from the pending nodes that the operation still owns, and `records`
were logged, if anything is. -/
structure Reached (origin world : World) (pending : List Addr) (space : Keyspace)
    (records : List Wal.Record) : Prop where
  rep : world.db.Rep pending space
  sound : forall wal, world.wal = some wal -> Wal.Sound wal
  evolves : World.Evolves origin world
  logged : world.records = origin.records ++ if origin.logging then records else []

/-- The state after an exception.  The log may be cut short only if the disk failed,
and without a log only a failed allocation or a long key can be the cause. -/
structure Thrown (origin world : World) (pending : List Addr) (space : Keyspace)
    (records : List Wal.Record) (oversize : Prop) (thrown : Exn) : Prop where
  rep : world.db.Rep pending space
  sound : forall wal, world.wal = some wal -> Wal.Sound wal
  evolves : World.Evolves origin world
  logged : world.records = (origin.records ++ if origin.logging then records else []) ∨
    thrown = .error .diskWriteFailed ∧ world.WalFailed
  cause : origin.logging = true ∨ (exists n, origin.allocations n = none) ∨ oversize

variable {origin world : World} {pending others : List Addr} {space later : Keyspace}
variable {records : List Wal.Record} {oversize : Prop} {thrown : Exn}
variable {addr fresh : Addr} {key : Bytes} {value : Stored}

theorem Reached.toThrown (reached : Reached origin world pending space records)
    (cause : origin.logging = true ∨ (exists n, origin.allocations n = none) ∨ oversize) :
    Thrown origin world pending space records oversize thrown where
  rep := reached.rep
  sound := reached.sound
  evolves := reached.evolves
  logged := Or.inl reached.logged
  cause := cause

theorem Reached.modifyDb {change : Db -> Db} (reached : Reached origin world pending space records)
    (rep : (change world.db).Rep others later)
    (settings : (change world.db).replaying = world.db.replaying ∧
      (change world.db).maxKeys = world.db.maxKeys) :
    Reached origin { world with db := change world.db } others later records where
  rep := rep
  sound := reached.sound
  evolves := reached.evolves.trans
    { World.Evolves.refl world with replaying := settings.1, maxKeys := settings.2 }
  logged := reached.logged

/-- Rewriting a node without changing what it stands for. -/
theorem Reached.rewrite {change : Node -> Node}
    (reached : Reached origin world pending space records)
    (found : world.db.findNode key = some addr) (laid : (change (world.db.node addr)).Laid)
    (size : (change (world.db.node addr)).blockSize = (world.db.node addr).blockSize)
    (sameKey : (change (world.db.node addr)).key = (world.db.node addr).key)
    (holds : (change (world.db.node addr)).Holds (world.db.node addr).stored) :
    Reached origin { world with db := world.db.modifyNode addr change } pending space records ∧
      (world.db.modifyNode addr change).findNode key = some addr ∧
      (world.db.modifyNode addr change).node addr = change (world.db.node addr) := by
  have modified := reached.rep.modify found laid size sameKey holds
  rw [reached.rep.setValue_self found] at modified
  exact ⟨reached.modifyDb modified.1 ⟨rfl, rfl⟩, modified.2⟩

theorem Thrown.modifyDb {change : Db -> Db}
    (reached : Thrown origin world pending space records oversize thrown)
    (rep : (change world.db).Rep others later)
    (settings : (change world.db).replaying = world.db.replaying ∧
      (change world.db).maxKeys = world.db.maxKeys) :
    Thrown origin { world with db := change world.db } others later records oversize thrown where
  rep := rep
  sound := reached.sound
  evolves := reached.evolves.trans
    { World.Evolves.refl world with replaying := settings.1, maxKeys := settings.2 }
  logged := reached.logged
  cause := reached.cause

/-- A database whose log is not written to stays where it is. -/
theorem Reached.unlogged (reached : Reached origin world pending space records)
    (silent : origin.logging = false) (more : List Wal.Record) :
    Reached origin world pending space (records ++ more) where
  rep := reached.rep
  sound := reached.sound
  evolves := reached.evolves
  logged := by
    have logged := reached.logged
    rw [silent, if_neg Bool.false_ne_true] at logged ⊢
    exact logged

theorem Reached.allocated (reached : Reached origin world pending space records) :
    Reached origin { world with allocations := fun n => world.allocations (n + 1) } pending space
      records where
  rep := reached.rep
  sound := reached.sound
  evolves := reached.evolves.trans
    { World.Evolves.refl world with allocations := ⟨1, fun _ => rfl⟩ }
  logged := reached.logged

/-- A call on the log changes nothing else. -/
theorem Reached.onWal {wal last : Wal} (reached : Reached origin world pending space records)
    (here : world.wal = some wal) (sound : Wal.Sound last) (evolves : Wal.Evolves wal last)
    {more : List Wal.Record} (logging : origin.logging = true)
    (appended : last.appended = wal.appended ++ more) :
    Reached origin { world with wal := some last } pending space (records ++ more) ∧
      World.Evolves world { world with wal := some last } := by
  have step : World.Evolves world { world with wal := some last } := by
    refine { World.Evolves.refl world with wal := ?_ }
    rw [here]
    exact Option.Rel.some evolves
  have before : wal.appended = origin.records ++ if origin.logging then records else [] := by
    rw [<- reached.logged, World.records, here]
    rfl
  refine ⟨⟨reached.rep, ?_, reached.evolves.trans step, ?_⟩, step⟩
  · rintro other equal
    cases equal
    exact sound
  · change last.appended = _
    rw [appended, before, logging, if_pos rfl, if_pos rfl, List.append_assoc]

theorem Thrown.weaken {other : Prop}
    (failed : Thrown origin world pending space records oversize thrown)
    (implies : oversize -> other) : Thrown origin world pending space records other thrown where
  rep := failed.rep
  sound := failed.sound
  evolves := failed.evolves
  logged := failed.logged
  cause := failed.cause.imp_right (Or.imp_right implies)

/-! ## Settings never change -/

namespace Db

variable {db : Db} {old : Option Addr} {other : Addr} {keepTtl : Bool}

theorem settings_clearExpiry : (db.clearExpiry addr).replaying = db.replaying ∧
    (db.clearExpiry addr).maxKeys = db.maxKeys := by
  unfold clearExpiry
  split
  · exact ⟨rfl, rfl⟩
  · exact ⟨rfl, rfl⟩

theorem settings_moveDeadline : (db.moveDeadline addr other).replaying = db.replaying ∧
    (db.moveDeadline addr other).maxKeys = db.maxKeys := by
  unfold moveDeadline
  split
  · exact ⟨rfl, rfl⟩
  · exact ⟨rfl, rfl⟩

theorem settings_eraseNode : (db.eraseNode addr).replaying = db.replaying ∧
    (db.eraseNode addr).maxKeys = db.maxKeys :=
  settings_clearExpiry

theorem settings_commitNode : (db.commitNode old addr keepTtl).replaying = db.replaying ∧
    (db.commitNode old addr keepTtl).maxKeys = db.maxKeys := by
  cases old with
  | none => exact ⟨rfl, rfl⟩
  | some old =>
      cases keepTtl with
      | false => exact settings_eraseNode
      | true =>
          have erased := @settings_eraseNode old (db.moveDeadline old addr)
          have moved := @settings_moveDeadline old db addr
          exact ⟨erased.1.trans moved.1, erased.2.trans moved.2⟩

theorem settings_regrow {capacity : Nat} {garbage : Nat -> UInt8} :
    (db.regrow addr capacity garbage).replaying = db.replaying ∧
      (db.regrow addr capacity garbage).maxKeys = db.maxKeys :=
  @settings_moveDeadline addr { db.place ((db.node addr).grown capacity garbage) with
    lru := (db.place ((db.node addr).grown capacity garbage)).lru.replace addr db.freshAddr }
    db.freshAddr

/-- The counters of removed keys are not part of the invariant. -/
theorem Rep.expireNode (rep : Rep db pending space) (found : db.findNode key = some addr) :
    Rep (db.expireNode addr) pending (space.erase key) := by
  rcases rep.erase found with ⟨order, consistent, valid, waiting, entries⟩
  exact ⟨order, ⟨consistent.toLinked.transfer rfl rfl rfl rfl rfl rfl rfl rfl,
    consistent.deadlines.transfer rfl rfl rfl rfl⟩, valid, waiting, entries⟩

theorem Rep.evictNode (rep : Rep db pending space) (found : db.findNode key = some addr) :
    Rep (db.evictNode addr) pending (space.erase key) := by
  rcases rep.erase found with ⟨order, consistent, valid, waiting, entries⟩
  exact ⟨order, ⟨consistent.toLinked.transfer rfl rfl rfl rfl rfl rfl rfl rfl,
    consistent.deadlines.transfer rfl rfl rfl rfl⟩, valid, waiting, entries⟩

theorem Rep.findNode_none (rep : Rep db pending space) (absent : space.find key = none) :
    db.findNode key = none := by
  cases found : db.findNode key with
  | none => rfl
  | some addr =>
      rw [rep.find_some found] at absent
      cases absent

/-- The flag of an entered node says whether it has a deadline. -/
theorem Rep.flag_iff (rep : Rep db pending space) (found : db.findNode key = some addr) :
    db.ttlFlag addr = true <-> db.deadline addr ≠ none := by
  rcases rep with ⟨order, consistent, -, -, -⟩
  exact consistent.deadlines.flags addr
    (List.mem_append_left _ (consistent.findNode_some found).1)

end Db

/-! ## Memory, clocks and the log -/

namespace Database

section Rules

variable {α : Type} {Q : α -> World -> Prop} {E : Exn -> World -> Prop}

theorem wp_allocate {Q : (Nat -> UInt8) -> World -> Prop}
    (fails : world.allocations 0 = none ->
      E .badAlloc { world with allocations := fun n => world.allocations (n + 1) })
    (succeeds : forall garbage, world.allocations 0 = some garbage ->
      Q garbage { world with allocations := fun n => world.allocations (n + 1) }) :
    allocate.wp Q E world := by
  unfold allocate Cmd.wp
  cases outcome : world.allocations 0 with
  | none =>
      simp only [outcome]
      exact fails outcome
  | some garbage =>
      simp only [outcome]
      exact succeeds garbage outcome

theorem wp_onWal {body : Cmd Exn Wal Unit} {Q : Unit -> World -> Prop}
    (absent : world.wal = none -> Q () world)
    (present : forall wal, world.wal = some wal ->
      body.wp (fun _ after => Q () { world with wal := some after })
        (fun thrown after => E thrown { world with wal := some after }) wal) :
    (onWal body).wp Q E world := by
  unfold onWal
  cases here : world.wal with
  | none =>
      unfold Cmd.wp
      simp only [here]
      exact absent here
  | some wal =>
      have holds := present wal here
      unfold Cmd.wp at holds ⊢
      simp only [here]
      rcases outcome : body wal with ⟨thrown | _, after⟩
      · simpa only [outcome] using holds
      · simpa only [outcome] using holds

end Rules

theorem allocate_spec (reached : Reached origin world pending space records) :
    allocate.wp
      (fun _ after => Reached origin after pending space records ∧ after.db = world.db ∧
        after.wall = world.wall)
      (fun thrown after => Thrown origin after pending space records oversize thrown ∧
        after.db = world.db) world := by
  refine wp_allocate ?_ ?_
  · intro outcome
    exact ⟨reached.allocated.toThrown (Or.inr (Or.inl (reached.evolves.allocation outcome))), rfl⟩
  · intro _ _
    exact ⟨reached.allocated, rfl, rfl⟩

theorem nowMs_spec (reached : Reached origin world pending space records) :
    nowMs.wp
      (fun now after => origin.Reads now ∧ now = world.steady.reading 0 ∧
        Reached origin after pending space records ∧ after.db = world.db ∧
        after.wall = world.wall) (fun _ _ => False) world := by
  refine ⟨reached.evolves.reads ⟨0, rfl⟩, rfl, ?_, rfl, rfl⟩
  exact
    { rep := reached.rep
      sound := reached.sound
      evolves := reached.evolves.trans
        { World.Evolves.refl world with steady := ⟨1, fun _ => rfl⟩ }
      logged := reached.logged }

theorem currentUnixMs_spec (reached : Reached origin world pending space records) :
    currentUnixMs.wp
      (fun wall after => wall = world.wall.reading 0 ∧
        Reached origin after pending space records ∧ after.db = world.db ∧
        after.wall = world.wall.later) (fun _ _ => False) world := by
  refine ⟨rfl, ?_, rfl, rfl⟩
  exact
    { rep := reached.rep
      sound := reached.sound
      evolves := reached.evolves.trans
        { World.Evolves.refl world with wall := ⟨1, fun _ => rfl⟩ }
      logged := reached.logged }

/-- Calls on the log happen if there is one and no replay is running. -/
theorem wp_whenLogging {body : Cmd Exn Wal Unit} {Q : Unit -> World -> Prop}
    {E : Exn -> World -> Prop} (reached : Reached origin world pending space records)
    (silent : origin.logging = false -> Q () world)
    (logging : forall wal, origin.logging = true -> world.wal = some wal ->
      body.wp (fun _ after => Q () { world with wal := some after })
        (fun thrown after => E thrown { world with wal := some after }) wal) :
    (whenLogging body).wp Q E world := by
  have same := reached.evolves.logging
  unfold whenLogging
  rw [Cmd.wp_bind, Cmd.wp_read]
  refine Cmd.wp_onlyIf ?_ ?_
  · intro live
    refine wp_onWal ?_ ?_
    · intro here
      refine silent ?_
      rw [<- same, World.logging, here]
      rfl
    · intro wal here
      refine logging wal ?_ here
      rw [<- same, World.logging, here, live]
      rfl
  · intro replaying
    refine silent ?_
    rw [<- same, World.logging, Bool.eq_true_of_not_eq_false replaying, Bool.not_true,
      Bool.and_false]

/-- `log` appends one record, if there is a log and no replay.  With room in
the buffer and an acceptable record only the disk can fail. -/
theorem log_spec (reached : Reached origin world pending space records) (op : WalOp)
    (args : List Bytes) :
    (log op args).wp
      (fun _ after => Reached origin after pending space (records ++ [Spec.record op args]) ∧
        after.db = world.db ∧ after.wall = world.wall ∧ World.Evolves world after)
      (fun thrown after => Thrown origin after pending space records oversize thrown ∧
        after.db = world.db ∧
        (Wal.Accepted (Spec.record op args) ->
          world.Roomy ((Wal.payload (Spec.record op args)).length + 8) ->
          thrown = .error .diskWriteFailed ∧ after.WalFailed)) world := by
  refine wp_whenLogging reached ?_ ?_
  · intro silent
    exact ⟨reached.unlogged silent _, rfl, rfl, World.Evolves.refl world⟩
  · intro wal logging here
    refine Cmd.wp_mono (Wal.append_spec (reached.sound wal here) (Spec.record op args)) ?_ ?_
    · rintro _ last ⟨sound, evolves, -, appended, -, -⟩
      have logged := reached.onWal here sound evolves logging appended
      exact ⟨logged.1, rfl, rfl, logged.2⟩
    · rintro thrown last ⟨sound, evolves, reason⟩
      have step : World.Evolves world { world with wal := some last } := by
        refine { World.Evolves.refl world with wal := ?_ }
        rw [here]
        exact Option.Rel.some evolves
      refine ⟨⟨reached.rep, ?_, reached.evolves.trans step, ?_, Or.inl logging⟩, rfl, ?_⟩
      · rintro other equal
        cases equal
        exact sound
      · rcases reason with ⟨disk, failed⟩ | ⟨same, -⟩
        · exact Or.inr ⟨disk, last, rfl, failed⟩
        · refine Or.inl ?_
          rw [<- reached.logged, World.records, World.records, here]
          exact same
      · intro accepted roomy
        rcases reason with ⟨disk, failed⟩ | ⟨-, ⟨-, refused⟩ | ⟨-, tight, -⟩⟩
        · exact ⟨disk, last, rfl, failed⟩
        · exact absurd accepted refused
        · exact absurd (roomy wal here) (Nat.not_le.mpr tight)

/-- A reservation leaves the log as it is, and there is room behind it. -/
theorem reserve_spec (reached : Reached origin world pending space records) (size : Nat) :
    (whenLogging (Wal.reserveRecord size)).wp
      (fun _ after => Reached origin after pending space records ∧ after.db = world.db ∧
        (origin.logging = true -> after.Roomy size ∧ size ≤ Wal.maxRecord + 8))
      (fun thrown after => Thrown origin after pending space records oversize thrown) world := by
  refine wp_whenLogging reached ?_ ?_
  · intro silent
    refine ⟨reached, rfl, ?_⟩
    intro logging
    rw [silent] at logging
    cases logging
  · intro wal logging here
    have kept : forall last, Wal.Sound last -> Wal.Quiet wal last ->
        Reached origin { world with wal := some last } pending space records := by
      intro last sound quiet
      have appended : last.appended = wal.appended ++ [] := by
        rw [List.append_nil]
        exact quiet.sameAppended
      have later := (reached.onWal here sound quiet.toEvolves logging appended).1
      rw [List.append_nil] at later
      exact later
    refine Cmd.wp_mono (Wal.reserveRecord_spec (reached.sound wal here) size) ?_ ?_
    · rintro _ last ⟨sound, quiet, room, bound⟩
      refine ⟨kept last sound quiet, rfl, fun _ => ⟨?_, bound⟩⟩
      intro other equal
      cases equal
      exact room
    · rintro thrown last ⟨sound, quiet, -⟩
      exact (kept last sound quiet).toThrown (Or.inl logging)

/-- After the reservation only the disk can fail, so no record of a batch is
written without the others unless the log itself breaks. -/
theorem logBatch_spec (reached : Reached origin world pending space records) {size : Nat}
    (op : WalOp) (batch : List (List Bytes))
    (small : forall args, args ∈ batch ->
      args.length ≤ 255 ∧ (Wal.payload (Spec.record op args)).length + 8 ≤ size) :
    (logBatch size op batch).wp
      (fun _ after =>
        Reached origin after pending space (records ++ batch.map (Spec.record op)) ∧
          after.db = world.db)
      (fun thrown after => Thrown origin after pending space records oversize thrown) world := by
  unfold logBatch
  refine Cmd.wp_step (reserve_spec reached size) ?_ (fun _ _ failed => failed)
  rintro _ ready ⟨reached, same, reserved⟩
  have loop := @Cmd.wp_forEach _ _ _
    (fun thrown after => Thrown origin after pending space records oversize thrown) (log op)
    (fun remaining after => exists written, written ++ remaining = batch ∧
      Reached origin after pending space (records ++ written.map (Spec.record op)) ∧
      after.db = world.db ∧
      (origin.logging = true -> after.Roomy size ∧ size ≤ Wal.maxRecord + 8)) ?_ batch ready
    ⟨[], rfl, by simpa using reached, same, reserved⟩
  · refine Cmd.wp_mono loop ?_ (fun _ _ failed => failed)
    rintro _ after ⟨written, whole, reached, same, -⟩
    rw [List.append_nil] at whole
    rw [<- whole]
    exact ⟨reached, same⟩
  · rintro args rest later ⟨written, whole, reached, same, reserved⟩
    have fits := small args (by rw [<- whole]; simp)
    have logs := @log_spec _ _ _ _ _ oversize reached op args
    refine Cmd.wp_mono logs ?_ ?_
    · rintro _ after ⟨logged, sameDb, -, evolves⟩
      refine ⟨written ++ [args], by simpa using whole, by simpa using logged,
        sameDb.trans same, fun logging => ?_⟩
      exact ⟨evolves.roomy (reserved logging).1, (reserved logging).2⟩
    · rintro thrown after ⟨failed, -, blame⟩
      refine ⟨failed.rep, failed.sound, failed.evolves, ?_, failed.cause⟩
      by_cases logging : origin.logging = true
      · have room := reserved logging
        have accepted : Wal.Accepted (Spec.record op args) :=
          (Wal.accepted_iff _).mpr ⟨by omega, fits.1⟩
        refine Or.inr (blame accepted ?_)
        intro wal here
        exact Nat.le_trans fits.2 (room.1 wal here)
      · rcases failed.logged with kept | broken
        · rw [if_neg logging] at kept ⊢
          exact Or.inl kept
        · exact Or.inr broken

/-- An exception while a node is owned by a pointer drops the node. -/
theorem wp_guarded {α : Type} {body : Op α} {Q : α -> World -> Prop}
    (holds : body.wp Q
      (fun thrown after => Thrown origin after (addr :: pending) space records oversize thrown)
      world) :
    (guarded addr body).wp Q
      (fun thrown after => Thrown origin after pending space records oversize thrown) world := by
  unfold guarded
  rw [Cmd.wp_handle]
  refine Cmd.wp_mono holds (fun _ _ kept => kept) ?_
  intro thrown after failed
  unfold modifyDb
  rw [Cmd.wp_bind, Cmd.wp_update, Cmd.wp_raise]
  exact failed.modifyDb failed.rep.discard ⟨rfl, rfl⟩

/-! ## Finding a key -/

/-- The clock is read only for a node with a deadline. -/
theorem deadlinePassed_spec (reached : Reached origin world pending space records)
    (found : world.db.findNode key = some addr) :
    (deadlinePassed addr).wp
      (fun passed after => (exists now, origin.Reads now ∧
          passed = Spec.expired (some now) (world.db.entry addr)) ∧
        Reached origin after pending space records ∧ after.db = world.db ∧
        after.wall = world.wall) (fun _ _ => False) world := by
  have flag := reached.rep.flag_iff found
  have reading : origin.Reads (origin.steady.reading 0) := ⟨0, rfl⟩
  have entry : (world.db.entry addr).deadline = world.db.deadline addr := rfl
  unfold deadlinePassed
  rw [Cmd.wp_bind, Cmd.wp_read]
  cases deadline : world.db.deadline addr with
  | none =>
      have off : world.db.ttlFlag addr = false := by
        rw [deadline] at flag
        simpa using flag
      rw [off]
      refine ⟨⟨_, reading, ?_⟩, reached, rfl, rfl⟩
      simp only [Spec.expired, entry, deadline]
  | some moment =>
      have on : world.db.ttlFlag addr = true := flag.mpr (by rw [deadline]; simp)
      rw [on]
      simp only [Cmd.wp_bind]
      refine Cmd.wp_mono (nowMs_spec reached) ?_ (fun _ _ never => never)
      rintro now after ⟨reads, -, later, same, wall⟩
      refine ⟨⟨now, reads, ?_⟩, later, same, wall⟩
      simp only [Spec.expired, entry, deadline]

/-- `find_active` does the abstract lookup for reading. -/
theorem findActive_spec (reached : Reached origin world pending space records) (key : Bytes) :
    (findActive key).wp
      (fun found after => exists now, origin.Reads now ∧
        Reached origin after pending (Spec.active (origin.time now) key space).space records ∧
        (Spec.active (origin.time now) key space).result = found.map after.db.entry ∧
        forall addr, found = some addr -> after.db.findNode key = some addr)
      (fun _ _ => False) world := by
  have reading : origin.Reads (origin.steady.reading 0) := ⟨0, rfl⟩
  have replaying := reached.evolves.replaying
  unfold findActive
  rw [Cmd.wp_bind, Cmd.wp_read]
  cases found : world.db.findNode key with
  | none =>
      have absent := reached.rep.find_none found
      refine ⟨_, reading, ?_⟩
      unfold Spec.active
      rw [absent]
      exact ⟨reached, rfl, nofun⟩
  | some addr =>
      have present := reached.rep.find_some found
      simp only [Cmd.wp_bind]
      refine Cmd.wp_mono (deadlinePassed_spec reached found) ?_ (fun _ _ never => never)
      rintro passed after ⟨⟨now, reads, passedEq⟩, later, same, -⟩
      have found' : after.db.findNode key = some addr := by rw [same]; exact found
      have decided : Spec.expired (origin.time now) (world.db.entry addr) =
          decide (passed = true ∧ world.db.replaying = false) := by
        rw [replaying, World.time]
        cases replay : origin.db.replaying with
        | true => simp [Spec.expired]
        | false => simp [passedEq]
      by_cases stop : passed = true ∧ world.db.replaying = false
      · rw [if_pos stop]
        refine ⟨now, reads, ?_⟩
        unfold Spec.active
        rw [present]
        simp only [decided, decide_eq_true stop, if_true]
        exact ⟨later, rfl, nofun⟩
      · rw [if_neg stop]
        unfold modifyDb
        rw [Cmd.wp_bind, Cmd.wp_update, Cmd.wp_pure]
        refine ⟨now, reads, ?_⟩
        unfold Spec.active
        rw [present]
        simp only [decided, decide_eq_false stop, Bool.false_eq_true, if_false]
        refine ⟨later.modifyDb (later.rep.touch found') ⟨rfl, rfl⟩, ?_, ?_⟩
        · rw [same]
          rfl
        · rintro other equal
          cases equal
          exact found'

theorem mustDrop_spec (reached : Reached origin world pending space records)
    (found : world.db.findNode key = some addr) :
    (mustDrop addr).wp
      (fun passed after => (exists now, origin.Reads now ∧
          passed = Spec.expired (origin.time now) (world.db.entry addr)) ∧
        Reached origin after pending space records ∧ after.db = world.db ∧
        after.wall = world.wall) (fun _ _ => False) world := by
  have replaying := reached.evolves.replaying
  unfold mustDrop
  rw [Cmd.wp_bind, Cmd.wp_read]
  refine Cmd.wp_ite ?_ ?_
  · intro replay
    rw [replaying] at replay
    refine ⟨⟨_, ⟨0, rfl⟩, ?_⟩, reached, rfl, rfl⟩
    simp [World.time, replay, Spec.expired]
  · intro live
    rw [replaying, Bool.not_eq_true] at live
    refine Cmd.wp_mono (deadlinePassed_spec reached found) ?_ (fun _ _ never => never)
    rintro passed after ⟨⟨now, reads, passedEq⟩, rest⟩
    refine ⟨⟨now, reads, ?_⟩, rest⟩
    simpa [World.time, live] using passedEq

/-- `find_writable` does the abstract lookup for writing. -/
theorem findWritable_spec (reached : Reached origin world pending space records) (key : Bytes) :
    (findWritable key).wp
      (fun found after => (exists now, origin.Reads now ∧
          Reached origin after pending (Spec.writable (origin.time now) key space).space
            (records ++ (Spec.writable (origin.time now) key space).records) ∧
          (Spec.writable (origin.time now) key space).result = found.map after.db.entry) ∧
        key.length ≤ Node.maxKeyLength ∧ after.db.findNode key = found ∧
        after.wall = world.wall)
      (fun thrown after => Thrown origin after pending space records
        (Node.maxKeyLength < key.length) thrown) world := by
  have reading : origin.Reads (origin.steady.reading 0) := ⟨0, rfl⟩
  have replaying := reached.evolves.replaying
  unfold findWritable
  refine Cmd.wp_ite ?_ ?_
  · intro long
    exact reached.toThrown (Or.inr (Or.inr long))
  intro short
  have bound : key.length ≤ Node.maxKeyLength := Nat.not_lt.mp short
  rw [Cmd.wp_bind, Cmd.wp_read]
  cases found : world.db.findNode key with
  | none =>
      have absent := reached.rep.find_none found
      refine ⟨⟨_, reading, ?_⟩, bound, found, rfl⟩
      unfold Spec.writable
      rw [absent]
      exact ⟨by rw [List.append_nil]; exact reached, rfl⟩
  | some addr =>
      have present := reached.rep.find_some found
      simp only [Cmd.wp_bind]
      refine Cmd.wp_mono (mustDrop_spec reached found) ?_ (fun _ _ never => never.elim)
      rintro passed after ⟨⟨now, reads, passedEq⟩, later, same, wall⟩
      have found' : after.db.findNode key = some addr := by rw [same]; exact found
      refine Cmd.wp_ite ?_ ?_
      · intro expired
        rw [expired] at passedEq
        unfold dropExpired modifyDb
        rw [Cmd.wp_bind, Cmd.wp_bind]
        refine Cmd.wp_mono (log_spec later .del [key]) ?_ (fun _ _ failed => failed.1)
        rintro _ last ⟨logged, sameLast, wallLast, -⟩
        rw [Cmd.wp_update, Cmd.wp_pure]
        have foundLast : last.db.findNode key = some addr := by rw [sameLast]; exact found'
        have erased := logged.rep.expireNode foundLast
        refine ⟨⟨now, reads, ?_⟩, bound, ?_, wallLast.trans wall⟩
        · unfold Spec.writable
          rw [present]
          simp only [<- passedEq, if_true]
          exact ⟨logged.modifyDb erased Db.settings_eraseNode, rfl⟩
        · exact erased.findNode_none (by rw [Keyspace.find_erase, if_pos rfl])
      · intro alive
        rw [Bool.not_eq_true] at alive
        rw [alive] at passedEq
        unfold modifyDb
        rw [Cmd.wp_bind, Cmd.wp_update, Cmd.wp_pure]
        refine ⟨⟨now, reads, ?_⟩, bound, found', wall⟩
        unfold Spec.writable
        rw [present]
        simp only [<- passedEq, Bool.false_eq_true, if_false]
        refine ⟨?_, ?_⟩
        · rw [List.append_nil]
          exact later.modifyDb (later.rep.touch found') ⟨rfl, rfl⟩
        · rw [same]
          rfl

/-! ## Memory for nodes -/

/-- The sizes for which a block always fits its size word. -/
theorem blockLayout_fits {keyLength capacity : Nat} (short : keyLength ≤ Node.maxKeyLength)
    (small : capacity ≤ 2 ^ 31) : (Node.blockLayout keyLength capacity).2 < 2 ^ 32 := by
  have stride : Node.keyStride keyLength ≤ keyLength + 7 := by
    unfold Node.keyStride
    omega
  have keyBound : Node.maxKeyLength = 2097151 := rfl
  have header : Node.headerSize = 32 := rfl
  by_cases inSlab : Node.headerSize + Node.keyStride keyLength + capacity ≤ Slab.largestClass
  · rw [Node.blockLayout_small inSlab]
    have bound := Slab.classSize_le (Slab.classIndex
      (Node.headerSize + Node.keyStride keyLength + capacity))
    have largest : Slab.largestClass = 4096 := rfl
    simp only
    omega
  · rw [Node.blockLayout_large inSlab]
    simp only
    omega

/-- A new node is pending and has room for its body. -/
theorem createNode_spec (reached : Reached origin world pending space records) {type : NodeType}
    {capacity : Nat} (short : key.length ≤ Node.maxKeyLength) (small : capacity ≤ 2 ^ 31) :
    (createNode key type capacity).wp
      (fun fresh after => Reached origin after (fresh :: pending) space records ∧
        (exists garbage, after.db.node fresh = Node.fresh key type capacity garbage) ∧
        (after.db.node fresh).Laid ∧ capacity ≤ (after.db.node fresh).bodyCapacity ∧
        (forall probe, after.db.findNode probe = world.db.findNode probe) ∧
        forall other, after.db.deadline other = world.db.deadline other)
      (fun thrown after => Thrown origin after pending space records oversize thrown) world := by
  have fits := blockLayout_fits short small
  unfold createNode
  rw [if_neg (by omega), Cmd.wp_bind]
  have spec := @allocate_spec origin world pending space records oversize reached
  refine Cmd.wp_mono spec ?_ (fun _ _ failed => failed.1)
  rintro garbage after ⟨later, same, -⟩
  unfold modifyDb
  rw [Cmd.wp_bind, Cmd.wp_read, Cmd.wp_bind, Cmd.wp_update, Cmd.wp_pure]
  have laid := @Node.fresh_spec key type capacity garbage short fits
  have placed := later.rep.place laid.1
  refine ⟨later.modifyDb placed.1 ⟨rfl, rfl⟩, ⟨garbage, placed.2.2⟩, ?_, ?_, ?_, ?_⟩
  · change ((Db.place _ after.db).node after.db.freshAddr).Laid
    rw [placed.2.2]
    exact laid.1
  · change _ ≤ ((Db.place _ after.db).node after.db.freshAddr).bodyCapacity
    rw [placed.2.2]
    exact laid.2
  · intro probe
    rw [<- same]
    exact placed.2.1 probe
  · intro other
    rw [<- same]
    rfl

/-- Growing moves the node and keeps the entry. -/
theorem growNode_spec (reached : Reached origin world pending space records) {capacity : Nat}
    (found : world.db.findNode key = some addr) (small : capacity ≤ 2 ^ 31)
    (holds : forall garbage,
      ((world.db.node addr).grown capacity garbage).Holds (world.db.node addr).stored) :
    (growNode addr capacity).wp
      (fun fresh after => Reached origin after pending space records ∧
        after.db.findNode key = some fresh ∧
        (exists garbage, after.db.node fresh = (world.db.node addr).grown capacity garbage) ∧
        (after.db.node fresh).Laid ∧ capacity ≤ (after.db.node fresh).bodyCapacity)
      (fun thrown after => (Thrown origin after pending space records oversize thrown ∧
        thrown = .badAlloc) ∧ after.db = world.db) world := by
  have known := reached.rep.found found
  have fits := blockLayout_fits known.laid.key small
  unfold growNode
  rw [Cmd.wp_bind, Cmd.wp_read, if_neg (by unfold Db.key; omega), Cmd.wp_bind]
  refine wp_allocate ?_ ?_
  · intro outcome
    exact ⟨⟨reached.allocated.toThrown (Or.inr (Or.inl (reached.evolves.allocation outcome))), rfl⟩,
      rfl⟩
  · intro garbage _
    unfold modifyDb
    rw [Cmd.wp_bind, Cmd.wp_update, Cmd.wp_pure]
    have laid := @Node.grown_spec (world.db.node addr) capacity garbage known.laid fits
    have moved := reached.rep.regrow found laid.1 (holds garbage)
    refine ⟨reached.allocated.modifyDb moved.1 Db.settings_regrow, moved.2.1, ⟨garbage, moved.2.2⟩, ?_, ?_⟩
    · change ((world.db.regrow addr capacity garbage).node world.db.freshAddr).Laid
      rw [moved.2.2]
      exact laid.1
    · change _ ≤ ((world.db.regrow addr capacity garbage).node world.db.freshAddr).bodyCapacity
      rw [moved.2.2]
      exact laid.2

/-- A larger table holds the same nodes. -/
theorem maybeRehash_spec (reached : Reached origin world pending space records) :
    maybeRehash.wp
      (fun _ after => Reached origin after pending space records ∧
        (forall probe, after.db.findNode probe = world.db.findNode probe) ∧
        after.wall = world.wall)
      (fun thrown after => Thrown origin after pending space records oversize thrown) world := by
  unfold maybeRehash
  rw [Cmd.wp_bind, Cmd.wp_read]
  refine Cmd.wp_onlyIf ?_ ?_
  · rintro ⟨-, small⟩
    refine Cmd.wp_step (allocate_spec reached) ?_ (fun _ _ failed => failed.1)
    rintro _ after ⟨later, same, wall⟩
    unfold modifyDb
    rw [Cmd.wp_update]
    have size : exists k, 4 ≤ k ∧ k ≤ 31 ∧ after.db.buckets.length = 2 ^ k := by
      rcases later.rep with ⟨order, consistent, -⟩
      exact consistent.table.size
    rcases size with ⟨k, large, -, length⟩
    rw [same] at length
    rw [length] at small ⊢
    have less : k < 31 := (Nat.pow_lt_pow_iff_right (by decide)).mp (Nat.not_le.mp small)
    rw [<- Nat.pow_succ]
    have moved := later.rep.rehashTo (show 4 ≤ k + 1 by omega) (show k + 1 ≤ 31 by omega)
    refine ⟨later.modifyDb moved.1 ⟨rfl, rfl⟩, ?_, wall⟩
    intro probe
    rw [<- same]
    exact moved.2 probe
  · intro _
    exact ⟨reached, fun _ => rfl, rfl⟩

/-- A deadline is recorded; memory is needed only for the first one of a node. -/
theorem scheduleExpiry_spec {deadline : Int64} (reached : Reached origin world pending space records)
    (found : world.db.findNode key = some addr) :
    (scheduleExpiry addr deadline).wp
      (fun _ after => Reached origin after pending (space.setDeadline key (some deadline)) records ∧
        after.db.findNode key = some addr ∧ after.wall = world.wall)
      (fun thrown after => Thrown origin after pending space records oversize thrown ∧
        world.db.deadline addr = none) world := by
  unfold scheduleExpiry
  rw [Cmd.wp_bind, Cmd.wp_read, Cmd.wp_bind]
  have finish : forall after, Reached origin after pending space records -> after.db = world.db ->
      after.wall = world.wall -> (modifyDb (Db.setDeadline addr deadline)).wp
        (fun _ after =>
          Reached origin after pending (space.setDeadline key (some deadline)) records ∧
            after.db.findNode key = some addr ∧ after.wall = world.wall)
        (fun thrown after => Thrown origin after pending space records oversize thrown ∧
          world.db.deadline addr = none) after := by
    intro after later same wall
    have found' : after.db.findNode key = some addr := by rw [same]; exact found
    exact ⟨later.modifyDb (later.rep.setDeadline found') ⟨rfl, rfl⟩, found', wall⟩
  refine Cmd.wp_onlyIf ?_ ?_
  · intro absent
    refine Cmd.wp_step (@allocate_spec _ _ _ _ _ oversize reached) ?_ ?_
    · rintro _ after ⟨later, same, wall⟩
      exact finish after later same wall
    · rintro thrown after ⟨failed, -⟩
      refine ⟨failed, ?_⟩
      rw [Option.isNone_iff_eq_none] at absent
      simp [Db.deadline, IndexedHeap.priority, absent]
  · intro _
    exact finish world reached rfl rfl

/-! ## Operations and their specifications -/

/-- A database between two operations: no node is pending, and the log is sound. -/
structure Ready (world : World) (space : Keyspace) : Prop where
  rep : world.db.Rep [] space
  sound : forall wal, world.wal = some wal -> Wal.Sound wal

theorem Ready.reached (ready : Ready world space) : Reached world world [] space [] where
  rep := ready.rep
  sound := ready.sound
  evolves := World.Evolves.refl world
  logged := by simp

/-- What an operation on a key may leave behind when it throws: the keyspace it
found, or the one after the key was looked up for writing. -/
def Aborted (world after : World) (key : Bytes) (space : Keyspace) (oversize : Prop)
    (thrown : Exn) : Prop :=
  Thrown world after [] space [] oversize thrown ∨
    exists now, world.Reads now ∧
      Thrown world after [] (Spec.writable (world.time now) key space).space
        (Spec.writable (world.time now) key space).records oversize thrown

/-- An operation on a key does what its specification says, or throws without
an effect. -/
def Implements {α : Type} (op : Op α) (key : Bytes) (oversize : Prop)
    (spec : Option Int64 -> Keyspace -> Spec.Outcome α) : Prop :=
  forall world space, Ready world space ->
    op.wp
      (fun result after => exists now, world.Reads now ∧
        (spec (world.time now) space).result = result ∧
        Reached world after [] (spec (world.time now) space).space
          (spec (world.time now) space).records)
      (fun thrown after => Aborted world after key space oversize thrown) world

/-- A reader does what its specification says and never throws. -/
def Peeks {α : Type} (op : Op α) (spec : Option Int64 -> Keyspace -> Spec.Outcome α) : Prop :=
  forall world space, Ready world space ->
    op.wp
      (fun result after => exists now, world.Reads now ∧
        (spec (world.time now) space).result = result ∧
        Reached world after [] (spec (world.time now) space).space
          (spec (world.time now) space).records)
      (fun _ _ => False) world

theorem Peeks.implements {α : Type} {op : Op α} {spec : Option Int64 -> Keyspace -> Spec.Outcome α}
    (peeks : Peeks op spec) : Implements op key oversize spec :=
  fun world space ready =>
    Cmd.wp_mono (peeks world space ready) (fun _ _ holds => holds) (fun _ _ never => never.elim)

/-- Operations that look a key up and read its node. -/
theorem peeks_reading {α : Type} {rest : Option Addr -> Op α} {answer : Option Entry -> α}
    (agrees : forall (world : World) found,
      (forall addr, found = some addr -> (world.db.node addr).Valid) ->
      (rest found).wp
        (fun value after => value = answer (found.map world.db.entry) ∧ after = world)
        (fun _ _ => False) world) (key : Bytes) :
    Peeks (findActive key >>= rest) (Spec.reading answer key) := by
  intro world space ready
  refine Cmd.wp_step (findActive_spec ready.reached key) ?_ (fun _ _ never => never.elim)
  rintro found after ⟨now, reads, reached, result, located⟩
  have valid : forall addr, found = some addr -> (after.db.node addr).Valid :=
    fun addr equal => (reached.rep.found (located addr equal)).valid
  refine Cmd.wp_mono (agrees after found valid) ?_ (fun _ _ never => never.elim)
  rintro value last ⟨rfl, rfl⟩
  refine ⟨now, reads, ?_, reached⟩
  rw [Spec.reading, result]

/-- A reader that passes the answer of another one through a function. -/
theorem Peeks.map {α β : Type} {op : Op α} {change : α -> β} {first : Option Entry -> α}
    {second : Option Entry -> β} (peeks : Peeks op (Spec.reading first key))
    (composed : forall entry, change (first entry) = second entry) :
    Peeks (op >>= fun value => pure (change value)) (Spec.reading second key) := by
  intro world space ready
  refine Cmd.wp_step (peeks world space ready) ?_ (fun _ _ never => never)
  rintro value after ⟨now, reads, equal, reached⟩
  refine ⟨now, reads, ?_, reached⟩
  rw [<- equal]
  exact (composed _).symm

/-- The state after `find_writable`: an expired node is gone, and `found` is where the
node of the key is. -/
structure Opened (world after : World) (key : Bytes) (space : Keyspace) (now : Int64)
    (found : Option Addr) : Prop where
  reads : world.Reads now
  reached : Reached world after [] (Spec.writable (world.time now) key space).space
    (Spec.writable (world.time now) key space).records
  result : (Spec.writable (world.time now) key space).result = found.map after.db.entry
  short : key.length ≤ Node.maxKeyLength
  located : after.db.findNode key = found
  wall : after.wall = world.wall

/-- Operations start by looking their key up. -/
theorem wp_findWritable {α : Type} {rest : Option Addr -> Op α} {Q : α -> World -> Prop}
    (ready : Ready world space) (long : Node.maxKeyLength < key.length -> oversize)
    (next : forall now found after, Opened world after key space now found ->
      (rest found).wp Q (fun thrown after => Aborted world after key space oversize thrown) after) :
    (findWritable key >>= rest).wp Q
      (fun thrown after => Aborted world after key space oversize thrown) world := by
  refine Cmd.wp_step (findWritable_spec ready.reached key) ?_ ?_
  · rintro found after ⟨⟨now, reads, reached, result⟩, short, located, wall⟩
    exact next now found after ⟨reads, reached, result, short, located, wall⟩
  · intro thrown after failed
    exact Or.inl (failed.weaken long)

theorem Opened.returns {α : Type} {now : Int64} {found : Option Addr} {last : World} {result : α}
    {spec : Option Int64 -> Keyspace -> Spec.Outcome α}
    (opened : Opened origin world key space now found)
    (equal : spec (origin.time now) space = ⟨result, later, records⟩)
    (reached : Reached origin last [] later records) :
    exists now, origin.Reads now ∧ (spec (origin.time now) space).result = result ∧
      Reached origin last [] (spec (origin.time now) space).space
        (spec (origin.time now) space).records := by
  refine ⟨now, opened.reads, ?_⟩
  rw [equal]
  exact ⟨rfl, reached⟩

theorem Opened.aborted {now : Int64} {found : Option Addr} {last : World}
    (opened : Opened origin world key space now found)
    (failed : Thrown origin last [] (Spec.writable (origin.time now) key space).space
      (Spec.writable (origin.time now) key space).records oversize thrown) :
    Aborted origin last key space oversize thrown :=
  Or.inr ⟨now, opened.reads, failed⟩

/-- Steps that leave the database and the wall clock alone. -/
theorem Opened.advance {now : Int64} {found : Option Addr} {last : World}
    (opened : Opened origin world key space now found)
    (reached : Reached origin last [] (Spec.writable (origin.time now) key space).space
      (Spec.writable (origin.time now) key space).records)
    (same : last.db = world.db) (wall : last.wall = world.wall) :
    Opened origin last key space now found where
  reads := opened.reads
  reached := reached
  result := by
    rw [same]
    exact opened.result
  short := opened.short
  located := by
    rw [same]
    exact opened.located
  wall := wall.trans opened.wall

/-- Code that only takes memory: it computes a value and changes nothing. -/
def Prepares {α : Type} (body : Op α) (post : α -> Prop) : Prop :=
  forall ⦃origin world : World⦄ ⦃pending : List Addr⦄ ⦃space : Keyspace⦄
    ⦃records : List Wal.Record⦄ ⦃oversize : Prop⦄,
    Reached origin world pending space records ->
      body.wp
        (fun value after => post value ∧ Reached origin after pending space records ∧
          after.db = world.db ∧ after.wall = world.wall)
        (fun thrown after => Thrown origin after pending space records oversize thrown) world

theorem prepares_pure {α : Type} {value : α} {post : α -> Prop} (holds : post value) :
    Prepares (pure value) post := by
  intro origin world pending space records oversize reached
  exact ⟨holds, reached, rfl, rfl⟩

theorem prepares_allocate : Prepares allocate (fun _ => True) := by
  intro origin world pending space records oversize reached
  refine Cmd.wp_mono (allocate_spec reached) ?_ (fun _ _ failed => failed.1)
  rintro _ after ⟨later, same, wall⟩
  exact ⟨trivial, later, same, wall⟩

theorem Prepares.bind {α β : Type} {body : Op α} {rest : α -> Op β} {post : α -> Prop}
    {final : β -> Prop} (first : Prepares body post)
    (second : forall value, post value -> Prepares (rest value) final) :
    Prepares (body >>= rest) final := by
  intro origin world pending space records oversize reached
  refine Cmd.wp_step (first reached) ?_ (fun _ _ failed => failed)
  rintro value middle ⟨holds, later, same, wall⟩
  refine Cmd.wp_mono (second value holds later) ?_ (fun _ _ failed => failed)
  rintro result last ⟨final, reached, sameLater, wallLater⟩
  exact ⟨final, reached, sameLater.trans same, wallLater.trans wall⟩

theorem Prepares.mono {α : Type} {body : Op α} {post final : α -> Prop}
    (prepares : Prepares body post) (implies : forall value, post value -> final value) :
    Prepares body final := by
  intro origin world pending space records oversize reached
  refine Cmd.wp_mono (prepares reached) ?_ (fun _ _ failed => failed)
  rintro value after ⟨holds, kept⟩
  exact ⟨implies value holds, kept⟩

/-- A reader that copies what it found.  It may run out of memory, and has
moved the key to the front by then. -/
theorem copied_spec {α : Type} {view : Op (Except ErrorCode (Option α))} {copy : α -> Op Unit}
    {answer : Option Entry -> Except ErrorCode (Option α)}
    (peeks : Peeks view (Spec.reading answer key)) (absent : answer none = .ok none)
    (prepares : forall value, Prepares (copy value) fun _ => True) (ready : Ready world space) :
    (copied copy view).wp
      (fun result after => exists now, world.Reads now ∧
        answer (Spec.active (world.time now) key space).result = result ∧
        Reached world after [] (Spec.active (world.time now) key space).space [])
      (fun thrown after => exists now, world.Reads now ∧
        (Spec.writable (world.time now) key space).space =
          (Spec.active (world.time now) key space).space ∧
        (Spec.writable (world.time now) key space).records = [] ∧
        Thrown world after [] (Spec.active (world.time now) key space).space [] False thrown)
      world := by
  refine Cmd.wp_step (peeks world space ready) ?_ (fun _ _ never => never.elim)
  rintro result after ⟨now, reads, rfl, reached⟩
  change (copyFound copy (answer _) >>= fun _ => pure (answer _)).wp _ _ after
  cases result : answer (Spec.active (world.time now) key space).result with
  | error code => exact ⟨now, reads, result, reached⟩
  | ok found =>
      cases found with
      | none => exact ⟨now, reads, result, reached⟩
      | some value =>
          have touched := Spec.writable_of_active fun missing => by
            rw [missing, absent] at result
            cases result
          refine Cmd.wp_step (prepares value reached) ?_
            (fun _ _ failed => ⟨now, reads, touched.1, touched.2, failed⟩)
          rintro _ last ⟨-, reached, -⟩
          exact ⟨now, reads, result, reached⟩

theorem copied_implements {α : Type} {view : Op (Except ErrorCode (Option α))} {copy : α -> Op Unit}
    {answer : Option Entry -> Except ErrorCode (Option α)}
    (peeks : Peeks view (Spec.reading answer key)) (absent : answer none = .ok none)
    (prepares : forall value, Prepares (copy value) fun _ => True) :
    Implements (copied copy view) key False (Spec.reading answer key) := by
  intro world space ready
  refine Cmd.wp_mono (copied_spec peeks absent prepares ready) (fun _ _ holds => holds) ?_
  rintro thrown after ⟨now, reads, space, records, failed⟩
  rw [<- space, <- records] at failed
  exact Or.inr ⟨now, reads, failed⟩

theorem Opened.wp_prepares {α β : Type} {now : Int64} {found : Option Addr} {body : Op α}
    {post : α -> Prop} {rest : α -> Op β} {Q : β -> World -> Prop}
    (opened : Opened origin world key space now found) (prepares : Prepares body post)
    (next : forall value after, post value -> Opened origin after key space now found ->
      after.db = world.db ->
      (rest value).wp Q (fun thrown after => Aborted origin after key space oversize thrown)
        after) :
    (body >>= rest).wp Q (fun thrown after => Aborted origin after key space oversize thrown)
      world := by
  refine Cmd.wp_step (prepares opened.reached) ?_ (fun _ _ => opened.aborted)
  rintro value after ⟨holds, reached, same, wall⟩
  exact next value after holds (opened.advance reached same wall) same

/-- Only a new key can fill the table, and a new key has no node yet. -/
theorem rehashFor_spec {now : Int64} {found : Option Addr}
    (opened : Opened origin world key space now found) :
    (rehashFor found).wp
      (fun _ after => Opened origin after key space now found ∧
        found.map after.db.node = found.map world.db.node)
      (fun thrown after => Aborted origin after key space oversize thrown) world := by
  unfold rehashFor
  refine Cmd.wp_onlyIf ?_ ?_
  · intro absent
    refine Cmd.wp_mono (maybeRehash_spec opened.reached) ?_ (fun _ _ => opened.aborted)
    rintro _ after ⟨reached, same, wall⟩
    refine ⟨⟨opened.reads, reached, ?_, opened.short, (same key).trans opened.located,
      wall.trans opened.wall⟩, ?_⟩
    · rw [opened.result, absent]
      rfl
    · rw [absent]
      rfl
  · intro _
    exact ⟨opened, rfl⟩

theorem Opened.deadline {now : Int64} {found : Option Addr}
    (opened : Opened origin world key space now found) :
    (Spec.writable (origin.time now) key space).result.bind Entry.deadline =
      found.bind world.db.deadline := by
  rw [opened.result]
  cases found with
  | none => rfl
  | some addr => rfl

theorem Opened.modify {now : Int64} {change : Node -> Node} {last : World}
    (opened : Opened origin world key space now (some addr))
    (reached : Reached origin last [] (Spec.writable (origin.time now) key space).space records)
    (found : last.db.findNode key = some fresh) (laid : (change (last.db.node fresh)).Laid)
    (size : (change (last.db.node fresh)).blockSize = (last.db.node fresh).blockSize)
    (sameKey : (change (last.db.node fresh)).key = (last.db.node fresh).key)
    (holds : (change (last.db.node fresh)).Holds value) :
    Reached origin { last with db := last.db.modifyNode fresh change } []
        (Spec.store (Spec.writable (origin.time now) key space) key value true) records ∧
      (last.db.modifyNode fresh change).findNode key = some fresh ∧
      (last.db.modifyNode fresh change).node fresh = change (last.db.node fresh) := by
  have modified := reached.rep.modify found laid size sameKey holds
  rw [<- Spec.setValue_writable opened.result]
  exact ⟨reached.modifyDb modified.1 ⟨rfl, rfl⟩, modified.2⟩

/-- Operations that change a node in its place log first. -/
theorem Opened.wp_logModify {α : Type} {now : Int64} {change : Node -> Node} {last : World}
    {op : WalOp} {args : List Bytes} {rest : Op α} {Q : α -> World -> Prop}
    (opened : Opened origin world key space now (some addr))
    (reached : Reached origin last [] (Spec.writable (origin.time now) key space).space
      (Spec.writable (origin.time now) key space).records)
    (found : last.db.findNode key = some fresh) (laid : (change (last.db.node fresh)).Laid)
    (size : (change (last.db.node fresh)).blockSize = (last.db.node fresh).blockSize)
    (sameKey : (change (last.db.node fresh)).key = (last.db.node fresh).key)
    (holds : (change (last.db.node fresh)).Holds value)
    (next : forall after,
      Reached origin after [] (Spec.store (Spec.writable (origin.time now) key space) key value true)
          ((Spec.writable (origin.time now) key space).records ++ [Spec.record op args]) ∧
        after.db.findNode key = some fresh ∧
        after.db.node fresh = change (last.db.node fresh) ->
      rest.wp Q (fun thrown after => Aborted origin after key space oversize thrown) after) :
    (log op args >>= fun _ => modifyDb (Db.modifyNode fresh change) >>= fun _ => rest).wp Q
      (fun thrown after => Aborted origin after key space oversize thrown) last := by
  refine Cmd.wp_step (log_spec reached op args) ?_ (fun _ _ failed => opened.aborted failed.1)
  rintro _ logged ⟨reached, same, -⟩
  unfold modifyDb
  rw [Cmd.wp_bind, Cmd.wp_update]
  rw [<- same] at found laid size sameKey holds next
  exact next _ (opened.modify reached found laid size sameKey holds)

/-- Operations that take the last thing out of a node log first and erase the
node afterwards; the emptied node itself stands for nothing. -/
theorem Opened.wp_logErase {α : Type} {now : Int64} {change : Node -> Node} {last : World}
    {op : WalOp} {args : List Bytes} {rest : Op α} {Q : α -> World -> Prop}
    (opened : Opened origin world key space now (some addr))
    (reached : Reached origin last [] (Spec.writable (origin.time now) key space).space
      (Spec.writable (origin.time now) key space).records)
    (found : last.db.findNode key = some fresh)
    (size : (change (last.db.node fresh)).blockSize = (last.db.node fresh).blockSize)
    (sameKey : (change (last.db.node fresh)).key = (last.db.node fresh).key)
    (next : forall after, after.db.node fresh = change (last.db.node fresh) ->
      Reached origin { after with db := after.db.eraseNode fresh } []
        ((Spec.writable (origin.time now) key space).space.erase key)
        ((Spec.writable (origin.time now) key space).records ++ [Spec.record op args]) ->
      rest.wp Q (fun thrown after => Aborted origin after key space oversize thrown) after) :
    (log op args >>= fun _ => modifyDb (Db.modifyNode fresh change) >>= fun _ => rest).wp Q
      (fun thrown after => Aborted origin after key space oversize thrown) last := by
  refine Cmd.wp_step (log_spec reached op args) ?_ (fun _ _ failed => opened.aborted failed.1)
  rintro _ logged ⟨reached, same, -⟩
  unfold modifyDb
  rw [Cmd.wp_bind, Cmd.wp_update]
  rw [<- same] at found size sameKey next
  have erased := reached.modifyDb (reached.rep.erase found) Db.settings_eraseNode
  rw [<- Db.eraseNode_modifyNode sameKey size] at erased
  exact next _ (reached.rep.node_modify found) erased

/-- What the records of an installed node have to achieve: they are logged in
order, or an exception leaves what was there. -/
def Logs (body : Op Unit) (more : List Wal.Record) : Prop :=
  forall {origin world : World} {pending : List Addr} {space : Keyspace}
    {records : List Wal.Record} {oversize : Prop},
    Reached origin world pending space records ->
      body.wp
        (fun _ after => Reached origin after pending space (records ++ more) ∧
          after.db = world.db)
        (fun thrown after => Thrown origin after pending space records oversize thrown) world

theorem logs_logBatch {size : Nat} (op : WalOp) (batch : List (List Bytes))
    (small : forall args, args ∈ batch ->
      args.length ≤ 255 ∧ (Wal.payload (Spec.record op args)).length + 8 ≤ size) :
    Logs (logBatch size op batch) (batch.map (Spec.record op)) := by
  intro origin world pending space records oversize reached
  exact logBatch_spec reached op batch small

theorem logs_log (op : WalOp) (args : List Bytes) : Logs (log op args) [Spec.record op args] := by
  intro origin world pending space records oversize reached
  refine Cmd.wp_mono (log_spec reached op args) ?_ (fun _ _ failed => failed.1)
  rintro _ after ⟨later, same, -⟩
  exact ⟨later, same⟩

/-- A new node that has been filled holds a value. -/
def Fills (fill : Node -> Node) (key : Bytes) (type : NodeType) (capacity : Nat)
    (value : Stored) : Prop :=
  forall garbage, (Node.fresh key type capacity garbage).Laid ->
    capacity ≤ (Node.fresh key type capacity garbage).bodyCapacity ->
    (fill (Node.fresh key type capacity garbage)).Laid ∧
      (fill (Node.fresh key type capacity garbage)).blockSize =
        (Node.fresh key type capacity garbage).blockSize ∧
      (fill (Node.fresh key type capacity garbage)).key = key ∧
      (fill (Node.fresh key type capacity garbage)).Holds value

/-- An installed node replaces the entry of its key. -/
theorem install_spec {now : Int64} {found : Option Addr} {type : NodeType} {capacity : Nat}
    {fill : Node -> Node} {body : Op Unit} {more : List Wal.Record} {keepTtl : Bool}
    (opened : Opened origin world key space now found) (small : capacity ≤ 2 ^ 31)
    (filled : Fills fill key type capacity value) (logs : Logs body more) :
    (install found key type capacity fill body keepTtl).wp
      (fun fresh after =>
        Reached origin after []
          (Spec.store (Spec.writable (origin.time now) key space) key value keepTtl)
          ((Spec.writable (origin.time now) key space).records ++ more) ∧
        after.db.findNode key = some fresh ∧
        exists garbage, after.db.node fresh = fill (Node.fresh key type capacity garbage))
      (fun thrown after => Aborted origin after key space oversize thrown) world := by
  unfold install
  refine Cmd.wp_step (createNode_spec opened.reached opened.short small) ?_
    (fun _ _ => opened.aborted)
  rintro pending created ⟨reached, ⟨garbage, node⟩, laid, room, same, deadlines⟩
  have fill_spec := filled garbage (node ▸ laid) (node ▸ room)
  rw [<- node] at fill_spec
  rcases fill_spec with ⟨fillLaid, fillSize, fillKey, fillHolds⟩
  have nodeKey : (created.db.node pending).key = key := by rw [node]; rfl
  have modified := reached.rep.modifyPending List.mem_cons_self fillLaid fillSize
    (fillKey.trans nodeKey.symm)
  unfold modifyDb
  rw [Cmd.wp_bind, Cmd.wp_update, Cmd.wp_bind]
  have owned := reached.modifyDb modified.1 ⟨rfl, rfl⟩
  refine Cmd.wp_mono (Q := fun _ after => Reached origin after [pending] _ _ ∧
    after.db = created.db.modifyNode pending fill) (wp_guarded (logs owned)) ?_
    (fun _ _ => opened.aborted)
  rintro _ logged ⟨reached, sameDb⟩
  rw [Cmd.wp_bind, Cmd.wp_update, Cmd.wp_pure]
  have pendingNode : logged.db.node pending = fill (created.db.node pending) := by
    rw [sameDb]
    exact modified.2.2
  have pendingKey : logged.db.key pending = key := by
    unfold Db.key
    rw [pendingNode, fillKey]
  have located : logged.db.findNode (logged.db.key pending) = found := by
    rw [pendingKey, sameDb, modified.2.1, same, opened.located]
  have holds : (logged.db.node pending).Holds value := by
    rw [pendingNode]
    exact fillHolds
  unfold Spec.store
  rw [opened.deadline]
  cases found with
  | none =>
      have committed := @Db.Rep.commitNew logged.db [] _ pending value keepTtl reached.rep located
        holds
      rw [pendingKey] at committed
      rw [Option.bind_none, ite_self]
      refine ⟨reached.modifyDb committed.1 Db.settings_commitNode, committed.2.1, garbage, ?_⟩
      rw [<- node, <- pendingNode]
      exact committed.2.2
  | some addr =>
      have committed := @Db.Rep.commitReplace logged.db [] _ addr pending value keepTtl reached.rep
        located holds
      rw [pendingKey] at committed
      have deadline : logged.db.deadline addr = world.db.deadline addr := by
        rw [sameDb]
        exact deadlines addr
      rw [deadline] at committed
      refine ⟨reached.modifyDb committed.1 Db.settings_commitNode, committed.2.1, garbage, ?_⟩
      rw [<- node, <- pendingNode]
      exact committed.2.2

end Database

end Reddish
