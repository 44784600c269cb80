import Reddish.Database.Recency

namespace Reddish

open Library Numeral

/-!
# The oldest keys are evicted

A run comes with the history of its accesses, those of replayed records
included.  The recency list is in the order of that history in every state of
every run, so that the keys that `evict_to` takes from its end are the ones
that were not used for the longest time.
-/

namespace Database

/-! ## Opening a log -/

def recordKey (record : Wal.Record) : Bytes :=
  record.args.getD 0 []

/-- A replayed record accesses its key if the key is there before or
afterwards; during a replay no key counts as expired.  Only `expire_at` finds
its node by itself. -/
def replayAccesses (record : Wal.Record) (before after : World) : List Bytes :=
  if WalOp.ofCode record.op = some .expireAt then []
  else if (before.db.findNode (recordKey record)).isSome ∨
      (after.db.findNode (recordKey record)).isSome then [recordKey record]
  else []

/-- Records that were replayed one after another, with their accesses. -/
inductive Replayed (start : World) : List Bytes -> World -> Prop where
  | nothing : Replayed start [] start
  | record {world after : World} {history : List Bytes} (earlier : Replayed start history world)
      (record : Wal.Record) (ran : replayFrame record world = (.ok (), after)) :
      Replayed start (replayAccesses record world after ++ history) after

/-- A log was read: memory was allocated, and then its records were replayed. -/
def Loaded (opening : Wal.Opening) (start : World) (history : List Bytes) (wal : Wal)
    (loaded : World) : Prop :=
  exists garbage middle, allocate start = (.ok garbage, middle) ∧
    Wal.construct opening replayFrame middle = (.ok wal, loaded) ∧ Replayed middle history loaded

def replayStart (world : World) : World :=
  { world with db := { world.db with replaying := true } }

/-- Runs with the keys they access, the latest access first.  A log that is
opened contributes the accesses of its records, if it can be read. -/
inductive Traced : World -> List Bytes -> Prop where
  | start (maxKeys : Nat) (steady wall : Clock) (allocations : Nat -> Option (Nat -> UInt8))
      (orders : Nat -> TableOrder) : Traced (fresh maxKeys steady wall allocations orders) []
  | call {world after : World} {history : List Bytes} {outcome : Except Exn Unit}
      (traced : Traced world history) (call : Call)
      (other : forall opening, call ≠ .openWal opening)
      (ran : call.perform world = (outcome, after)) :
      Traced after (call.accesses world ++ history)
  | opened {world loaded after : World} {history accesses : List Bytes} {wal : Wal}
      {outcome : Except Exn Unit} (traced : Traced world history) (opening : Wal.Opening)
      (closed : world.wal = none) (empty : world.db.keyTotal = 0)
      (loads : Loaded opening (replayStart world) accesses wal loaded)
      (ran : openWal opening world = (outcome, after)) : Traced after (accesses ++ history)
  | unopened {world after : World} {history : List Bytes} {outcome : Except Exn Unit}
      (traced : Traced world history) (opening : Wal.Opening)
      (fails : world.wal = none -> world.db.keyTotal = 0 ->
        forall accesses wal loaded, ¬ Loaded opening (replayStart world) accesses wal loaded)
      (ran : openWal opening world = (outcome, after)) : Traced after history

end Database

namespace Spec

variable {restamp : Int64 -> Int64} {record : Wal.Record} {space later : Keyspace} {key : Bytes}

theorem keys_replayPlan {α : Type} {plan : Option Entry -> Plan (Except ErrorCode α)}
    (replayed : replayPlan key plan space = some later) :
    later.keys.Sublist (moveToFront key space.keys) := by
  unfold replayPlan at replayed
  split at replayed
  · cases replayed
    exact keys_apply
  · cases replayed

theorem keys_replayAlways {α : Type} {plan : Option Entry -> Plan α} :
    (replayAlways key plan space).keys.Sublist (moveToFront key space.keys) :=
  keys_apply

theorem keys_replayExpireAt {stamp : Bytes}
    (replayed : replayExpireAt restamp key stamp space = some later) : later.keys = space.keys := by
  unfold replayExpireAt at replayed
  split at replayed
  · split at replayed
    · cases replayed
    · cases replayed
      exact Keyspace.keys_modify fun _ => rfl
  · cases replayed

/-- A record puts its key in front or removes it, except for `expire_at`, which
leaves the order alone. -/
theorem keys_replay (replayed : replay restamp record space = some later) :
    (WalOp.ofCode record.op = some .expireAt -> later.keys = space.keys) ∧
      (WalOp.ofCode record.op ≠ some .expireAt ->
        later.keys.Sublist (moveToFront (Database.recordKey record) space.keys)) := by
  unfold replay at replayed
  split at replayed
  case isFalse => cases replayed
  case isTrue wellFormed =>
    unfold Database.recordKey
    cases kind : WalOp.ofCode record.op with
    | none =>
        rw [kind] at replayed
        cases replayed
    | some op =>
        rw [kind] at replayed
        unfold applyRecord at replayed
        cases op with
        | expireAt => exact ⟨fun _ => keys_replayExpireAt replayed, fun other => absurd rfl other⟩
        | set =>
            refine ⟨nofun, fun _ => ?_⟩
            simp only at replayed
            split at replayed
            · cases replayed
            · cases replayed
              exact keys_replayAlways
        | increment =>
            exact ⟨nofun, fun _ => keys_replayPlan replayed⟩
        | pushLeft | pushRight =>
            rcases Option.bind_eq_some_iff.mp replayed with ⟨value, -, replayed⟩
            exact ⟨nofun, fun _ => keys_replayPlan replayed⟩
        | popLeft | popRight =>
            exact ⟨nofun, fun _ => keys_replayPlan replayed⟩
        | hashSet =>
            rcases Option.bind_eq_some_iff.mp replayed with ⟨value, -, replayed⟩
            exact ⟨nofun, fun _ => keys_replayPlan replayed⟩
        | hashDel =>
            exact ⟨nofun, fun _ => keys_replayPlan replayed⟩
        | del =>
            refine ⟨nofun, fun _ => ?_⟩
            cases replayed
            exact keys_replayAlways
        | integerSet =>
            refine ⟨nofun, fun _ => ?_⟩
            rcases Option.map_eq_some_iff.mp replayed with ⟨n, -, rfl⟩
            rw [Keyspace.keys_put]

end Spec

namespace Database

variable {start world after loaded : World} {space : Keyspace} {history accesses : List Bytes}
variable {opening : Wal.Opening} {wal : Wal}

/-- A record that was replayed keeps the keys in order, apart from the one it
accesses. -/
theorem replayFrame_reorders {record : Wal.Record} (ready : Ready world space)
    (replaying : world.db.replaying = true) (ran : replayFrame record world = (.ok (), after)) :
    exists later, Ready after later ∧ after.db.replaying = true ∧
      later.keys.Sublist ((replayAccesses record world after).foldr moveToFront space.keys) := by
  have replays := Cmd.of_wp_ok (replays_replayFrame record ready replaying) ran
  rcases replays with ⟨later, replayed, applied⟩
  refine ⟨later, applied.ready, applied.evolves.replaying.trans replaying, ?_⟩
  have keys := Spec.keys_replay replayed
  unfold replayAccesses
  split
  case isTrue expires =>
    rw [keys.1 expires]
    exact List.Sublist.refl _
  case isFalse other =>
    split
    · exact keys.2 other
    case isFalse gone =>
      refine sublist_of_moveToFront (keys.2 other) ?_
      have absent : after.db.findNode (recordKey record) = none := by
        rw [not_or] at gone
        simpa using gone.2
      exact Keyspace.notMem_keys_of_find (applied.ready.rep.find_none absent)

/-- The records of a log leave the keys in the order of their accesses. -/
theorem Replayed.recency (replayed : Replayed start history world) (ready : Ready start [])
    (replaying : start.db.replaying = true) :
    exists later, Ready world later ∧ world.db.replaying = true ∧ ByRecency history later.keys := by
  induction replayed with
  | nothing => exact ⟨[], ready, replaying, ByRecency.nil⟩
  | record earlier record ran ih =>
      rcases ih with ⟨middle, readyMiddle, still, recent⟩
      rcases replayFrame_reorders readyMiddle still ran with ⟨later, readyLater, again, sub⟩
      exact ⟨later, readyLater, again, recent.uses _ sub⟩

theorem openWal_refused_eq (refused : world.wal.isSome = true ∨ world.db.keyTotal ≠ 0) :
    openWal opening world = (.error (.error .diskReadFailed), world) := by
  change (if world.wal.isSome = true ∨ world.db.keyTotal ≠ 0 then
    Cmd.raise (.error .diskReadFailed) else _ : Op Unit) world = _
  rw [if_pos refused]
  rfl

/-- `open_wal` on an empty database without a log. -/
theorem openWal_eq (closed : world.wal = none) (empty : world.db.keyTotal = 0) :
    openWal opening world =
      (constructWal opening >>= fun wal => do
        Cmd.update (fun world => { world with wal := some wal })
        setReplaying false
        removeExpiredLocked noExpiryLimit) (replayStart world) := by
  have fine : ¬ (world.wal.isSome = true ∨ world.db.keyTotal ≠ 0) := by
    rw [closed, empty]
    simp
  change (if world.wal.isSome = true ∨ world.db.keyTotal ≠ 0 then
    Cmd.raise (.error .diskReadFailed) else _ : Op Unit) world = _
  rw [if_neg fine]
  rfl

/-- A log that can be read is read record by record. -/
theorem constructWal_loads :
    (constructWal opening).wp (fun wal loaded => exists accesses,
      Loaded opening start accesses wal loaded) (fun _ _ => True) start := by
  unfold constructWal
  rw [Cmd.wp_handle, Cmd.wp_bind]
  have allocated := Cmd.wp_ran (@Cmd.wp_of_forall _ _ _ (fun _ _ => True) (fun _ _ => True) start
    allocate (fun _ _ => trivial) (fun _ _ => trivial))
  refine Cmd.wp_mono allocated ?_ ?_
  · rintro garbage middle ⟨-, allocated⟩
    have read := @Wal.construct_spec _ replayFrame
      (fun loaded => exists accesses, Replayed middle accesses loaded) (fun _ => True)
      (fun _ _ => trivial) ?_ opening middle ⟨[], .nothing⟩
    · refine Cmd.wp_mono (Cmd.wp_ran read) ?_ ?_
      · rintro wal loaded ⟨⟨⟨accesses, replayed⟩, -⟩, constructed⟩
        exact ⟨accesses, garbage, middle, allocated, constructed, replayed⟩
      · exact fun _ _ _ => trivial
    · rintro record world ⟨accesses, replayed⟩
      refine Cmd.wp_mono (Cmd.wp_ran (Cmd.wp_of_forall (fun _ _ => trivial) fun _ _ => trivial)) ?_ ?_
      · rintro _ after ⟨-, ran⟩
        exact ⟨_, replayed.record record ran⟩
      · exact fun _ _ _ => trivial
  · exact fun _ _ _ => trivial

theorem Loaded.constructs (loads : Loaded opening start accesses wal loaded) :
    constructWal opening start = (.ok wal, loaded) := by
  rcases loads with ⟨garbage, middle, allocated, constructed, -⟩
  have body : (allocate >>= fun _ => Wal.construct opening replayFrame) start =
    (.ok wal, loaded) := by
    change Cmd.bind allocate _ start = _
    rw [Cmd.bind, allocated]
    exact constructed
  unfold constructWal Cmd.handle
  rw [body]

/-- After a log was read, the keys are in the order of the accesses of its
records. -/
theorem Loaded.recency {outcome : Except Exn Unit}
    (loads : Loaded opening (replayStart world) accesses wal loaded) (ready : Ready world space)
    (closed : world.wal = none) (empty : world.db.keyTotal = 0)
    (ran : openWal opening world = (outcome, after)) : ByRecency accesses after.db.keys := by
  have nothing : space = [] := by
    rw [ready.rep.length] at empty
    exact List.eq_nil_of_length_eq_zero empty
  rw [nothing] at ready
  have begun : Ready (replayStart world) [] := ready.setReplaying
  have built := constructWal_spec opening ⟨[], begun⟩
  have sound := (Cmd.of_wp_ok built loads.constructs).2
  rw [openWal_eq closed empty] at ran
  change Cmd.bind (constructWal opening) _ (replayStart world) = _ at ran
  rw [Cmd.bind, loads.constructs] at ran
  rcases loads with ⟨garbage, middle, allocated, -, replayed⟩
  have kept := Cmd.of_wp_ok (@allocate_spec _ _ _ _ _ False begun.reached) allocated
  rcases kept with ⟨reached, same, -⟩
  have replaying : middle.db.replaying = true := by
    rw [same]
    rfl
  rcases replayed.recency reached.ready replaying with ⟨later, ready, -, recent⟩
  have attached : Ready { loaded with wal := some wal } later := ready.attach sound
  have live : Ready { loaded with wal := some wal, db := { loaded.db with replaying := false } }
      later := attached.setReplaying
  have shrunk := Cmd.wp_final (shrinks_removeExpiredLocked noExpiryLimit _ later live) ran
  rcases shrunk with ⟨last, done, sub⟩
  rw [done.rep.keys]
  exact recent.sublist (sub.map Entry.key)

/-- A log that cannot be read leaves no keys behind. -/
theorem unopened_keys {outcome : Except Exn Unit} (idle : Idle world) (closed : world.wal = none)
    (empty : world.db.keyTotal = 0)
    (fails : forall accesses wal loaded, ¬ Loaded opening (replayStart world) accesses wal loaded)
    (ran : openWal opening world = (outcome, after)) : after.db.keys = [] := by
  have started : Idle (replayStart world) := idle.setReplaying
  have built := constructWal_spec opening started
  have read := @constructWal_loads (replayStart world) opening
  rw [openWal_eq closed empty] at ran
  change Cmd.bind (constructWal opening) _ (replayStart world) = _ at ran
  unfold Cmd.bind at ran
  rcases constructed : constructWal opening (replayStart world) with ⟨thrown | wal, later⟩
  · have emptied := Cmd.of_wp_error built constructed
    rw [constructed] at ran
    cases ran
    exact emptied.1.rep.keys
  · have loaded := Cmd.of_wp_ok read constructed
    rcases loaded with ⟨accesses, loads⟩
    exact absurd loads (fails accesses wal later)

/-- Every run keeps the keys in the order of their last access. -/
theorem Traced.recency (traced : Traced world history) :
    Reachable world ∧ ByRecency history world.db.keys := by
  induction traced with
  | start maxKeys steady wall allocations orders =>
      have none : (fresh maxKeys steady wall allocations orders).db.keys = [] :=
        (rep_empty maxKeys).keys
      refine ⟨Reachable.start .., ?_⟩
      rw [none]
      exact ByRecency.nil
  | call traced call other ran ih =>
      rcases ih with ⟨reachable, recent⟩
      rcases reachable.idle with ⟨space, ready⟩
      have sub := Call.reorders ready reachable.live other
      rw [ran, <- ready.rep.keys] at sub
      exact ⟨Reachable.call reachable call ran, recent.uses _ sub⟩
  | @opened world loaded after history accesses wal outcome traced opening closed empty loads ran
      ih =>
      rcases ih with ⟨reachable, -⟩
      refine ⟨Reachable.call reachable (.openWal opening) ran, ByRecency.append ?_ history⟩
      rcases reachable.idle with ⟨space, ready⟩
      exact loads.recency ready closed empty ran
  | @unopened world after history outcome traced opening fails ran ih =>
      rcases ih with ⟨reachable, recent⟩
      refine ⟨Reachable.call reachable (.openWal opening) ran, ?_⟩
      by_cases refused : world.wal.isSome = true ∨ world.db.keyTotal ≠ 0
      · rw [openWal_refused_eq refused] at ran
        cases ran
        exact recent
      · have fine : world.wal = none ∧ world.db.keyTotal = 0 := by simpa using refused
        rw [unopened_keys reachable.idle fine.1 fine.2 (fails fine.1 fine.2) ran]
        exact ByRecency.nil

/-- Every run has a history. -/
theorem Reachable.traced (reachable : Reachable world) : exists history, Traced world history := by
  induction reachable with
  | start maxKeys steady wall allocations orders => exact ⟨[], .start ..⟩
  | @call world after outcome reachable call ran ih =>
      rcases ih with ⟨history, traced⟩
      by_cases other : forall opening, call ≠ .openWal opening
      · exact ⟨_, traced.call call other ran⟩
      · rcases not_forall_not.mp other with ⟨opening, rfl⟩
        by_cases loads : world.wal = none ∧ world.db.keyTotal = 0 ∧
          exists accesses wal loaded, Loaded opening (replayStart world) accesses wal loaded
        · rcases loads with ⟨closed, empty, accesses, wal, loaded, loads⟩
          exact ⟨_, traced.opened opening closed empty loads ran⟩
        · refine ⟨history, traced.unopened opening ?_ ran⟩
          intro closed empty accesses wal loaded loaded'
          exact loads ⟨closed, empty, accesses, wal, loaded, loaded'⟩

end Database

/-! ## Eviction -/

namespace Spec

/-- The keys at the end go, the last one first. -/
theorem evict_eq (target limit : Nat) (space : Keyspace) :
    evict target limit space =
      ⟨min limit (space.length - target),
        space.take (space.length - min limit (space.length - target)),
        (space.drop (space.length - min limit (space.length - target))).reverse.map
          fun entry => record .del [entry.key]⟩ := by
  induction limit generalizing space with
  | zero => simp [evict]
  | succ limit ih =>
      unfold evict
      split
      case isTrue few =>
        have none : min (limit + 1) (space.length - target) = 0 := by omega
        rw [none]
        simp
      case isFalse many =>
        rcases List.eq_nil_or_concat' space with rfl | ⟨front, oldest, rfl⟩
        · exact absurd (Nat.zero_le target) many
        · rw [List.getLast?_concat, List.dropLast_concat]
          simp only [ih]
          rw [List.length_append, List.length_singleton] at many ⊢
          have count : min (limit + 1) (front.length + 1 - target) =
              min limit (front.length - target) + 1 := by omega
          have inside : front.length + 1 - (min limit (front.length - target) + 1) =
              front.length - min limit (front.length - target) := by omega
          rw [count, inside, List.take_append_of_le_length (Nat.sub_le _ _),
            List.drop_append_of_le_length (Nat.sub_le _ _), List.reverse_concat]
          rfl

end Spec

namespace Database

open World (Healthy)

/-- The oldest keys have gone, as many as `evict_to` may take, and a record was
logged for each of them. -/
structure EvictsOldest (target limit evicted : Nat) (world after : World) : Prop where
  count : evicted = min limit (world.db.keyTotal - target)
  left : after.db.entries = world.db.entries.take (world.db.keyTotal - evicted)
  logged : after.records = world.records ++ if world.logging then
    (world.db.entries.drop (world.db.keyTotal - evicted)).reverse.map
      (fun entry => Spec.record .del [entry.key]) else []

theorem evictTo_oldest {world : World} {space : Keyspace} (ready : Ready world space)
    (target limit : Nat) :
    (evictTo target limit).wp (fun evicted after => EvictsOldest target limit evicted world after)
      (fun _ _ => True) world := by
  refine Cmd.wp_mono (evictTo_spec ready target limit) ?_ (fun _ _ _ => trivial)
  rintro evicted after ⟨rfl, reached⟩
  rw [Spec.evict_eq] at reached ⊢
  refine ⟨?_, ?_, ?_⟩
  · rw [ready.rep.length]
  · rw [reached.rep.entries, ready.rep.entries, ready.rep.length]
  · rw [reached.logged, ready.rep.entries, ready.rep.length]

/-- The recency list is in the order of the last accesses in every state of
every run, and `evict_to` takes the keys at its end. -/
theorem eviction_is_lru :
    (forall world, Reachable world -> exists history, Traced world history) ∧
    (forall world history, Traced world history -> ByRecency history world.db.keys) ∧
    forall world, Reachable world -> forall target limit,
      (evictTo target limit).wp
        (fun evicted after => EvictsOldest target limit evicted world after)
        (fun _ _ => ¬ Healthy world) world := by
  refine ⟨fun world => Reachable.traced, fun world history traced => traced.recency.2, ?_⟩
  intro world reachable target limit
  rcases reachable.idle with ⟨space, ready⟩
  have oldest := evictTo_oldest ready target limit
  by_cases healthy : Healthy world
  · exact Cmd.wp_mono (Cmd.wp_and oldest (evictTo_total ready healthy target limit))
      (fun _ _ both => both.1) (fun _ _ never => never.2.elim)
  · exact Cmd.wp_mono oldest (fun _ _ done => done) (fun _ _ _ => healthy)

/-- Two calls on two keys: the second key is the more recent one. -/
theorem eviction_is_lru_twoKeys :
    ((Call.set [99] []).perform oneKey).2.db.keys = [[99], [97]] ∧
      ByRecency [[99], [97]] ((Call.set [99] []).perform oneKey).2.db.keys := by
  have start : Traced calm [] := Traced.start ..
  have one : Traced oneKey ((Call.set [97] [98]).accesses calm ++ []) :=
    start.call (.set [97] [98]) nofun rfl
  have two := one.call (.set [99] []) nofun rfl
  have accesses : (Call.set [99] []).accesses oneKey ++
      ((Call.set [97] [98]).accesses calm ++ []) = [[99], [97]] := by decide +kernel
  rw [accesses] at two
  exact ⟨by decide +kernel, eviction_is_lru.2.1 _ _ two⟩

end Database

end Reddish
