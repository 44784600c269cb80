import Reddish.Database.Recovery

namespace Reddish

open Library Numeral

/-!
# Runs of the database

A run starts with an empty database and makes any calls in any order, each of
them in any environment and with any outcome.  What holds between two calls is
derived from what every single call keeps.
-/

namespace Database

/-- The public operations of `Database`: those on one key, the maintenance, and
those on the log.  A compaction comes with the outcomes of its system calls. -/
inductive Call where
  | set (key val : Bytes)
  | get (key : Bytes)
  | valueView (key : Bytes)
  | increment (key : Bytes)
  | pushLeft (key : Bytes) (value : Value)
  | pushRight (key : Bytes) (value : Value)
  | pushTexts (key : Bytes) (values : List Bytes) (front : Bool)
  | popLeft (key : Bytes)
  | popRight (key : Bytes)
  | listLength (key : Bytes)
  | hashSet (key field : Bytes) (value : Value)
  | hashSetTexts (key : Bytes) (fields : List Bytes)
  | hashGet (key field : Bytes)
  | hashField (key field : Bytes)
  | hashDel (key field : Bytes)
  | hashLength (key : Bytes)
  | expire (key : Bytes) (seconds : Int64)
  | ttl (key : Bytes)
  | del (key : Bytes)
  | removeExpired (limit : Nat)
  | evictTo (target limit : Nat)
  | openWal (opening : Wal.Opening)
  | flushWal
  | compactWal (environment : Wal.Compacting) (memory : Option Nat)
  | beginWalBatch
  | endWalBatch

/-- Run code for its effect. -/
def discard {α : Type} (op : Op α) : Op Unit := do
  let _ <- op
  pure ()

namespace Call

def key : Call -> Option Bytes
  | set key _ => some key
  | get key => some key
  | valueView key => some key
  | increment key => some key
  | pushLeft key _ => some key
  | pushRight key _ => some key
  | pushTexts key _ _ => some key
  | popLeft key => some key
  | popRight key => some key
  | listLength key => some key
  | hashSet key _ _ => some key
  | hashSetTexts key _ => some key
  | hashGet key _ => some key
  | hashField key _ => some key
  | hashDel key _ => some key
  | hashLength key => some key
  | expire key _ => some key
  | ttl key => some key
  | del key => some key
  | _ => none

def perform : Call -> Op Unit
  | set key val => Database.set key val
  | get key => discard (Database.get key)
  | valueView key => discard (Database.valueView key)
  | increment key => discard (Database.increment key)
  | pushLeft key value => discard (Database.pushLeft key value)
  | pushRight key value => discard (Database.pushRight key value)
  | pushTexts key values front => discard (Database.pushTexts key values front)
  | popLeft key => discard (Database.popLeft key)
  | popRight key => discard (Database.popRight key)
  | listLength key => discard (Database.listLength key)
  | hashSet key field value => discard (Database.hashAssign key field value)
  | hashSetTexts key fields => discard (Database.hashSetTexts key fields)
  | hashGet key field => discard (Database.hashGet key field)
  | hashField key field => discard (Database.hashField key field)
  | hashDel key field => discard (Database.hashDel key field)
  | hashLength key => discard (Database.hashLength key)
  | expire key seconds => discard (Database.expire key seconds)
  | ttl key => discard (Database.ttl key)
  | del key => discard (Database.del key)
  | removeExpired limit => Database.removeExpired limit
  | evictTo target limit => discard (Database.evictTo target limit)
  | openWal opening => Database.openWal opening
  | flushWal => Database.flushWal
  | compactWal environment memory => Database.compactWal environment memory
  | beginWalBatch => Database.beginWalBatch
  | endWalBatch => Database.endWalBatch

end Call

theorem Keeps.discard {α : Type} {fixed : Bytes -> Prop} {op : Op α} (keeps : Keeps fixed op) :
    Keeps fixed (discard op) :=
  keeps.bind fun _ => keeps_pure ()

/-- Every call on a key keeps the invariant and all other keys, whether it
returns or throws.  This is read off the specification of the operation. -/
theorem Call.keeps {call : Call} {key : Bytes} (named : call.key = some key) :
    Keeps (· ≠ key) call.perform := by
  cases call <;> cases named
  case set.refl val => exact (set_spec key val).keeps (Spec.local_set val)
  case get.refl => exact ((get_spec key).keeps (Spec.local_reading _)).discard
  case valueView.refl => exact ((valueView_spec key).keeps (Spec.local_reading _)).discard
  case increment.refl => exact ((increment_spec key).keeps Spec.local_increment).discard
  case pushLeft.refl value =>
    exact ((listPush_spec key value true).keeps (Spec.local_listPush value true)).discard
  case pushRight.refl value =>
    exact ((listPush_spec key value false).keeps (Spec.local_listPush value false)).discard
  case pushTexts.refl values front =>
    exact ((pushTexts_spec key values front).keeps (Spec.local_pushTexts values front)).discard
  case popLeft.refl => exact ((listPop_spec key true).keeps (Spec.local_listPop true)).discard
  case popRight.refl => exact ((listPop_spec key false).keeps (Spec.local_listPop false)).discard
  case listLength.refl => exact ((listLength_spec key).keeps (Spec.local_reading _)).discard
  case hashSet.refl field value =>
    exact ((hashAssign_spec key field value).keeps (Spec.local_hashAssign field value)).discard
  case hashSetTexts.refl fields =>
    exact ((hashSetTexts_spec key fields).keeps (Spec.local_hashSetTexts fields)).discard
  case hashGet.refl field => exact ((hashGet_spec key field).keeps (Spec.local_reading _)).discard
  case hashField.refl field =>
    exact ((hashField_spec key field).keeps (Spec.local_reading _)).discard
  case hashDel.refl field =>
    exact ((hashDel_spec key field).keeps (Spec.local_hashDel field)).discard
  case hashLength.refl => exact ((hashLength_spec key).keeps (Spec.local_reading _)).discard
  case expire.refl seconds => exact (keeps_expire key seconds).discard
  case ttl.refl => exact (keeps_ttl key).discard
  case del.refl => exact ((del_spec key).keeps Spec.local_del).discard

/-- Every call starts and ends between two calls. -/
theorem Call.rests (call : Call) : Rests call.perform := by
  cases named : call.key with
  | some key => exact (Call.keeps named).forget.rests
  | none =>
      cases call with
      | removeExpired limit => exact (keeps_removeExpired limit).rests
      | evictTo target limit => exact (keeps_evictTo target limit).discard.rests
      | openWal opening => exact rests_openWal opening
      | flushWal => exact keeps_flushWal.rests
      | compactWal environment memory => exact rests_compactWal environment memory
      | beginWalBatch => exact keeps_beginWalBatch.rests
      | endWalBatch => exact keeps_endWalBatch.rests
      | _ => cases named

/-- A new database in an environment: two clocks, the answers of the allocator,
and the orders in which hash tables will iterate. -/
def fresh (maxKeys : Nat) (steady wall : Clock) (allocations : Nat -> Option (Nat -> UInt8))
    (orders : Nat -> TableOrder) : World :=
  ⟨Db.empty maxKeys, none, steady, wall, allocations, orders⟩

/-- The states between two calls of a run.  The clocks, the failing allocations and
the outcomes of the calls on the log are arbitrary, and a call may throw. -/
inductive Reachable : World -> Prop where
  | start (maxKeys : Nat) (steady wall : Clock) (allocations : Nat -> Option (Nat -> UInt8))
      (orders : Nat -> TableOrder) : Reachable (fresh maxKeys steady wall allocations orders)
  | call {world after : World} {outcome : Except Exn Unit} (reachable : Reachable world)
      (call : Call) (ran : call.perform world = (outcome, after)) : Reachable after

theorem rep_empty (maxKeys : Nat) : (Db.empty maxKeys).Rep [] [] := by
  have linked : Db.Linked (Db.empty maxKeys) [] [] :=
    { blocks :=
        { nodup := List.nodup_nil
          allocated := fun addr => by simp [Db.empty]
          free_lt := nofun
          free_nodup := List.nodup_nil
          free_none := nofun
          beyond := fun _ _ => rfl
          laid := nofun
          tracked := rfl }
      table := ⟨⟨4, by decide, by decide, rfl⟩, Chains.holds_empty _, List.nodup_nil⟩
      recency := Links.represents_empty
      unlinked := nofun
      keyTotal := rfl
      keyHint := rfl }
  have deadlines : Db.Deadlines (Db.empty maxKeys) [] :=
    { valid := IndexedHeap.valid_empty
      member := fun _ known => absurd rfl known
      flags := nofun
      count := rfl
      hint := rfl }
  refine ⟨[], ⟨linked, deadlines⟩, ?_, ?_, rfl⟩
  · exact nofun
  · exact nofun

theorem Reachable.resting {world : World} (reachable : Reachable world) : Resting world := by
  induction reachable with
  | start maxKeys steady wall allocations orders => exact ⟨⟨[], rep_empty maxKeys, nofun⟩, rfl⟩
  | call reachable call ran ih => exact Cmd.wp_final (call.rests _ ih) ran

/-- The state after some calls, whatever comes of them. -/
def stateAfter (calls : List Call) (world : World) : World :=
  calls.foldl (fun world call => (call.perform world).2) world

theorem Reachable.stateAfter {world : World} (reachable : Reachable world) (calls : List Call) :
    Reachable (stateAfter calls world) := by
  induction calls generalizing world with
  | nil => exact reachable
  | cons call calls ih => exact ih (reachable.call call rfl)

/-- Calls on keys read the clocks and ask for memory, but leave the environment
as it is. -/
theorem evolves_stateAfter {world : World} {calls : List Call} (idle : Idle world)
    (named : forall call, call ∈ calls -> call.key ≠ none) :
    World.Evolves world (stateAfter calls world) := by
  induction calls generalizing world with
  | nil => exact World.Evolves.refl world
  | cons call calls ih =>
      rcases idle with ⟨space, ready⟩
      rcases Option.ne_none_iff_exists'.mp (named call List.mem_cons_self) with ⟨key, isKey⟩
      rcases (Cmd.wp_state _).mp (Call.keeps isKey world space ready) with ⟨later, done, -, evolves⟩
      exact evolves.trans (ih ⟨later, done⟩ fun other inside =>
        named other (List.mem_cons_of_mem _ inside))

theorem Reachable.idle {world : World} (reachable : Reachable world) : Idle world :=
  reachable.resting.idle

theorem Reachable.live {world : World} (reachable : Reachable world) :
    world.db.replaying = false :=
  reachable.resting.live

end Database

/-! ## The table -/

namespace Db

/-- The table is a map from the keys of its nodes to the nodes: each node is in
the chain of its key, once, and a lookup finds it. -/
structure Faithful (db : Db) : Prop where
  size : exists k, db.buckets.length = 2 ^ k
  placed : forall i chain, db.buckets[i]? = some chain -> forall addr, addr ∈ chain ->
    i = (hashKey (db.key addr)).toNat &&& (db.buckets.length - 1)
  keys : (db.buckets.flatten.map db.key).Nodup
  found : forall key addr,
    db.findNode key = some addr <-> addr ∈ db.buckets.flatten ∧ db.key addr = key

variable {db : Db} {order pending : List Addr} {addr : Addr}

theorem Table.faithful (table : Table db order) : Faithful db where
  size := by
    rcases table.size with ⟨k, -, -, size⟩
    exact ⟨k, size⟩
  placed := fun i chain listed addr inside => (table.holds.placed i chain listed addr inside).symm
  keys := (table.holds.perm.map db.key).nodup_iff.mpr table.keys
  found := by
    intro key addr
    rw [table.findNode_iff, table.holds.perm.mem_iff]

end Db

namespace Database

open Db (Consistent)

/-- The routines that change chains keep the table faithful.  They run in the
middle of operations, so that nodes may be pending. -/
structure RoutinesKeepTable (world : World) (order pending : List Addr) : Prop where
  link : forall addr, (forall other, other ∈ order -> world.db.key other ≠ world.db.key addr) ->
    (world.db.link addr).Faithful
  unlink : forall addr, addr ∈ order -> (world.db.unlink addr).Faithful
  erase : forall addr, addr ∈ order -> (world.db.eraseNode addr).Faithful
  commit : forall fresh, pending.head? = some fresh -> world.db.deadline fresh = none ->
    forall keepTtl, (world.db.commitNode (world.db.findNode (world.db.key fresh)) fresh
      keepTtl).Faithful
  grow : forall addr capacity, addr ∈ order ->
    (growNode addr capacity).wp (fun _ after => after.db.Faithful)
      (fun _ after => after.db.Faithful) world
  rehash : maybeRehash.wp (fun _ after => after.db.Faithful) (fun _ after => after.db.Faithful) world
  insert : forall key type capacity, key.length ≤ Node.maxKeyLength ->
    world.db.findNode key = none ->
    (insertNode key type capacity).wp (fun _ after => after.db.Faithful)
      (fun _ after => after.db.Faithful) world
  clear : world.db.clearKeyspace.Faithful

variable {world : World} {order pending : List Addr} {addr : Addr}

/-- A larger table holds the same nodes, in whatever state the operation is. -/
theorem maybeRehash_consistent (consistent : Consistent world.db order pending) :
    maybeRehash.wp
      (fun _ after => Consistent after.db order pending ∧ after.db.key = world.db.key)
      (fun _ after => Consistent after.db order pending) world := by
  unfold maybeRehash
  rw [Cmd.wp_bind, Cmd.wp_read]
  refine Cmd.wp_onlyIf ?_ (fun _ => ⟨consistent, rfl⟩)
  rintro ⟨-, small⟩
  rw [Cmd.wp_bind]
  refine wp_allocate (fun _ => consistent) ?_
  intro _ _
  unfold modifyDb
  rw [Cmd.wp_update]
  rcases consistent.table.size with ⟨k, large, -, length⟩
  rw [length] at small ⊢
  have less : k < 31 := (Nat.pow_lt_pow_iff_right (by decide)).mp (Nat.not_le.mp small)
  rw [<- Nat.pow_succ]
  exact ⟨consistent.rehashTo (show 4 ≤ k + 1 by omega) (show k + 1 ≤ 31 by omega), rfl⟩

theorem growNode_consistent {capacity : Nat} (consistent : Consistent world.db order pending)
    (member : addr ∈ order) :
    (growNode addr capacity).wp (fun _ after => exists later, Consistent after.db later pending)
      (fun _ after => exists later, Consistent after.db later pending) world := by
  unfold growNode
  rw [Cmd.wp_bind, Cmd.wp_read]
  refine Cmd.wp_ite (fun _ => ⟨order, consistent⟩) ?_
  intro fits
  rw [Cmd.wp_bind]
  refine wp_allocate (fun _ => ⟨order, consistent⟩) ?_
  intro garbage _
  unfold modifyDb
  rw [Cmd.wp_bind, Cmd.wp_update, Cmd.wp_pure]
  have laid := consistent.blocks.laid addr (List.mem_append_left _ member)
  have grown := @Node.grown_spec _ capacity garbage laid (by unfold Db.key at fits; omega)
  rcases consistent.regrow member grown.1 with ⟨before, after, -, regrown, -⟩
  exact ⟨_, regrown⟩

theorem insertNode_consistent {key : Bytes} {type : NodeType} {capacity : Nat}
    (consistent : Consistent world.db order pending) (short : key.length ≤ Node.maxKeyLength)
    (absent : world.db.findNode key = none) :
    (insertNode key type capacity).wp
      (fun _ after => exists later, Consistent after.db later pending)
      (fun _ after => exists later, Consistent after.db later pending) world := by
  unfold insertNode
  refine Cmd.wp_step (maybeRehash_consistent consistent) ?_ (fun _ _ kept => ⟨order, kept⟩)
  rintro _ rehashed ⟨kept, keys⟩
  have fresh : forall other, other ∈ order -> rehashed.db.key other ≠ key := by
    rw [keys]
    exact consistent.findNode_none.mp absent
  unfold createNode
  rw [Cmd.wp_bind]
  refine Cmd.wp_ite (fun _ => ⟨order, kept⟩) ?_
  intro fits
  rw [Cmd.wp_bind]
  refine wp_allocate (fun _ => ⟨order, kept⟩) ?_
  intro garbage _
  unfold modifyDb
  rw [Cmd.wp_bind, Cmd.wp_read, Cmd.wp_bind, Cmd.wp_update, Cmd.wp_pure, Cmd.wp_bind,
    Cmd.wp_update, Cmd.wp_pure]
  have laid := @Node.fresh_spec key type capacity garbage short (by omega)
  refine ⟨_, (kept.place laid.1).enter ?_⟩
  intro other inside
  have different : other ≠ rehashed.db.freshAddr := by
    rintro rfl
    exact kept.blocks.freshAddr_notMem (List.mem_append_left _ inside)
  unfold Db.key
  rw [Db.node_place, Db.node_place, if_neg different, if_pos rfl]
  exact fresh other inside

theorem routinesKeepTable (consistent : Consistent world.db order pending) :
    RoutinesKeepTable world order pending where
  link := fun addr fresh => (consistent.table.link fresh).faithful
  unlink := fun addr member => (consistent.table.unlink member).faithful
  erase := fun addr member => (consistent.eraseNode member).1.table.faithful
  commit := by
    intro fresh first free keepTtl
    cases pending with
    | nil => cases first
    | cons head rest =>
        cases first
        cases found : world.db.findNode (world.db.key fresh) with
        | none => exact (consistent.enter (consistent.findNode_none.mp found)).table.faithful
        | some old =>
            have located := consistent.findNode_some found
            exact (consistent.replaceNode located.1 located.2.symm free).1.table.faithful
  grow := by
    intro addr capacity member
    refine Cmd.wp_mono (growNode_consistent consistent member) ?_ ?_
    · rintro _ _ ⟨later, kept⟩
      exact kept.table.faithful
    · rintro _ _ ⟨later, kept⟩
      exact kept.table.faithful
  rehash := Cmd.wp_mono (maybeRehash_consistent consistent) (fun _ _ kept => kept.1.table.faithful)
    (fun _ _ kept => kept.table.faithful)
  insert := by
    intro key type capacity short absent
    refine Cmd.wp_mono (insertNode_consistent consistent short absent) ?_ ?_
    · rintro _ _ ⟨later, kept⟩
      exact kept.table.faithful
    · rintro _ _ ⟨later, kept⟩
      exact kept.table.faithful
  clear := by
    have emptied : Db.Table world.db.clearKeyspace [] :=
      ⟨by simpa [Db.clearKeyspace] using consistent.table.size, Chains.holds_empty _,
        List.nodup_nil⟩
    exact emptied.faithful

/-- The table is a faithful map in every reachable state, all routines that
change chains keep it so, and a call leaves every key alone that it does not
name, whether the call succeeds or fails. -/
theorem table_faithful :
    (forall world, Reachable world -> world.db.Faithful) ∧
      (forall world order pending, Consistent world.db order pending ->
        RoutinesKeepTable world order pending) ∧
      forall world, Reachable world -> forall (call : Call) key, call.key = some key ->
        forall outcome after, call.perform world = (outcome, after) ->
          forall probe, probe ≠ key -> after.db.lookup probe = world.db.lookup probe := by
  refine ⟨?_, fun world order pending consistent => routinesKeepTable consistent, ?_⟩
  · intro world reachable
    rcases reachable.idle with ⟨space, ⟨order, consistent, -⟩, -⟩
    exact consistent.table.faithful
  · intro world reachable call key named outcome after ran probe different
    rcases reachable.idle with ⟨space, ready⟩
    rcases Cmd.wp_final (Call.keeps named world space ready) ran with ⟨later, done, agree, -⟩
    rw [<- done.rep.find_eq, <- ready.rep.find_eq]
    exact agree probe different

def Clock.still : Clock :=
  ⟨fun _ => 0, fun _ => by decide⟩

/-- A clock that shows 0 a few times and five seconds from then on. -/
def Clock.jump (few : Nat) : Clock :=
  ⟨fun n => if n < few then 0 else 5000, fun n => by split <;> decide⟩

/-- A new database in an environment that never fails. -/
def calm : World :=
  fresh 1 Clock.still Clock.still (fun _ => some fun _ => 0)
    (fun _ => ⟨false, id, fun _ => List.Perm.refl _⟩)

def oneKey : World :=
  ((Call.set [97] [98]).perform calm).2

theorem reachable_oneKey : Reachable oneKey := by
  have start : Reachable calm := Reachable.start ..
  exact @Reachable.call calm oneKey _ start (.set [97] [98]) rfl

def timedStart : World :=
  fresh 4 (Clock.jump 2) Clock.still calm.allocations calm.orders

/-- Three keys, of which one has a deadline to come and one has a deadline that
has passed without anyone having noticed. -/
def timed : World :=
  stateAfter [.set [97] [55], .set [98] [56], .set [99] [57], .expire [97] 9, .expire [98] 1]
    timedStart

theorem reachable_timed : Reachable timed :=
  (Reachable.start ..).stateAfter _

theorem evolves_timed : World.Evolves timedStart timed := by
  refine evolves_stateAfter (Reachable.start ..).idle fun call inside => ?_
  fin_cases inside <;> exact Option.some_ne_none _

theorem steady_timed (n : Nat) : timed.steady.reading n = 5000 := by
  rcases evolves_timed.steady with ⟨skipped, shift⟩
  have first : timed.steady.reading 0 = 5000 := by decide +kernel
  rw [shift] at first ⊢
  have past : 2 ≤ skipped := by
    by_contra early
    change (if 0 + skipped < 2 then (0 : Int64) else 5000) = 5000 at first
    rw [if_pos (by omega)] at first
    cases first
  exact if_neg (by omega)

/-- A second key leaves the first one alone. -/
theorem table_faithful_oneKey :
    oneKey.db.findNode [97] = some 0 ∧ oneKey.db.Faithful ∧
      ((Call.set [99] [100]).perform oneKey).2.db.lookup [97] = oneKey.db.lookup [97] :=
  ⟨by decide +kernel, table_faithful.1 oneKey reachable_oneKey,
    table_faithful.2.2 oneKey reachable_oneKey (.set [99] [100]) [99] rfl _ _ rfl [97] (by decide)⟩

end Database

/-! ## The indexes -/

namespace Db

/-- The recency list, the deadlines, the heap and the counters all speak about
the nodes of the table. -/
structure Indexed (db : Db) : Prop where
  recency : exists order, db.lru.Represents order ∧ order.Perm db.buckets.flatten
  scheduled : forall addr, (db.expiries.entries addr).isSome = true <->
    addr ∈ db.buckets.flatten ∧ db.ttlFlag addr = true
  positioned : forall addr slot, db.expiries.entries addr = some slot ->
    db.expiries.order[slot.index]? = some addr
  occupied : forall position addr, db.expiries.order[position]? = some addr ->
    exists slot, db.expiries.entries addr = some slot ∧ slot.index = position
  total : db.keyTotal = db.buckets.flatten.length
  hint : db.keyHint = db.keyTotal
  deadlines : db.ttlKeyCount = db.expiries.order.length
  deadlineHint : db.ttlHint = true <-> db.expiries.order.length ≠ 0
  tracked : db.trackedBytes = (db.buckets.flatten.map fun addr => (db.node addr).blockSize).sum

theorem Consistent.indexed {db : Db} {order : List Addr} (consistent : Consistent db order []) :
    Indexed db where
  recency := ⟨order, consistent.recency, consistent.table.holds.perm.symm⟩
  scheduled := by
    intro addr
    have known : (db.expiries.entries addr).isSome = true <-> db.deadline addr ≠ none := by
      unfold Db.deadline IndexedHeap.priority
      cases db.expiries.entries addr <;> simp
    rw [known, consistent.table.holds.perm.mem_iff]
    have flags := consistent.deadlines.flags addr
    rw [List.append_nil] at flags
    constructor
    · intro scheduled
      have member := consistent.deadlines.member addr scheduled
      rw [List.append_nil] at member
      exact ⟨member, (flags member).mpr scheduled⟩
    · rintro ⟨member, flag⟩
      exact (flags member).mp flag
  positioned := consistent.deadlines.valid.coherent.listed
  occupied := consistent.deadlines.valid.coherent.at_position
  total := consistent.keyTotal.trans consistent.table.holds.perm.length_eq.symm
  hint := consistent.keyHint
  deadlines := consistent.deadlines.count
  deadlineHint := by rw [consistent.deadlines.hint, decide_eq_true_eq]
  tracked := by
    have tracked := consistent.blocks.tracked
    rw [List.append_nil] at tracked
    rw [tracked, (consistent.table.holds.perm.map _).sum_eq]

end Db

namespace Database

/-- The indexes agree with the table between any two calls of a run. -/
theorem indexes_coherent {world : World} (reachable : Reachable world) : world.db.Indexed := by
  rcases reachable.idle with ⟨space, ⟨order, consistent, -⟩, -⟩
  exact consistent.indexed

theorem indexes_coherent_timed :
    timed.db.keyTotal = 3 ∧ timed.db.expiries.order = [1, 0] ∧ timed.db.Indexed :=
  ⟨by decide +kernel, by decide +kernel, indexes_coherent reachable_timed⟩

end Database

end Reddish
