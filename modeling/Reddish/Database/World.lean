import Reddish.Database.Keyspace
import Reddish.Wal.Durability

namespace Reddish

open Library Numeral

/-!
# The database in its environment

The operations read two clocks, allocate memory and write to the log.  What the
environment is going to answer is part of the state and is consumed call by
call, so that a statement about all worlds covers every sequence of readings
and every allocation that may fail.
-/

/-- The readings a clock is going to give, in milliseconds since its
epoch.  Every call of the clock takes the next one.  They are not assumed to
increase. -/
structure Clock where
  reading : Nat -> Int64
  nonneg : forall n, 0 ≤ reading n

def Clock.later (clock : Clock) : Clock :=
  ⟨fun n => clock.reading (n + 1), fun n => clock.nonneg (n + 1)⟩

/-- The order in which a hash table keeps its fields after an insertion, and
whether it needs more buckets. -/
structure TableOrder where
  full : Bool
  arrange : HashTable -> HashTable
  perm : forall table, (arrange table).Perm table

/-- The kinds of records, as numbered in the log. -/
inductive WalOp where
  | set
  | increment
  | pushLeft
  | pushRight
  | popLeft
  | popRight
  | hashSet
  | hashDel
  | expireAt
  | del
  | integerSet
  deriving DecidableEq, Repr

def WalOp.code : WalOp -> UInt8
  | .set => 0
  | .increment => 1
  | .pushLeft => 2
  | .pushRight => 3
  | .popLeft => 4
  | .popRight => 5
  | .hashSet => 6
  | .hashDel => 7
  | .expireAt => 8
  | .del => 9
  | .integerSet => 10

/-- A database with its log and its environment.  An allocation that succeeds
returns memory with arbitrary contents. -/
structure World where
  db : Db
  wal : Option Wal
  steady : Clock
  wall : Clock
  allocations : Nat -> Option (Nat -> UInt8)
  orders : Nat -> TableOrder

namespace World

/-- The records appended to the log so far. -/
def records (world : World) : List Wal.Record :=
  (world.wal.map Wal.appended).getD []

/-- Whether `log` reaches the log: there is one, and no replay is running. -/
def logging (world : World) : Bool :=
  world.wal.isSome && !world.db.replaying

/-- The buffer of the log has room for a frame. -/
def Roomy (world : World) (size : Nat) : Prop :=
  forall wal, world.wal = some wal -> size ≤ wal.capacity

def WalFailed (world : World) : Prop :=
  exists wal, world.wal = some wal ∧ wal.failed = true

/-- The steady clock is going to show `now`. -/
def Reads (world : World) (now : Int64) : Prop :=
  exists n, world.steady.reading n = now

/-- The time that decides about expiry; a replay ignores deadlines. -/
def time (world : World) (now : Int64) : Option Int64 :=
  if world.db.replaying then none else some now

/-- How a world relates to a later one: the settings are the same, and readings of
the clocks and answers of the allocator have been used up. -/
structure Evolves (before after : World) : Prop where
  replaying : after.db.replaying = before.db.replaying
  maxKeys : after.db.maxKeys = before.db.maxKeys
  steady : exists skipped, forall n,
    after.steady.reading n = before.steady.reading (n + skipped)
  wall : exists skipped, forall n, after.wall.reading n = before.wall.reading (n + skipped)
  allocations : exists skipped, forall n, after.allocations n = before.allocations (n + skipped)
  wal : Option.Rel Wal.Evolves before.wal after.wal

theorem Evolves.refl (world : World) : Evolves world world where
  replaying := rfl
  maxKeys := rfl
  steady := ⟨0, fun _ => rfl⟩
  wall := ⟨0, fun _ => rfl⟩
  allocations := ⟨0, fun _ => rfl⟩
  wal := by
    cases world.wal with
    | none => exact Option.Rel.none
    | some wal => exact Option.Rel.some (Wal.Evolves.refl wal)

theorem shift_trans {α : Type} {first second third : Nat -> α}
    (left : exists skipped, forall n, second n = first (n + skipped))
    (right : exists skipped, forall n, third n = second (n + skipped)) :
    exists skipped, forall n, third n = first (n + skipped) := by
  rcases left with ⟨m, left⟩
  rcases right with ⟨n, right⟩
  refine ⟨n + m, fun i => ?_⟩
  rw [right, left, Nat.add_assoc]

theorem walRel_trans {first second third : Option Wal}
    (left : Option.Rel Wal.Evolves first second) (right : Option.Rel Wal.Evolves second third) :
    Option.Rel Wal.Evolves first third := by
  cases left with
  | none => exact right
  | some before =>
      cases right with
      | some after => exact Option.Rel.some (before.trans after)

theorem Evolves.trans {first second third : World} (left : Evolves first second)
    (right : Evolves second third) : Evolves first third where
  replaying := right.replaying.trans left.replaying
  maxKeys := right.maxKeys.trans left.maxKeys
  steady := shift_trans left.steady right.steady
  wall := shift_trans left.wall right.wall
  allocations := shift_trans left.allocations right.allocations
  wal := walRel_trans left.wal right.wal

theorem Evolves.reads {before after : World} {now : Int64} (evolves : Evolves before after)
    (reads : after.Reads now) : before.Reads now := by
  rcases reads with ⟨n, reads⟩
  rcases evolves.steady with ⟨skipped, shift⟩
  exact ⟨n + skipped, (shift n).symm.trans reads⟩

theorem Evolves.logging {before after : World} (evolves : Evolves before after) :
    after.logging = before.logging := by
  have wal := evolves.wal
  unfold World.logging
  rw [evolves.replaying]
  cases one : before.wal with
  | none =>
      rw [one] at wal
      cases two : after.wal with
      | none => rfl
      | some log =>
          rw [two] at wal
          cases wal
  | some log =>
      rw [one] at wal
      cases two : after.wal with
      | none =>
          rw [two] at wal
          cases wal
      | some later => rfl

/-- The buffer never shrinks. -/
theorem Evolves.roomy {before after : World} {size : Nat} (evolves : Evolves before after)
    (roomy : before.Roomy size) : after.Roomy size := by
  intro later here
  have wal := evolves.wal
  rw [here] at wal
  cases one : before.wal with
  | none =>
      rw [one] at wal
      cases wal
  | some log =>
      rw [one] at wal
      cases wal with
      | some grows => exact Nat.le_trans (roomy log one) grows.capacity

/-- An environment in which no allocation fails keeps that property. -/
theorem Evolves.allocation {before after : World} {n : Nat} (evolves : Evolves before after)
    (fails : after.allocations n = none) : exists n, before.allocations n = none := by
  rcases evolves.allocations with ⟨skipped, shift⟩
  exact ⟨n + skipped, (shift n).symm.trans fails⟩

end World

/-! ## Basic commands -/

/-- Code of the class `Database`, on the database with its log and its
environment.  What was written before an exception stays written. -/
abbrev Op := Cmd Exn World

namespace Database

open Cmd (onlyIf)

def modifyDb (change : Db -> Db) : Op Unit :=
  Cmd.update (fun world => { world with db := change world.db })

def nowMs : Op Int64 :=
  fun world => (.ok (world.steady.reading 0), { world with steady := world.steady.later })

def currentUnixMs : Op Int64 :=
  fun world => (.ok (world.wall.reading 0), { world with wall := world.wall.later })

/-- One allocation: the memory it returns, or `bad_alloc`.  The environment
decides which of them it is, and what the memory holds. -/
def allocate : Op (Nat -> UInt8) :=
  fun world =>
    let rest := { world with allocations := fun n => world.allocations (n + 1) }
    match world.allocations 0 with
    | none => (.error .badAlloc, rest)
    | some garbage => (.ok garbage, rest)

def copyFound {α : Type} (copy : α -> Op Unit) : Except ErrorCode (Option α) -> Op Unit
  | .ok (some value) => copy value
  | _ => pure ()

/-- What `get` and `hash_get` do with a view: the caller is given a copy of what
was found, and the copy takes memory. -/
def copied {α : Type} (copy : α -> Op Unit) (view : Op (Except ErrorCode (Option α))) :
    Op (Except ErrorCode (Option α)) := do
  let result <- view
  copyFound copy result
  pure result

/-- Run a call on the log, if there is one. -/
def onWal (body : Cmd Exn Wal Unit) : Op Unit :=
  fun world =>
    match world.wal with
    | none => (.ok (), world)
    | some wal =>
        match body wal with
        | (outcome, later) => (outcome, { world with wal := some later })

/-- `if (wal_ && !replaying_)`. -/
def whenLogging (body : Cmd Exn Wal Unit) : Op Unit := do
  let world <- Cmd.read
  onlyIf (world.db.replaying = false) (onWal body)

def log (op : WalOp) (args : List Bytes) : Op Unit :=
  whenLogging (Wal.append ⟨op.code, args⟩)

/-- The records of a batch; the buffer for the largest one is reserved before
the first one is written. -/
def logBatch (size : Nat) (op : WalOp) (batch : List (List Bytes)) : Op Unit := do
  whenLogging (Wal.reserveRecord size)
  Cmd.forEach batch (log op)

/-- Run code while a node is owned by a `unique_ptr`: an exception destroys it. -/
def guarded {α : Type} (pending : Addr) (body : Op α) : Op α :=
  body.handle (fun thrown => do
    modifyDb (Db.destroy pending)
    Cmd.raise thrown)

/-- Whether the deadline of a node has passed; the clock is read only for a
node with a deadline. -/
def deadlinePassed (addr : Addr) : Op Bool := do
  let world <- Cmd.read
  match world.db.ttlFlag addr, world.db.deadline addr with
  | true, some deadline => do
      let now <- nowMs
      pure (decide (deadline ≤ now))
  | _, _ => pure false

def findActive (key : Bytes) : Op (Option Addr) := do
  let world <- Cmd.read
  match world.db.findNode key with
  | none => pure none
  | some addr => do
      let passed <- deadlinePassed addr
      if passed = true ∧ world.db.replaying = false then pure none
      else do
        modifyDb (Db.touch addr)
        pure (some addr)

/-- The test of `find_writable`: a replay never looks at deadlines. -/
def mustDrop (addr : Addr) : Op Bool := do
  let world <- Cmd.read
  if world.db.replaying then pure false else deadlinePassed addr

/-- The part of `find_writable` that removes an expired key. -/
def dropExpired (key : Bytes) (addr : Addr) : Op Unit := do
  log .del [key]
  modifyDb (Db.expireNode addr)

def findWritable (key : Bytes) : Op (Option Addr) := do
  if key.length > Node.maxKeyLength then Cmd.raise (.error .requestTooLarge)
  else do
    let world <- Cmd.read
    match world.db.findNode key with
    | none => pure none
    | some addr => do
        let passed <- mustDrop addr
        if passed then do
          dropExpired key addr
          pure none
        else do
          modifyDb (Db.touch addr)
          pure (some addr)

def createNode (key : Bytes) (type : NodeType) (bodyCapacity : Nat) : Op Addr := do
  if (Node.blockLayout key.length bodyCapacity).2 > 2 ^ 32 - 1 then Cmd.raise .badAlloc
  else do
    let garbage <- allocate
    let world <- Cmd.read
    modifyDb (Db.place (Node.fresh key type bodyCapacity garbage))
    pure world.db.freshAddr

def growNode (addr : Addr) (newBodyCapacity : Nat) : Op Addr := do
  let world <- Cmd.read
  if (Node.blockLayout (world.db.key addr).length newBodyCapacity).2 > 2 ^ 32 - 1 then
    Cmd.raise .badAlloc
  else do
    let garbage <- allocate
    modifyDb (Db.regrow addr newBodyCapacity garbage)
    pure world.db.freshAddr

def maybeRehash : Op Unit := do
  let world <- Cmd.read
  onlyIf (¬ world.db.keyTotal + 1 ≤ world.db.buckets.length ∧
      ¬ world.db.buckets.length ≥ 2 ^ 31) do
    let _ <- allocate
    modifyDb (Db.rehashTo (world.db.buckets.length * 2))

/-- `schedule_expiry`: a new deadline needs memory, a changed one does not. -/
def scheduleExpiry (addr : Addr) (deadline : Int64) : Op Unit := do
  let world <- Cmd.read
  onlyIf ((world.db.expiries.entries addr).isNone = true) do
    let _ <- allocate
    pure ()
  modifyDb (Db.setDeadline addr deadline)

/-- `if (!node) maybe_rehash()`: only a new key can fill the table. -/
def rehashFor (found : Option Addr) : Op Unit :=
  onlyIf (found = none) maybeRehash

/-- The way all operations replace or add a node: create it, fill it, log what
it is for while a `unique_ptr` owns it, and commit it. -/
def install (found : Option Addr) (key : Bytes) (type : NodeType) (bodyCapacity : Nat)
    (fill : Node -> Node) (records : Op Unit) (keepTtl : Bool) : Op Addr := do
  let pending <- createNode key type bodyCapacity
  modifyDb (Db.modifyNode pending fill)
  guarded pending records
  modifyDb (Db.commitNode found pending keepTtl)
  pure pending

end Database

end Reddish
