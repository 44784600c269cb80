import Reddish.Database.Node
import Reddish.Library.Links
import Reddish.Library.IndexedHeap
import Reddish.Library.Chains

namespace Reddish

open Library Numeral

/-!
# The state of the database

The members of the class `Database`, with the heap of blocks made explicit.
The fields that nodes contribute to a shared structure are stored with that
structure: the chain pointers as the chains of the table, the two list pointers
with the ends of the recency list, the flag for a deadline with the deadlines.

The functions of this module are the ones that cannot fail.
-/

/-- Deadlines are compared as signed numbers. -/
instance linearOrderInt64 : LinearOrder Int64 :=
  LinearOrder.lift' Int64.toInt (fun _ _ => Int64.toInt_inj.mp)

def hashStep (hash : UInt64) (byte : UInt8) : UInt64 :=
  (hash ^^^ byte.toUInt64) * 0x100000001B3

/-- `hash_key`: 64-bit FNV-1a folded to 32 bits. -/
def hashKey (key : Bytes) : UInt32 :=
  let hash := key.foldl hashStep 0xCBF29CE484222325
  (hash ^^^ (hash >>> 32)).toUInt32

def initialBucketCount : Nat := 16

/-- The database.  `nodes`, `free` and `top` are the memory the pool hands
out, with the most recently freed block used first; `expiries` is the map
`expiries_` together with the array `expiry_heap_`. -/
structure Db where
  nodes : Addr -> Option Node
  free : List Addr
  top : Addr
  trackedBytes : Nat
  buckets : List (List Addr)
  lru : Links Addr
  ttlFlag : Addr -> Bool
  expiries : IndexedHeap Addr Int64
  ttlKeyCount : Nat
  ttlHint : Bool
  keyTotal : Nat
  keyHint : Nat
  maxKeys : Nat
  evictions : Nat
  expiredKeys : Nat
  replaying : Bool

namespace Db

/-- The state after construction. -/
def empty (maxKeys : Nat) : Db :=
  { nodes := fun _ => none
    free := []
    top := 0
    trackedBytes := 0
    buckets := List.replicate initialBucketCount []
    lru := Links.empty
    ttlFlag := fun _ => false
    expiries := IndexedHeap.empty
    ttlKeyCount := 0
    ttlHint := false
    keyTotal := 0
    keyHint := 0
    maxKeys := if maxKeys = 0 then 1 else maxKeys
    evictions := 0
    expiredKeys := 0
    replaying := false }

/-! ## Blocks -/

def node (db : Db) (addr : Addr) : Node :=
  (db.nodes addr).getD Node.missing

def key (db : Db) (addr : Addr) : Bytes :=
  (db.node addr).key

def modifyNode (addr : Addr) (change : Node -> Node) (db : Db) : Db :=
  { db with nodes := Function.update db.nodes addr ((db.nodes addr).map change) }

/-- The address the pool hands out next. -/
def freshAddr (db : Db) : Addr :=
  db.free.headD db.top

/-- `pool_.allocate`, with the node that is written into the block. -/
def place (node : Node) (db : Db) : Db :=
  { db with
    nodes := Function.update db.nodes db.freshAddr (some node)
    free := db.free.tail
    top := if db.free.isEmpty then db.top + 1 else db.top
    lru := db.lru.clear db.freshAddr
    ttlFlag := Function.update db.ttlFlag db.freshAddr false
    trackedBytes := db.trackedBytes + node.blockSize }

def destroy (addr : Addr) (db : Db) : Db :=
  { db with
    nodes := Function.update db.nodes addr none
    free := addr :: db.free
    trackedBytes := db.trackedBytes - (db.node addr).blockSize }

/-! ## The table -/

/-- The chain of a key in a table with `count` chains. -/
def chainOf (count : Nat) (key : Bytes) : Nat :=
  (hashKey key).toNat &&& (count - 1)

def findNode (key : Bytes) (db : Db) : Option Addr :=
  (db.buckets.getD (chainOf db.buckets.length key) []).find? (fun addr => db.key addr = key)

def link (addr : Addr) (db : Db) : Db :=
  { db with buckets := Chains.link (chainOf db.buckets.length (db.key addr)) addr db.buckets }

def unlink (addr : Addr) (db : Db) : Db :=
  { db with buckets := Chains.unlink (chainOf db.buckets.length (db.key addr)) addr db.buckets }

/-- The part of `rehash` after the new table was allocated.  The nodes stay
where they are; only their chains change. -/
def rehashTo (count : Nat) (db : Db) : Db :=
  { db with
    buckets := Chains.redistribute (fun addr => chainOf count (db.key addr)) count db.buckets }

/-! ## Recency -/

def unlinkLru (addr : Addr) (db : Db) : Db :=
  { db with lru := db.lru.unlink addr }

/-- The pointer work of `touch`: the first node stays, any other one is taken
out if it is linked, and then put in front. -/
def touchLinks (addr : Addr) (links : Links Addr) : Links Addr :=
  if links.head = some addr then links
  else if (links.previous addr).isSome ∨ (links.next addr).isSome ∨ links.tail = some addr then
    (links.unlink addr).pushFront addr
  else links.pushFront addr

def touch (addr : Addr) (db : Db) : Db :=
  { db with lru := touchLinks addr db.lru }

/-! ## Deadlines -/

def deadline (db : Db) (addr : Addr) : Option Int64 :=
  db.expiries.priority addr

def clearExpiry (addr : Addr) (db : Db) : Db :=
  if (db.expiries.entries addr).isNone then db
  else
    let expiries := db.expiries.remove addr
    { db with
      expiries := expiries
      ttlFlag := Function.update db.ttlFlag addr false
      ttlKeyCount := expiries.order.length
      ttlHint := decide (expiries.order.length ≠ 0) }

/-- `schedule_expiry` once its memory is there. -/
def setDeadline (addr : Addr) (deadline : Int64) (db : Db) : Db :=
  let expiries :=
    match db.expiries.entries addr with
    | none => (db.expiries.append addr deadline).fix db.expiries.order.length
    | some slot => (db.expiries.assign addr deadline).fix slot.index
  { db with
    expiries := expiries
    ttlFlag := Function.update db.ttlFlag addr true
    ttlKeyCount := expiries.order.length
    ttlHint := true }

/-- The node of another address takes over a deadline. -/
def moveDeadline (old new : Addr) (db : Db) : Db :=
  if db.ttlFlag old then
    { db with
      expiries := db.expiries.rename old new
      ttlFlag := Function.update db.ttlFlag new true }
  else db

/-! ## Nodes in all structures -/

/-- The part of `erase_node` after the deadline was cleared: the node leaves the
recency list and its chain, and its block goes back to the pool. -/
def detach (addr : Addr) (db : Db) : Db :=
  let db := (db.unlinkLru addr).unlink addr
  { db with keyTotal := db.keyTotal - 1, keyHint := db.keyTotal - 1 }.destroy addr

def eraseNode (addr : Addr) (db : Db) : Db :=
  (db.clearExpiry addr).detach addr

/-- Erase a node because its deadline has passed. -/
def expireNode (addr : Addr) (db : Db) : Db :=
  { db.eraseNode addr with expiredKeys := db.expiredKeys + 1 }

/-- Erase a node to make room. -/
def evictNode (addr : Addr) (db : Db) : Db :=
  { db.eraseNode addr with evictions := db.evictions + 1 }

/-- Enter a node into the table, in front of the recency list, and count it. -/
def enter (addr : Addr) (db : Db) : Db :=
  let db := (db.link addr).touch addr
  { db with keyTotal := db.keyTotal + 1, keyHint := db.keyTotal + 1 }

def commitNode (old : Option Addr) (fresh : Addr) (keepTtl : Bool) (db : Db) : Db :=
  match old with
  | none => db.enter fresh
  | some old =>
      let db := if keepTtl then db.moveDeadline old fresh else db
      (db.eraseNode old).enter fresh

/-- The part of `grow_node` after the new block was allocated.  The new block
takes over the place of the old one in the recency list, the heap and the chain.
-/
def regrow (addr : Addr) (newBodyCapacity : Nat) (garbage : Nat -> UInt8) (db : Db) : Db :=
  let fresh := db.freshAddr
  let db := db.place ((db.node addr).grown newBodyCapacity garbage)
  let db := { db with lru := db.lru.replace addr fresh }
  let db := db.moveDeadline addr fresh
  let db := { db with
    buckets := Chains.replace (chainOf db.buckets.length (db.key fresh)) addr fresh db.buckets }
  db.destroy addr

def maintenanceNeeded (db : Db) : Bool :=
  db.ttlHint || decide (db.keyHint > db.maxKeys)

def overCapacity (db : Db) : Bool :=
  decide (db.keyHint > db.maxKeys)

end Db

end Reddish
