import Reddish.Library.Cmd
import Reddish.Library.Regions
import Reddish.Slab

namespace Reddish

open Library

namespace Memory

/-!
# The memory resource and the slab pool

The pool takes chunks from a resource that counts bytes against a limit, and
the resource calls the pool back when the limit is reached.  The two are
therefore one state: while the pool waits for a chunk, its own chunks may be
released behind its back.
-/

/-- `MemoryLimit` is thrown by the resource, any other `std::bad_alloc` by the
allocator below it. -/
inductive Refusal where
  | memoryLimit
  | badAlloc
  deriving DecidableEq, Repr

/-- A `Chunk` record together with the address it was allocated at. -/
structure Chunk where
  record : Nat
  memory : Nat
  bytes : Nat
  index : Nat
  deriving DecidableEq

/-- The allocator below (`new_delete_resource`), the `MemoryResource` and the
`SlabPool`.  `supply` lists the answers of the allocator below to the requests
to come; `none` is a failure. -/
structure Arena where
  taken : List Range
  supply : List (Option Nat)
  limit : Nat
  used : Nat
  hooked : Bool
  freeLists : Nat -> List Nat
  chunks : List Chunk
  reserved : Nat

abbrev Op (α : Type) : Type := Cmd Refusal Arena α

/-! ## The allocator below -/

/-- Any range may be answered that is apart from all that are taken; other
answers count as failures, so that every well behaved allocator is covered. -/
def usable (arena : Arena) (range : Range) : Prop :=
  range.address ≠ 0 ∧ forall other, other ∈ arena.taken -> range.Apart other

instance decidableUsable (arena : Arena) (range : Range) : Decidable (usable arena range) :=
  inferInstanceAs (Decidable (_ ∧ _))

def newDelete (bytes : Nat) : Op Nat :=
  fun arena =>
    match arena.supply with
    | some address :: supply =>
        if usable arena ⟨address, bytes⟩ then
          (.ok address, { arena with supply := supply, taken := ⟨address, bytes⟩ :: arena.taken })
        else (.error .badAlloc, { arena with supply := supply })
    | none :: supply => (.error .badAlloc, { arena with supply := supply })
    | [] => (.error .badAlloc, arena)

/-! ## The slab pool without allocation -/

/-- `sizeof(Chunk)`: four words. -/
def recordBytes : Nat := 32

def chunkBytes : Nat := 64 * 1024

/-- The loop of `add_chunk` that doubles the chunk until it has room for
sixteen blocks; `rounds` bounds it. -/
def growChunk (block : Nat) : Nat -> Nat -> Nat
  | 0, bytes => bytes
  | rounds + 1, bytes => if bytes < block * 16 then growChunk block rounds (bytes * 2) else bytes

namespace Chunk

def range (chunk : Chunk) : Range :=
  ⟨chunk.memory, chunk.bytes⟩

/-- What the chunk takes from the resource. -/
def ranges (chunk : Chunk) : List Range :=
  [chunk.range, ⟨chunk.record, recordBytes⟩]

/-- How many blocks the chunk is cut into. -/
def blockCount (chunk : Chunk) : Nat :=
  chunk.bytes / Slab.classSize chunk.index

end Chunk

def doDeallocate (address bytes : Nat) (arena : Arena) : Arena :=
  { arena with taken := arena.taken.erase ⟨address, bytes⟩, used := arena.used - bytes }

def freeInside (arena : Arena) (chunk : Chunk) : List Nat :=
  (arena.freeLists chunk.index).filter (fun address => chunk.range.Covers address)

def setFreeList (index : Nat) (list : List Nat) (arena : Arena) : Arena :=
  { arena with freeLists := Function.update arena.freeLists index list }

/-- What `reclaim` does with a chunk all of whose blocks are free: its blocks
leave the free list, and the chunk and its record are returned. -/
def releaseChunk (chunk : Chunk) (arena : Arena) : Arena :=
  let arena := setFreeList chunk.index
    ((arena.freeLists chunk.index).filter (fun address => ¬ chunk.range.Covers address)) arena
  let arena := { arena with reserved := arena.reserved - chunk.bytes }
  let arena := doDeallocate chunk.memory chunk.bytes arena
  doDeallocate chunk.record recordBytes arena

/-- The loop of `reclaim` over the chunks that are still to be looked at; the
chunks that stay are returned. -/
def reclaimFrom : List Chunk -> Arena -> List Chunk × Arena
  | [], arena => ([], arena)
  | chunk :: rest, arena =>
      if (freeInside arena chunk).length ≠ chunk.blockCount then
        let (kept, arena) := reclaimFrom rest arena
        (chunk :: kept, arena)
      else reclaimFrom rest (releaseChunk chunk arena)

def reclaim (arena : Arena) : Arena :=
  let (kept, after) := reclaimFrom arena.chunks arena
  { after with chunks := kept }

/-! ## Allocation -/

/-- Subtraction of `std::size_t` values. -/
def sub64 (a b : Nat) : Nat :=
  (a + (2 ^ 64 - b % 2 ^ 64)) % 2 ^ 64

/-- The request does not fit under the limit, as the code computes it: with a
subtraction that would wrap if more were used than the limit allows. -/
def overLimit (bytes : Nat) (arena : Arena) : Prop :=
  bytes > sub64 arena.limit arena.used

instance decidableOverLimit (bytes : Nat) (arena : Arena) : Decidable (overLimit bytes arena) :=
  inferInstanceAs (Decidable (_ < _))

/-- The first half of `do_allocate`: reclaim when the limit is reached, and
throw when that was not enough. -/
def makeRoom (bytes : Nat) : Op Unit := do
  let arena <- Cmd.read
  Cmd.onlyIf (arena.limit ≠ 0 ∧ overLimit bytes arena) (do
    Cmd.onlyIf (arena.hooked = true) (Cmd.update reclaim)
    let arena <- Cmd.read
    Cmd.require (¬ overLimit bytes arena) .memoryLimit)

def doAllocate (bytes : Nat) : Op Nat := do
  makeRoom bytes
  let address <- newDelete bytes
  Cmd.update (fun arena => { arena with used := arena.used + bytes })
  pure address

/-- The new `Chunk` record in front of the others. -/
def registerChunk (chunk : Chunk) (arena : Arena) : Arena :=
  { arena with chunks := chunk :: arena.chunks }

/-- The end of `add_chunk`: the chunk is counted, and its blocks are put on the
free list one after the other. -/
def cutChunk (chunk : Chunk) (arena : Arena) : Arena :=
  let block := Slab.classSize chunk.index
  let list := (List.range chunk.blockCount).foldl
    (fun list offset => (chunk.memory + offset * block) :: list) (arena.freeLists chunk.index)
  setFreeList chunk.index list { arena with reserved := arena.reserved + chunk.bytes }

/-- The `try` block of `add_chunk`. -/
def addRecord (address bytes index : Nat) : Op Chunk := do
  let record <- doAllocate recordBytes
  let chunk : Chunk := ⟨record, address, bytes, index⟩
  Cmd.update (registerChunk chunk)
  pure chunk

def addChunk (index : Nat) : Op Unit := do
  let bytes := growChunk (Slab.classSize index) 64 chunkBytes
  let address <- doAllocate bytes
  let chunk <- Cmd.handle (addRecord address bytes index) (fun refusal => do
    Cmd.update (doDeallocate address bytes)
    Cmd.raise refusal)
  Cmd.update (cutChunk chunk)

/-- The first block of a free list is taken. -/
def popFree (index : Nat) : Op Nat := do
  let arena <- Cmd.read
  let list := arena.freeLists index
  Cmd.update (setFreeList index list.tail)
  pure (list.headD 0)

def allocate (size : Nat) : Op Nat := do
  if size > Slab.largestClass then doAllocate size
  else do
    let index := Slab.classIndex size
    let arena <- Cmd.read
    Cmd.onlyIf (arena.freeLists index = []) (addChunk index)
    popFree index

def deallocate (block size : Nat) (arena : Arena) : Arena :=
  if block = 0 then arena
  else if size > Slab.largestClass then doDeallocate block size arena
  else
    let index := Slab.classIndex size
    setFreeList index (block :: arena.freeLists index) arena

/-- The resource and the pool before the first request. -/
def start (limit : Nat) (hooked : Bool) (supply : List (Option Nat)) : Arena where
  taken := []
  supply := supply
  limit := limit
  used := 0
  hooked := hooked
  freeLists := fun _ => []
  chunks := []
  reserved := 0

end Memory
end Reddish
