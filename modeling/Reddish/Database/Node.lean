import Reddish.Pack
import Reddish.Slab

namespace Reddish

open Library Numeral

/-!
# Nodes of the keyspace

A node is one block of memory: a header with the packed key word, the count and
the links, then the key bytes padded to eight, for blocks outside the slabs a
size word, and the body.  Its capacity is not stored but computed from the size
class, which is why moving a value between slab and oversized blocks shifts the
body.

The link fields of all nodes and the flag for a deadline are kept in the
database state, next to the structures they belong to.
-/

abbrev Addr := Nat

inductive NodeType where
  | string
  | integer
  | list
  | hash
  deriving DecidableEq, Repr

/-- The fields of a promoted hash in the order the table stores them.  The
table is owned by one node, so it is kept in the node instead of behind the
pointer in its body. -/
abbrev HashTable := List (Bytes × Value)

/-- A node with the fields of `key_meta` taken apart.  `sizeWord` is the word
behind the key of an oversized block. -/
structure Node where
  key : Bytes
  type : NodeType
  promoted : Bool
  sizeClass : Nat
  sizeWord : Nat
  count : Nat
  body : Bytes
  table : HashTable

namespace Node

def maxKeyLength : Nat := 0x001FFFFF
def headerSize : Nat := 32
def oversizedClass : Nat := 63
def listHeaderSize : Nat := 8
def hashPackedLimit : Nat := 128
def hashPackedByteLimit : Nat := 4096

/-- What a dangling address would be read as; no operation does that. -/
def missing : Node :=
  ⟨[], .string, false, 0, 0, 0, [], []⟩

/-- `key_stride`: the key length rounded up to a multiple of eight. -/
def keyStride (length : Nat) : Nat :=
  (length + 7) / 8 * 8

/-- The class and the block size for a key and a body, as `create_node` and
`grow_node` compute them. -/
def blockLayout (keyLength bodyCapacity : Nat) : Nat × Nat :=
  let requested := headerSize + keyStride keyLength + bodyCapacity
  if requested ≤ Slab.largestClass then
    (Slab.classIndex requested, Slab.classSize (Slab.classIndex requested))
  else (oversizedClass, requested + 8)

def payloadOffset (node : Node) : Nat :=
  headerSize + keyStride node.key.length + (if node.sizeClass = oversizedClass then 8 else 0)

def blockSize (node : Node) : Nat :=
  if node.sizeClass = oversizedClass then node.sizeWord else Slab.classSize node.sizeClass

def bodyCapacity (node : Node) : Nat :=
  node.blockSize - node.payloadOffset

/-- A freshly allocated node; its body holds whatever the memory held. -/
def fresh (key : Bytes) (type : NodeType) (bodyCapacity : Nat) (garbage : Nat -> UInt8) : Node :=
  let layout := blockLayout key.length bodyCapacity
  let empty : Node := ⟨key, type, false, layout.1, layout.2, 0, [], []⟩
  { empty with body := (List.range empty.bodyCapacity).map garbage }

def writeBody (node : Node) (offset : Nat) (data : Bytes) : Node :=
  { node with body := Buffer.write offset data node.body }

/-! ## Strings and integers -/

def stringValue (node : Node) : Bytes :=
  node.body.take node.count

def integerValue (node : Node) : Int64 :=
  Pack.loadI64 node.body

def setIntegerValue (node : Node) (value : Int64) : Node :=
  node.writeBody 0 (Pack.storeI64 value)

/-! ## Lists -/

/-- `list_body(node)->head`. -/
def listHead (node : Node) : Nat :=
  leNat (Buffer.slice 0 4 node.body)

/-- `list_body(node)->used`. -/
def listUsed (node : Node) : Nat :=
  leNat (Buffer.slice 4 4 node.body)

def setListHead (node : Node) (head : Nat) : Node :=
  node.writeBody 0 (leBytes 4 head)

def setListUsed (node : Node) (used : Nat) : Node :=
  node.writeBody 4 (leBytes 4 used)

def listRunCapacity (node : Node) : Nat :=
  if node.bodyCapacity > listHeaderSize then node.bodyCapacity - listHeaderSize else 0

def listRun (node : Node) : Bytes :=
  node.body.drop listHeaderSize

def writeRun (node : Node) (offset : Nat) (data : Bytes) : Node :=
  node.writeBody (listHeaderSize + offset) data

def moveRun (node : Node) (target source length : Nat) : Node :=
  node.writeRun target (Buffer.slice source length node.listRun)

/-! ## Packed hashes -/

/-- `hash_count`: the lower half of the count word. -/
def hashCount (node : Node) : Nat :=
  node.count % 65536

/-- `hash_used`: the upper half of the count word. -/
def hashUsed (node : Node) : Nat :=
  node.count / 65536

def setHashCount (node : Node) (count : Nat) : Node :=
  { node with count := node.count / 65536 * 65536 + count % 65536 }

/-- `set_hash_used`; the shift drops what does not fit 32 bits. -/
def setHashUsed (node : Node) (used : Nat) : Node :=
  { node with count := node.count % 65536 + used * 65536 % 2 ^ 32 }

/-! ## Growing -/

/-- `grown_capacity`; doubling is 32-bit arithmetic. -/
def grownCapacity (required current : Nat) : Nat :=
  let capacity := max required 32
  let capacity :=
    if current ≠ 0 ∧ current * 2 % 2 ^ 32 > capacity then current * 2 % 2 ^ 32 else capacity
  if capacity < required then required else capacity

/-- The block `grow_node` fills: same key, kind, flags and count, and as much
of the old body as fits. -/
def grown (node : Node) (newBodyCapacity : Nat) (garbage : Nat -> UInt8) : Node :=
  let layout := blockLayout node.key.length newBodyCapacity
  let larger : Node := { node with sizeClass := layout.1, sizeWord := layout.2 }
  { larger with
    body := Buffer.write 0 (node.body.take (min node.bodyCapacity larger.bodyCapacity))
      ((List.range larger.bodyCapacity).map garbage) }

/-! ## Layout -/

/-- A block holds its header, its key and a body of the computed capacity. -/
structure Laid (node : Node) : Prop where
  key : node.key.length ≤ maxKeyLength
  offset : node.payloadOffset ≤ node.blockSize
  body : node.body.length = node.bodyCapacity
  block : node.blockSize < 2 ^ 32

/-- Nodes with the same key in blocks of the same layout; they may differ in
everything else. -/
structure SameBlock (left right : Node) : Prop where
  key : left.key = right.key
  sizeClass : left.sizeClass = right.sizeClass
  sizeWord : left.sizeWord = right.sizeWord

theorem SameBlock.trans {first second third : Node} (left : SameBlock first second)
    (right : SameBlock second third) : SameBlock first third :=
  ⟨left.key.trans right.key, left.sizeClass.trans right.sizeClass,
    left.sizeWord.trans right.sizeWord⟩

theorem SameBlock.payloadOffset {left right : Node} (same : SameBlock left right) :
    left.payloadOffset = right.payloadOffset := by
  unfold Node.payloadOffset
  rw [same.key, same.sizeClass]

theorem SameBlock.blockSize {left right : Node} (same : SameBlock left right) :
    left.blockSize = right.blockSize := by
  unfold Node.blockSize
  rw [same.sizeClass, same.sizeWord]

theorem SameBlock.bodyCapacity {left right : Node} (same : SameBlock left right) :
    left.bodyCapacity = right.bodyCapacity := by
  unfold Node.bodyCapacity
  rw [same.blockSize, same.payloadOffset]

theorem SameBlock.listRunCapacity {left right : Node} (same : SameBlock left right) :
    left.listRunCapacity = right.listRunCapacity := by
  unfold Node.listRunCapacity
  rw [same.bodyCapacity]

theorem SameBlock.laid {left right : Node} (same : SameBlock left right) (laid : right.Laid)
    (body : left.body.length = right.body.length) : left.Laid where
  key := by rw [same.key]; exact laid.key
  offset := by rw [same.payloadOffset, same.blockSize]; exact laid.offset
  body := by rw [body, same.bodyCapacity]; exact laid.body
  block := by rw [same.blockSize]; exact laid.block

theorem sameBlock_count (node : Node) (count : Nat) :
    SameBlock { node with count := count } node :=
  ⟨rfl, rfl, rfl⟩

theorem sameBlock_writeBody (node : Node) (offset : Nat) (data : Bytes) :
    SameBlock (node.writeBody offset data) node :=
  ⟨rfl, rfl, rfl⟩

theorem blockLayout_small {keyLength bodyCapacity : Nat}
    (small : headerSize + keyStride keyLength + bodyCapacity ≤ Slab.largestClass) :
    blockLayout keyLength bodyCapacity =
      (Slab.classIndex (headerSize + keyStride keyLength + bodyCapacity),
        Slab.classSize (Slab.classIndex (headerSize + keyStride keyLength + bodyCapacity))) :=
  if_pos small

theorem blockLayout_large {keyLength bodyCapacity : Nat}
    (large : ¬ headerSize + keyStride keyLength + bodyCapacity ≤ Slab.largestClass) :
    blockLayout keyLength bodyCapacity =
      (oversizedClass, headerSize + keyStride keyLength + bodyCapacity + 8) :=
  if_neg large

/-- The layout is large enough for the body it was chosen for. -/
theorem blockLayout_spec (node : Node) (bodyCapacity : Nat)
    (layout : (node.sizeClass, node.sizeWord) = blockLayout node.key.length bodyCapacity) :
    node.payloadOffset + bodyCapacity ≤ node.blockSize ∧
      node.blockSize = (blockLayout node.key.length bodyCapacity).2 := by
  unfold payloadOffset blockSize
  by_cases small : headerSize + keyStride node.key.length + bodyCapacity ≤ Slab.largestClass
  · rw [blockLayout_small small] at layout ⊢
    have chosen := Slab.le_classSize_classIndex small
    have slab : node.sizeClass ≠ oversizedClass := by
      have bound : Slab.classCount = 36 := rfl
      have large : oversizedClass = 63 := rfl
      rw [(Prod.mk.inj layout).1]
      omega
    rw [if_neg slab, if_neg slab, (Prod.mk.inj layout).1]
    omega
  · rw [blockLayout_large small] at layout ⊢
    rw [if_pos (Prod.mk.inj layout).1, if_pos (Prod.mk.inj layout).1, (Prod.mk.inj layout).2]
    omega

variable {node : Node} {key : Bytes} {type : NodeType} {capacity : Nat} {garbage : Nat -> UInt8}

/-- A fresh node has room for the body it was asked for. -/
theorem fresh_spec (short : key.length ≤ maxKeyLength)
    (fits : (blockLayout key.length capacity).2 < 2 ^ 32) :
    (fresh key type capacity garbage).Laid ∧
      capacity ≤ (fresh key type capacity garbage).bodyCapacity := by
  have layout := blockLayout_spec (fresh key type capacity garbage) capacity rfl
  have block : (fresh key type capacity garbage).blockSize < 2 ^ 32 := by
    rw [layout.2]
    exact fits
  refine ⟨⟨short, by omega, ?_, block⟩, by unfold bodyCapacity; omega⟩
  simp [fresh, bodyCapacity, blockSize, payloadOffset]

/-- A grown node has room for the body it was asked for. -/
theorem grown_spec (laid : node.Laid) (fits : (blockLayout node.key.length capacity).2 < 2 ^ 32) :
    (node.grown capacity garbage).Laid ∧
      capacity ≤ (node.grown capacity garbage).bodyCapacity := by
  have layout := blockLayout_spec (node.grown capacity garbage) capacity rfl
  have block : (node.grown capacity garbage).blockSize < 2 ^ 32 := by
    rw [layout.2]
    exact fits
  refine ⟨⟨laid.key, by omega, ?_, block⟩, by unfold bodyCapacity; omega⟩
  unfold grown
  simp only [bodyCapacity, blockSize, payloadOffset]
  rw [Buffer.length_write]
  · simp
  · simp [laid.body, bodyCapacity, blockSize, payloadOffset]

/-- A block of a slab is not larger than the largest class, and an oversized
block is exactly as large as it was asked to be. -/
theorem bodyCapacity_le (node : Node)
    (layout : (node.sizeClass, node.sizeWord) = blockLayout node.key.length capacity) :
    node.bodyCapacity ≤ max capacity Slab.largestClass := by
  unfold bodyCapacity payloadOffset
  rw [(blockLayout_spec node capacity layout).2]
  by_cases small : headerSize + keyStride node.key.length + capacity ≤ Slab.largestClass
  · have class_le : Slab.classSize (Slab.classIndex
        (headerSize + keyStride node.key.length + capacity)) ≤ Slab.largestClass :=
      Slab.classSize_le _
    rw [blockLayout_small small]
    simp only
    omega
  · rw [blockLayout_large small] at layout ⊢
    rw [if_pos (Prod.mk.inj layout).1]
    simp only
    omega

/-- Growing copies the bytes that both blocks have room for. -/
theorem take_grown {length : Nat} (laid : node.Laid) (old : length ≤ node.bodyCapacity)
    (new : length ≤ (node.grown capacity garbage).bodyCapacity) :
    (node.grown capacity garbage).body.take length = node.body.take length := by
  have room : length ≤ min node.bodyCapacity (node.grown capacity garbage).bodyCapacity :=
    Nat.le_min.mpr ⟨old, new⟩
  have whole : (node.grown capacity garbage).body =
      Buffer.write 0
        (node.body.take (min node.bodyCapacity (node.grown capacity garbage).bodyCapacity))
        ((List.range (node.grown capacity garbage).bodyCapacity).map garbage) := rfl
  have copied := @Buffer.slice_write_inside UInt8 0 0 length
    (node.body.take (min node.bodyCapacity (node.grown capacity garbage).bodyCapacity))
    ((List.range (node.grown capacity garbage).bodyCapacity).map garbage) (Nat.zero_le _)
    (by rw [List.length_take, laid.body]; omega)
  rw [Nat.zero_add, Buffer.slice_zero, Buffer.slice_zero, List.take_take,
    Nat.min_eq_left room] at copied
  rw [whole, copied]

/-- Copying bytes that fit keeps the layout. -/
theorem Laid.writeBody {offset : Nat} {data : Bytes} (laid : node.Laid)
    (fits : offset + data.length ≤ node.bodyCapacity) : (node.writeBody offset data).Laid where
  key := laid.key
  offset := laid.offset
  body := by
    change (Buffer.write offset data node.body).length = node.bodyCapacity
    rw [Buffer.length_write (by rw [laid.body]; exact fits), laid.body]
  block := laid.block

end Node

end Reddish
