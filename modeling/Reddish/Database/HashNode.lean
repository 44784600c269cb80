import Reddish.Database.Content

namespace Reddish

open Library Numeral

/-!
# Packed and promoted hash nodes

A packed hash is a run of encoded fields and values from the start of the body.
A lookup walks over it; an update splices bytes in place or writes the spliced
bytes into a new node.  A promoted hash keeps its pairs in a table.
-/

namespace Node

/-- The loop of `hash_find`: the offset of the value and the size of the
field. -/
def hashFindFrom (field : Bytes) : Nat -> Nat -> Bytes -> Option (Nat × Nat)
  | 0, _, _ => none
  | count + 1, offset, cursor =>
      let fieldBytes := Pack.elementSize cursor
      let rest := cursor.drop fieldBytes
      let valueBytes := Pack.elementSize rest
      if Pack.decode cursor = .text field then some (offset + fieldBytes, fieldBytes)
      else hashFindFrom field count (offset + fieldBytes + valueBytes) (rest.drop valueBytes)

def hashFind (node : Node) (field : Bytes) : Option (Nat × Nat) :=
  hashFindFrom field node.hashCount 0 node.body

def valueBytesAt (node : Node) (offset : Nat) : Nat :=
  Pack.elementSize (node.body.drop offset)

/-- `set_hash_count` and `set_hash_used`. -/
def setHashSizes (count used : Nat) (node : Node) : Node :=
  (node.setHashCount count).setHashUsed used

/-- Replace the value at an offset; what follows it moves if the sizes differ. -/
def replaceValue (offset oldBytes used : Nat) (value : Value) (node : Node) : Node :=
  { node with body := Buffer.splice offset oldBytes used (Pack.encodeBody value) node.body }

/-- Write a field and its value behind the others. -/
def appendPair (used : Nat) (field : Bytes) (value : Value) (node : Node) : Node :=
  node.writeBody used (Pack.encodeBody (.text field) ++ Pack.encodeBody value)

/-- Close the gap that a removed pair leaves. -/
def removePair (offset pairBytes used : Nat) (node : Node) : Node :=
  { node with body := Buffer.close offset pairBytes used node.body }

def replacedBytes (node : Node) (offset oldBytes used : Nat) (value : Value) : Bytes :=
  node.body.take offset ++ Pack.encodeBody value ++
    Buffer.slice (offset + oldBytes) (used - offset - oldBytes) node.body

/-- The size that no field and no value of a hash may exceed. -/
def fieldLimit : Nat := 64 * 1024 * 1024

/-- What `hash_assign` finds out about a packed hash before it changes it. -/
structure Placement where
  offset : Option Nat
  oldBytes : Nat
  used : Nat
  needed : Nat
  count : Nat

/-- The part of `hash_assign` that looks for the field and adds up the sizes. -/
def placement (node : Option Node) (field : Bytes) (value : Value) : Placement :=
  let offset := (node.bind fun node => node.hashFind field).map Prod.fst
  let oldBytes :=
    match node, offset with
    | some node, some offset => node.valueBytesAt offset
    | _, _ => 0
  let used := (node.map hashUsed).getD 0
  let fieldBytes := Pack.bodySize (.text field) % 2 ^ 32
  let valueBytes := Pack.bodySize value % 2 ^ 32
  { offset := offset
    oldBytes := oldBytes
    used := used
    needed := (sub32 used oldBytes + valueBytes + if offset.isSome then 0 else fieldBytes) % 2 ^ 32
    count := (node.map hashCount).getD 0 + if offset.isSome then 0 else 1 }

/-- The bytes that `hash_assign` writes into a new node. -/
def assignedBytes (node : Option Node) (placed : Placement) (field : Bytes) (value : Value) :
    Bytes :=
  match node, placed.offset with
  | some node, some offset => node.replacedBytes offset placed.oldBytes placed.used value
  | some node, none =>
      node.body.take placed.used ++ Pack.encodeBody (.text field) ++ Pack.encodeBody value
  | none, _ => Pack.encodeBody (.text field) ++ Pack.encodeBody value

/-- What `hash_assign` writes into a node with room. -/
def assignPair (placed : Placement) (field : Bytes) (value : Value) (node : Node) : Node :=
  (match placed.offset with
    | some offset => node.replaceValue offset placed.oldBytes placed.used value
    | none => node.appendPair placed.used field value).setHashSizes placed.count placed.needed

/-- What `hash_del` does to a packed hash: the place is the one of the value
and the size of its field. -/
def dropPair (place : Nat × Nat) (node : Node) : Node :=
  let used := node.hashUsed
  let pairBytes := place.2 + node.valueBytesAt place.1
  let closed := node.removePair (place.1 - place.2) pairBytes used
  (closed.setHashUsed (sub32 used pairBytes)).setHashCount (sub32 node.hashCount 1)

/-- Fill a new packed hash. -/
def fillPairs (data : Bytes) (count used : Nat) (node : Node) : Node :=
  (node.writeBody 0 data).setHashSizes count used

/-- Fill a new promoted hash. -/
def holdTable (table : HashTable) (count : Nat) (node : Node) : Node :=
  { node with promoted := true, table := table, count := count }

def setTable (table : HashTable) (node : Node) : Node :=
  { node with table := table }

/-- Change the table of a promoted hash and count it again. -/
def withTable (table : HashTable) (node : Node) : Node :=
  { node.setTable table with count := table.length % 2 ^ 32 }

/-! ## Looking up -/

variable {node : Node} {pairs front back : HashTable} {field : Bytes} {value old : Value}

/-- The search passes over a pair with another field. -/
theorem hashFindFrom_other {name : Bytes} (here : PairFits (name, value)) (other : name ≠ field)
    (count offset : Nat) (rest : Bytes) :
    hashFindFrom field (count + 1) offset (encodePair (name, value) ++ rest) =
      hashFindFrom field count (offset + (encodePair (name, value)).length) rest := by
  have different : Value.text name ≠ Value.text field := by
    intro equal
    cases equal
    exact other rfl
  rw [encodePair, List.append_assoc]
  simp only [hashFindFrom]
  rw [Pack.elementSize_encodeBody here.1, List.drop_left, Pack.elementSize_encodeBody here.2,
    List.drop_left, Pack.decode_encodeBody here.1, if_neg different, List.length_append,
    Nat.add_assoc]

theorem hashFindFrom_absent (fits : forall pair, pair ∈ pairs -> PairFits pair)
    (absent : Assoc.find field pairs = none) (offset : Nat) (rest : Bytes) :
    hashFindFrom field pairs.length offset (encodePairs pairs ++ rest) = none := by
  induction pairs generalizing offset with
  | nil => rfl
  | cons pair others ih =>
      rcases pair with ⟨name, item⟩
      have here := fits (name, item) List.mem_cons_self
      by_cases same : name = field
      · simp [Assoc.find, same] at absent
      · simp only [Assoc.find, if_neg same] at absent
        rw [List.length_cons, encodePairs_cons, List.append_assoc, hashFindFrom_other here same]
        exact ih (fun other member => fits other (List.mem_cons_of_mem _ member))
          absent _

theorem hashFindFrom_present (fits : forall pair, pair ∈ front ++ (field, old) :: back ->
      PairFits pair)
    (absent : Assoc.find field front = none) (offset : Nat) (rest : Bytes) :
    hashFindFrom field (front ++ (field, old) :: back).length offset
        (encodePairs (front ++ (field, old) :: back) ++ rest) =
      some (offset + (encodePairs front).length + (Pack.encodeBody (.text field)).length,
        (Pack.encodeBody (.text field)).length) := by
  induction front generalizing offset with
  | nil =>
      have here := fits (field, old) List.mem_cons_self
      rw [List.nil_append, List.length_cons, encodePairs_cons, encodePair, List.append_assoc,
        List.append_assoc]
      simp only [hashFindFrom]
      rw [Pack.elementSize_encodeBody here.1, Pack.decode_encodeBody here.1, if_pos rfl]
      rfl
  | cons pair others ih =>
      rcases pair with ⟨name, item⟩
      have here := fits (name, item) List.mem_cons_self
      by_cases same : name = field
      · simp [Assoc.find, same] at absent
      · simp only [Assoc.find, if_neg same] at absent
        rw [List.cons_append, List.length_cons, encodePairs_cons, List.append_assoc,
          hashFindFrom_other here same,
          ih (fun other member => fits other (List.mem_cons_of_mem _ member)) absent,
          encodePairs_cons]
        simp only [List.length_append, Nat.add_assoc]

theorem PackedHash.body_eq (packed : PackedHash node pairs) :
    node.body = encodePairs pairs ++ node.body.drop (encodePairs pairs).length := by
  have whole := List.take_append_drop (encodePairs pairs).length node.body
  rw [packed.bytes] at whole
  exact whole.symm

theorem PackedHash.hashFind_absent (packed : PackedHash node pairs)
    (absent : Assoc.find field pairs = none) : node.hashFind field = none := by
  unfold hashFind
  rw [packed.hashCount_eq, packed.body_eq]
  exact hashFindFrom_absent (fun pair member => packed.fits member) absent 0 _

def valueOffset (front : HashTable) (field : Bytes) : Nat :=
  (encodePairs front).length + (Pack.encodeBody (.text field)).length

theorem PackedHash.hashFind_present (packed : PackedHash node (front ++ (field, old) :: back))
    (absent : Assoc.find field front = none) :
    node.hashFind field = some (valueOffset front field,
      (Pack.encodeBody (.text field)).length) := by
  unfold hashFind
  rw [packed.hashCount_eq, packed.body_eq,
    hashFindFrom_present (fun pair member => packed.fits member) absent 0 _, Nat.zero_add]
  rfl

/-- The bytes of a packed hash around the value of a field. -/
theorem encodePairs_split (front back : HashTable) (field : Bytes) (old : Value) :
    encodePairs (front ++ (field, old) :: back) =
      (encodePairs front ++ Pack.encodeBody (.text field)) ++ Pack.encodeBody old ++
        encodePairs back := by
  rw [encodePairs_append, encodePairs_cons, encodePair]
  simp only [List.append_assoc]

theorem PackedHash.drop_valueOffset (packed : PackedHash node (front ++ (field, old) :: back)) :
    node.body.drop (valueOffset front field) = Pack.encodeBody old ++
      (encodePairs back ++
        node.body.drop (encodePairs (front ++ (field, old) :: back)).length) := by
  have offset : valueOffset front field =
      (encodePairs front ++ Pack.encodeBody (.text field)).length := by
    rw [List.length_append]
    rfl
  have body := packed.body_eq
  generalize node.body.drop (encodePairs (front ++ (field, old) :: back)).length = rest at body ⊢
  rw [body, encodePairs_split, offset, List.append_assoc, List.append_assoc, List.drop_left]

theorem PackedHash.valueBytesAt (packed : PackedHash node (front ++ (field, old) :: back)) :
    node.valueBytesAt (valueOffset front field) = (Pack.encodeBody old).length := by
  have fits := packed.fits (List.mem_append_right front List.mem_cons_self)
  unfold Node.valueBytesAt
  rw [packed.drop_valueOffset, Pack.elementSize_encodeBody fits.2]

theorem PackedHash.decode_value (packed : PackedHash node (front ++ (field, old) :: back)) :
    Pack.decode (node.body.drop (valueOffset front field)) = old := by
  have fits := packed.fits (List.mem_append_right front List.mem_cons_self)
  rw [packed.drop_valueOffset, Pack.decode_encodeBody fits.2]

/-! ## Updating -/

theorem sameBlock_replaceValue {offset oldBytes used : Nat} (node : Node) :
    SameBlock (node.replaceValue offset oldBytes used value) node :=
  ⟨rfl, rfl, rfl⟩

theorem body_replaceValue {offset oldBytes used : Nat} (node : Node) :
    (node.replaceValue offset oldBytes used value).body =
      Buffer.splice offset oldBytes used (Pack.encodeBody value) node.body :=
  rfl

theorem sameBlock_appendPair {used : Nat} (node : Node) :
    SameBlock (node.appendPair used field value) node :=
  ⟨rfl, rfl, rfl⟩

theorem body_appendPair {used : Nat} (node : Node) :
    (node.appendPair used field value).body = Buffer.write used
      (Pack.encodeBody (.text field) ++ Pack.encodeBody value) node.body :=
  rfl

theorem sameBlock_removePair {offset pairBytes used : Nat} (node : Node) :
    SameBlock (node.removePair offset pairBytes used) node :=
  ⟨rfl, rfl, rfl⟩

theorem body_removePair {offset pairBytes used : Nat} (node : Node) :
    (node.removePair offset pairBytes used).body =
      Buffer.close offset pairBytes used node.body :=
  rfl

/-- Neither half of the count word is cut off. -/
theorem setHashSizes_eq {count used : Nat} (node : Node) (few : count ≤ hashPackedLimit)
    (small : used ≤ hashPackedByteLimit) :
    node.setHashSizes count used = { node with count := count + used * 65536 } := by
  have limits : hashPackedLimit = 128 ∧ hashPackedByteLimit = 4096 := ⟨rfl, rfl⟩
  cases node
  unfold setHashSizes setHashCount setHashUsed
  simp only
  congr 1
  omega

theorem setHashCount_setHashUsed_eq {count used : Nat} (node : Node)
    (few : count ≤ hashPackedLimit) (small : used ≤ hashPackedByteLimit) :
    (node.setHashUsed used).setHashCount count = { node with count := count + used * 65536 } := by
  have limits : hashPackedLimit = 128 ∧ hashPackedByteLimit = 4096 := ⟨rfl, rfl⟩
  cases node
  unfold setHashCount setHashUsed
  simp only
  congr 1
  omega

/-- The sizes that are written with new bytes. -/
theorem packedHash_count {count : Nat} (type : node.type = .hash) (packed : node.promoted = false)
    (distinct : Assoc.Distinct pairs) (short : pairs.length ≤ hashPackedLimit)
    (small : (encodePairs pairs).length ≤ hashPackedByteLimit)
    (room : (encodePairs pairs).length ≤ node.bodyCapacity)
    (bytes : node.body.take (encodePairs pairs).length = encodePairs pairs)
    (sizes : count = pairs.length + (encodePairs pairs).length * 65536) :
    PackedHash { node with count := count } pairs where
  type := type
  packed := packed
  distinct := distinct
  short := short
  small := small
  count := sizes
  room := by
    rw [(sameBlock_count node count).bodyCapacity]
    exact room
  bytes := bytes

theorem packedHash_setHashSizes (type : node.type = .hash) (packed : node.promoted = false)
    (distinct : Assoc.Distinct pairs) (short : pairs.length ≤ hashPackedLimit)
    (small : (encodePairs pairs).length ≤ hashPackedByteLimit)
    (room : (encodePairs pairs).length ≤ node.bodyCapacity)
    (bytes : node.body.take (encodePairs pairs).length = encodePairs pairs) :
    PackedHash (node.setHashSizes pairs.length (encodePairs pairs).length) pairs := by
  rw [setHashSizes_eq node short small]
  exact packedHash_count type packed distinct short small room bytes rfl

theorem Laid.setCount (laid : node.Laid) (count : Nat) : { node with count := count }.Laid :=
  (sameBlock_count node count).laid laid rfl

theorem PackedHash.replaceValue (laid : node.Laid)
    (packed : PackedHash node (front ++ (field, old) :: back))
    (absent : Assoc.find field front = none)
    (small : (encodePairs (front ++ (field, value) :: back)).length ≤ hashPackedByteLimit)
    (room : (encodePairs (front ++ (field, value) :: back)).length ≤ node.bodyCapacity) :
    (node.replaceValue (valueOffset front field) (Pack.encodeBody old).length
        (encodePairs (front ++ (field, old) :: back)).length value).Laid ∧
      PackedHash ((node.replaceValue (valueOffset front field) (Pack.encodeBody old).length
        (encodePairs (front ++ (field, old) :: back)).length value).setHashSizes
        (front ++ (field, value) :: back).length
        (encodePairs (front ++ (field, value) :: back)).length)
        (front ++ (field, value) :: back) := by
  have bytes := packed.bytes
  have offset : valueOffset front field =
      (encodePairs front ++ Pack.encodeBody (.text field)).length := by
    rw [List.length_append]
    rfl
  have spliced := @Buffer.take_splice UInt8 (encodePairs front ++ Pack.encodeBody (.text field))
    (Pack.encodeBody old) (Pack.encodeBody value) (encodePairs back) node.body
    (by rw [<- encodePairs_split]; exact bytes)
    (by rw [<- encodePairs_split, laid.body]; exact room)
  rw [<- encodePairs_split, <- encodePairs_split, <- offset] at spliced
  have frame := @sameBlock_replaceValue value (valueOffset front field)
    (Pack.encodeBody old).length (encodePairs (front ++ (field, old) :: back)).length node
  rw [<- body_replaceValue] at spliced
  have distinct := @Assoc.distinct_assign _ _ _ _ field value packed.distinct
  rw [Assoc.assign_split absent] at distinct
  have short := packed.short
  rw [List.length_append, List.length_cons] at short
  refine ⟨frame.laid laid spliced.1, packedHash_setHashSizes packed.type packed.packed distinct
    ?_ small ?_ spliced.2⟩
  · rw [List.length_append, List.length_cons]
    exact short
  · exact room.trans_eq frame.bodyCapacity.symm

theorem PackedHash.appendPair (laid : node.Laid) (packed : PackedHash node pairs)
    (absent : Assoc.find field pairs = none) (short : pairs.length + 1 ≤ hashPackedLimit)
    (small : (encodePairs (pairs ++ [(field, value)])).length ≤ hashPackedByteLimit)
    (room : (encodePairs (pairs ++ [(field, value)])).length ≤ node.bodyCapacity) :
    (node.appendPair (encodePairs pairs).length field value).Laid ∧
      PackedHash ((node.appendPair (encodePairs pairs).length field value).setHashSizes
        (pairs ++ [(field, value)]).length (encodePairs (pairs ++ [(field, value)])).length)
        (pairs ++ [(field, value)]) := by
  have whole : encodePairs (pairs ++ [(field, value)]) = encodePairs pairs ++
      (Pack.encodeBody (.text field) ++ Pack.encodeBody value) := by
    rw [encodePairs_append, encodePairs_cons, encodePairs_nil, List.append_nil, encodePair]
  have fits := room
  rw [whole, List.length_append] at fits
  have frame := @sameBlock_appendPair field value (encodePairs pairs).length node
  have written := @Buffer.take_write_between UInt8 (encodePairs pairs)
    (Pack.encodeBody (.text field) ++ Pack.encodeBody value) [] node.body packed.bytes
    (Buffer.slice_zero_length _ _) (by rw [laid.body]; exact fits)
  rw [List.append_nil, List.length_nil, Nat.add_zero, <- List.length_append, <- whole,
    <- body_appendPair] at written
  refine ⟨laid.writeBody fits, packedHash_setHashSizes packed.type packed.packed
    (Assoc.distinct_append_one packed.distinct absent) ?_ small ?_ written⟩
  · rw [List.length_append]
    exact short
  · exact room.trans_eq frame.bodyCapacity.symm

theorem PackedHash.removePair (laid : node.Laid)
    (packed : PackedHash node (front ++ (field, old) :: back))
    (absent : Assoc.find field front = none) :
    (node.removePair (encodePairs front).length (encodePair (field, old)).length
        (encodePairs (front ++ (field, old) :: back)).length).Laid ∧
      PackedHash (((node.removePair (encodePairs front).length (encodePair (field, old)).length
        (encodePairs (front ++ (field, old) :: back)).length).setHashUsed
        (encodePairs (front ++ back)).length).setHashCount (front ++ back).length)
        (front ++ back) := by
  have whole : encodePairs (front ++ (field, old) :: back) =
      encodePairs front ++ encodePair (field, old) ++ encodePairs back := by
    rw [encodePairs_append, encodePairs_cons, List.append_assoc]
  have rest : encodePairs (front ++ back) = encodePairs front ++ encodePairs back :=
    encodePairs_append _ _
  have closed := @Buffer.take_close UInt8 (encodePairs front) (encodePair (field, old))
    (encodePairs back) node.body (by rw [<- whole]; exact packed.bytes)
    (by rw [<- whole, laid.body]; exact packed.room)
  rw [<- whole, <- rest] at closed
  have frame := @sameBlock_removePair (encodePairs front).length
    (encodePair (field, old)).length (encodePairs (front ++ (field, old) :: back)).length node
  rw [<- body_removePair] at closed
  have less : (encodePairs (front ++ back)).length ≤
      (encodePairs (front ++ (field, old) :: back)).length := by
    rw [whole, rest, List.length_append, List.length_append, List.length_append]
    omega
  have fewer : (front ++ back).length ≤ (front ++ (field, old) :: back).length := by
    rw [List.length_append, List.length_append, List.length_cons]
    omega
  have distinct := @Assoc.distinct_erase _ _ _ _ field packed.distinct
  rw [Assoc.erase_split absent] at distinct
  have types : (node.removePair (encodePairs front).length (encodePair (field, old)).length
      (encodePairs (front ++ (field, old) :: back)).length).type = node.type ∧
      (node.removePair (encodePairs front).length (encodePair (field, old)).length
        (encodePairs (front ++ (field, old) :: back)).length).promoted = node.promoted :=
    ⟨rfl, rfl⟩
  refine ⟨frame.laid laid closed.1, ?_⟩
  generalize node.removePair (encodePairs front).length (encodePair (field, old)).length
    (encodePairs (front ++ (field, old) :: back)).length = next
    at frame closed types ⊢
  rw [setHashCount_setHashUsed_eq next (Nat.le_trans fewer packed.short)
    (Nat.le_trans less packed.small)]
  refine packedHash_count (types.1.trans packed.type) (types.2.trans packed.packed) distinct
    (Nat.le_trans fewer packed.short) (Nat.le_trans less packed.small) ?_ closed.2 rfl
  rw [frame.bodyCapacity]
  exact Nat.le_trans less packed.room

/-- The bytes that a new node gets when a value is replaced. -/
theorem PackedHash.replacedBytes (packed : PackedHash node (front ++ (field, old) :: back)) :
    node.replacedBytes (valueOffset front field) (Pack.encodeBody old).length
      (encodePairs (front ++ (field, old) :: back)).length value =
        encodePairs (front ++ (field, value) :: back) := by
  have bytes := packed.bytes
  have offset : valueOffset front field =
      (encodePairs front ++ Pack.encodeBody (.text field)).length := by
    rw [List.length_append]
    rfl
  unfold Node.replacedBytes
  rw [encodePairs_split] at bytes ⊢
  rw [offset, Buffer.tail_of_three, Buffer.take_of_three bytes, Buffer.slice_of_three bytes,
    encodePairs_split]

theorem packedHash_fillPairs (laid : node.Laid) (type : node.type = .hash)
    (packed : node.promoted = false) (distinct : Assoc.Distinct pairs)
    (short : pairs.length ≤ hashPackedLimit)
    (small : (encodePairs pairs).length ≤ hashPackedByteLimit)
    (room : (encodePairs pairs).length ≤ node.bodyCapacity) :
    (node.fillPairs (encodePairs pairs) pairs.length (encodePairs pairs).length).Laid ∧
      PackedHash (node.fillPairs (encodePairs pairs) pairs.length (encodePairs pairs).length)
        pairs := by
  have fits : 0 + (encodePairs pairs).length ≤ node.bodyCapacity := by
    rw [Nat.zero_add]
    exact room
  have frame := sameBlock_writeBody node 0 (encodePairs pairs)
  have written : (Buffer.write 0 (encodePairs pairs) node.body).take (encodePairs pairs).length =
      encodePairs pairs := by
    rw [<- Buffer.slice_zero]
    exact Buffer.slice_write_same (Nat.zero_le _)
  refine ⟨?_, packedHash_setHashSizes type packed distinct short small ?_ written⟩
  · unfold fillPairs
    rw [setHashSizes_eq _ short small]
    exact (laid.writeBody fits).setCount _
  · exact room.trans_eq frame.bodyCapacity.symm

/-! ## Assigning a field -/

/-- A packed hash that may not be there yet. -/
inductive PackedSource : Option Node -> HashTable -> Prop where
  | fresh : PackedSource none []
  | held {node : Node} {pairs : HashTable} :
      PackedHash node pairs -> PackedSource (some node) pairs

theorem PackedSource.distinct {source : Option Node} (packed : PackedSource source pairs) :
    Assoc.Distinct pairs := by
  cases packed with
  | fresh => exact List.nodup_nil
  | held packed => exact packed.distinct

theorem length_encodePairs_append_one :
    (encodePairs (pairs ++ [(field, value)])).length =
      (encodePairs pairs).length + (Pack.bodySize (.text field) + Pack.bodySize value) := by
  rw [encodePairs_append, encodePairs_cons, encodePairs_nil, List.append_nil, List.length_append,
    length_encodePair]

theorem length_encodePairs_split :
    (encodePairs (front ++ (field, value) :: back)).length =
      (encodePairs front).length + (Pack.bodySize (.text field) + Pack.bodySize value) +
        (encodePairs back).length := by
  rw [encodePairs_append, encodePairs_cons, List.length_append, List.length_append,
    length_encodePair, <- Nat.add_assoc]

/-- A new field is counted and its bytes are added. -/
theorem PackedSource.placement_absent {source : Option Node} (packed : PackedSource source pairs)
    (absent : Assoc.find field pairs = none) (fieldSmall : field.length ≤ fieldLimit)
    (valueSmall : Pack.bodySize value ≤ fieldLimit) :
    placement source field value =
      ⟨none, 0, (encodePairs pairs).length, (encodePairs (pairs ++ [(field, value)])).length,
        (pairs ++ [(field, value)]).length⟩ := by
  have bound : fieldLimit = 67108864 := rfl
  have bytes : hashPackedByteLimit = 4096 := rfl
  have header : Pack.bodySize (.text field) ≤ 5 + field.length := Pack.bodySize_text_le field
  rw [length_encodePairs_append_one, List.length_append]
  cases packed with
  | fresh =>
      simp only [placement, Option.bind_none, Option.map_none, Option.getD_none, Option.isSome_none,
        Bool.false_eq_true, if_false, encodePairs_nil, List.length_nil]
      congr 1
      rw [sub32_of_le (Nat.le_refl 0) (by decide)]
      omega
  | held packed =>
      have small := packed.small
      simp only [placement, Option.bind_some, packed.hashFind_absent absent, Option.map_none,
        Option.map_some, Option.getD_some, Option.isSome_none, Bool.false_eq_true, if_false,
        packed.hashUsed_eq, packed.hashCount_eq]
      congr 1
      rw [sub32_of_le (Nat.zero_le _) (by omega)]
      omega

/-- The bytes of an old value are replaced. -/
theorem PackedHash.placement_present (packed : PackedHash node (front ++ (field, old) :: back))
    (absent : Assoc.find field front = none) (valueSmall : Pack.bodySize value ≤ fieldLimit) :
    placement (some node) field value =
      ⟨some (valueOffset front field), (Pack.encodeBody old).length,
        (encodePairs (front ++ (field, old) :: back)).length,
        (encodePairs (front ++ (field, value) :: back)).length,
        (front ++ (field, value) :: back).length⟩ := by
  have bound : fieldLimit = 67108864 := rfl
  have bytes : hashPackedByteLimit = 4096 := rfl
  have small := packed.small
  have sameCount : (front ++ (field, value) :: back).length =
      (front ++ (field, old) :: back).length := by
    rw [List.length_append, List.length_append, List.length_cons, List.length_cons]
  simp only [placement, Option.bind_some, packed.hashFind_present absent, Option.map_some,
    Option.getD_some, Option.isSome_some, if_true, packed.hashUsed_eq, packed.hashCount_eq,
    packed.valueBytesAt, sameCount]
  congr 1
  rw [length_encodePairs_split] at small ⊢
  rw [length_encodePairs_split, Pack.length_encodeBody, sub32_of_le (by omega) (by omega)]
  omega

section Assigning

variable {source : Option Node}

/-- The sizes that `hash_assign` works with are those of the changed hash. -/
theorem PackedSource.placement_spec (packed : PackedSource source pairs)
    (fieldSmall : field.length ≤ fieldLimit) (valueSmall : Pack.bodySize value ≤ fieldLimit) :
    (placement source field value).offset.isSome = (Assoc.find field pairs).isSome ∧
      (placement source field value).needed =
        (encodePairs (Assoc.insert field value pairs)).length ∧
      (placement source field value).count = (Assoc.insert field value pairs).length ∧
      assignedBytes source (placement source field value) field value =
        encodePairs (Assoc.insert field value pairs) := by
  cases found : Assoc.find field pairs with
  | none =>
      rw [packed.placement_absent found fieldSmall valueSmall, Assoc.insert_of_find_none found]
      refine ⟨rfl, rfl, rfl, ?_⟩
      rw [encodePairs_append, encodePairs_cons, encodePairs_nil, List.append_nil, encodePair]
      cases packed with
      | fresh => rfl
      | held packed =>
          simp only [assignedBytes]
          rw [packed.bytes, List.append_assoc]
  | some old =>
      cases packed with
      | fresh => cases found
      | held packed =>
          rcases Assoc.split_of_find found with ⟨front, back, rfl, absent⟩
          rw [packed.placement_present absent valueSmall, Assoc.insert_of_find_some found,
            Assoc.assign_split absent]
          refine ⟨rfl, rfl, rfl, ?_⟩
          simp only [assignedBytes]
          rw [packed.replacedBytes]

/-- Assigning a field in a node with room. -/
theorem PackedHash.assignPair (laid : node.Laid) (packed : PackedHash node pairs)
    (fieldSmall : field.length ≤ fieldLimit) (valueSmall : Pack.bodySize value ≤ fieldLimit)
    (short : (Assoc.insert field value pairs).length ≤ hashPackedLimit)
    (small : (encodePairs (Assoc.insert field value pairs)).length ≤ hashPackedByteLimit)
    (room : (encodePairs (Assoc.insert field value pairs)).length ≤ node.bodyCapacity) :
    (node.assignPair (placement (some node) field value) field value).Laid ∧
      PackedHash (node.assignPair (placement (some node) field value) field value)
        (Assoc.insert field value pairs) ∧
      SameBlock (node.assignPair (placement (some node) field value) field value) node := by
  cases found : Assoc.find field pairs with
  | none =>
      rw [Assoc.insert_of_find_none found] at short small room ⊢
      rw [(PackedSource.held packed).placement_absent found fieldSmall valueSmall]
      have counted := short
      rw [List.length_append] at counted
      have appended := packed.appendPair laid found counted small room
      have frame := @sameBlock_appendPair field value (encodePairs pairs).length node
      simp only [Node.assignPair]
      refine ⟨?_, appended.2, ?_⟩
      · rw [setHashSizes_eq _ short small]
        exact appended.1.setCount _
      · rw [setHashSizes_eq _ short small]
        exact (sameBlock_count _ _).trans frame
  | some old =>
      rcases Assoc.split_of_find found with ⟨front, back, rfl, absent⟩
      rw [Assoc.insert_of_find_some found, Assoc.assign_split absent] at short small room ⊢
      rw [packed.placement_present absent valueSmall]
      have replaced := packed.replaceValue laid absent small room
      have frame := @sameBlock_replaceValue value (valueOffset front field)
        (Pack.encodeBody old).length (encodePairs (front ++ (field, old) :: back)).length node
      simp only [Node.assignPair]
      refine ⟨?_, replaced.2, ?_⟩
      · rw [setHashSizes_eq _ short small]
        exact replaced.1.setCount _
      · rw [setHashSizes_eq _ short small]
        exact (sameBlock_count _ _).trans frame

end Assigning

/-! ## Removing a field -/

theorem PackedHash.dropPair (laid : node.Laid)
    (packed : PackedHash node (front ++ (field, old) :: back))
    (absent : Assoc.find field front = none) :
    (node.dropPair (valueOffset front field, (Pack.encodeBody (.text field)).length)).Laid ∧
      PackedHash (node.dropPair (valueOffset front field,
        (Pack.encodeBody (.text field)).length)) (front ++ back) ∧
      SameBlock (node.dropPair (valueOffset front field,
        (Pack.encodeBody (.text field)).length)) node := by
  have limits : hashPackedLimit = 128 ∧ hashPackedByteLimit = 4096 := ⟨rfl, rfl⟩
  have removed := packed.removePair laid absent
  have frame := @sameBlock_removePair (encodePairs front).length
    (encodePair (field, old)).length (encodePairs (front ++ (field, old) :: back)).length node
  have short := packed.short
  have small := packed.small
  have size : (encodePairs (front ++ (field, old) :: back)).length =
      (encodePairs (front ++ back)).length + (encodePair (field, old)).length := by
    rw [encodePairs_append, encodePairs_cons, encodePairs_append]
    simp only [List.length_append]
    omega
  have count : (front ++ (field, old) :: back).length = (front ++ back).length + 1 := by
    rw [List.length_append, List.length_append, List.length_cons]
    omega
  have offset : valueOffset front field - (Pack.encodeBody (.text field)).length =
      (encodePairs front).length :=
    Nat.add_sub_cancel _ _
  have pairBytes : (Pack.encodeBody (.text field)).length + (Pack.encodeBody old).length =
      (encodePair (field, old)).length := by
    rw [encodePair, List.length_append]
  have unfolded : node.dropPair (valueOffset front field, (Pack.encodeBody (.text field)).length) =
      ((node.removePair (encodePairs front).length (encodePair (field, old)).length
        (encodePairs (front ++ (field, old) :: back)).length).setHashUsed
        (encodePairs (front ++ back)).length).setHashCount (front ++ back).length := by
    simp only [Node.dropPair, packed.hashUsed_eq, packed.hashCount_eq, packed.valueBytesAt, offset,
      pairBytes]
    rw [sub32_of_le (by omega) (by omega), sub32_of_le (by omega) (by omega), count,
      Nat.add_sub_cancel]
    congr 2
    omega
  rw [unfolded]
  refine ⟨?_, removed.2, ?_⟩
  · rw [setHashCount_setHashUsed_eq _ (by omega) (by omega)]
    exact removed.1.setCount _
  · rw [setHashCount_setHashUsed_eq _ (by omega) (by omega)]
    exact (sameBlock_count _ _).trans frame

/-! ## Tables -/

theorem sameBlock_setTable {table : HashTable} (node : Node) :
    SameBlock (node.setTable table) node :=
  ⟨rfl, rfl, rfl⟩

theorem sameBlock_withTable {table : HashTable} (node : Node) :
    SameBlock (node.withTable table) node :=
  (sameBlock_count (node.setTable table) _).trans (sameBlock_setTable node)

theorem Laid.setTable {table : HashTable} (laid : node.Laid) : (node.setTable table).Laid :=
  (sameBlock_setTable node).laid laid rfl

theorem Laid.withTable {table : HashTable} (laid : node.Laid) : (node.withTable table).Laid :=
  (@Laid.setTable node table laid).setCount _

/-- A table of the same size needs no new count. -/
theorem PromotedHash.setTable {table : HashTable} (promoted : PromotedHash node)
    (distinct : Assoc.Distinct table) (size : table.length = node.table.length) :
    PromotedHash (node.setTable table) where
  type := promoted.type
  promoted := promoted.promoted
  distinct := distinct
  count := by
    change node.count = table.length % 2 ^ 32
    rw [size, promoted.count]

theorem PromotedHash.withTable {table : HashTable} (promoted : PromotedHash node)
    (distinct : Assoc.Distinct table) : PromotedHash (node.withTable table) where
  type := promoted.type
  promoted := promoted.promoted
  distinct := distinct
  count := rfl

theorem PromotedHash.holds (promoted : PromotedHash node) (nonempty : node.table ≠ []) :
    node.Holds (.hash (Assoc.toMap node.table)) :=
  Or.inl ⟨promoted, nonempty, rfl⟩

theorem PackedHash.holds (packed : PackedHash node pairs) (nonempty : pairs ≠ []) :
    node.Holds (.hash (Assoc.toMap pairs)) :=
  Or.inr ⟨pairs, packed, nonempty, rfl⟩

end Node

end Reddish
