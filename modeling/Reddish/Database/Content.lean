import Reddish.Database.Node
import Reddish.Library.Assoc

namespace Reddish

open Library Numeral

/-!
# What a node stands for

The stored value of a node is read back from its bytes by the same cursor walks
that the compaction and the rewriting of hashes use.  `Node.Holds` adds the
representation invariants: where the bytes have to lie, which sizes and counts
must agree, and which limits are kept.
-/

/-- The logical content of a hash. -/
abbrev FieldMap := Finmap (fun _ : Bytes => Value)

/-- The logical content of a key.  A string that spells a number stays a string
until `increment` makes it an integer. -/
inductive Stored where
  | string (bytes : Bytes)
  | integer (n : Int64)
  | list (items : List Value)
  | hash (fields : FieldMap)

/-- `Element::text`: integers have none. -/
def Value.asText : Value -> Bytes
  | .text bytes => bytes
  | .integer _ => []

namespace Node

/-- The list size that no push may exceed. -/
def listLimit : Nat := 64 * 1024 * 1024

/-- The elements found by a cursor that walks over `count` of them. -/
def listItems : Nat -> Bytes -> List Value
  | 0, _ => []
  | count + 1, cursor => Pack.decode cursor :: listItems count (cursor.drop (Pack.stride cursor))

/-- The fields and values found by a cursor that walks over `count` pairs. -/
def hashPairs : Nat -> Bytes -> HashTable
  | 0, _ => []
  | count + 1, cursor =>
      let rest := cursor.drop (Pack.elementSize cursor)
      ((Pack.decode cursor).asText, Pack.decode rest) ::
        hashPairs count (rest.drop (Pack.elementSize rest))

def items (node : Node) : List Value :=
  listItems node.count (node.listRun.drop node.listHead)

/-- The fields of a hash node in the order a loop over them meets them. -/
def pairs (node : Node) : HashTable :=
  if node.promoted then node.table else hashPairs node.hashCount node.body

/-- The stored value, read from the node. -/
def stored (node : Node) : Stored :=
  match node.type with
  | .string => .string node.stringValue
  | .integer => .integer node.integerValue
  | .list => .list node.items
  | .hash => .hash (Assoc.toMap node.pairs)

/-! ## Encodings -/

def encodeItems (items : List Value) : Bytes :=
  items.flatMap Pack.encode

def encodePair (pair : Bytes × Value) : Bytes :=
  Pack.encodeBody (.text pair.1) ++ Pack.encodeBody pair.2

def encodePairs (pairs : HashTable) : Bytes :=
  pairs.flatMap encodePair

@[simp] theorem encodeItems_nil : encodeItems [] = [] :=
  rfl

@[simp] theorem encodeItems_cons (value : Value) (items : List Value) :
    encodeItems (value :: items) = Pack.encode value ++ encodeItems items :=
  rfl

theorem encodeItems_append (left right : List Value) :
    encodeItems (left ++ right) = encodeItems left ++ encodeItems right :=
  List.flatMap_append

@[simp] theorem encodePairs_nil : encodePairs [] = [] :=
  rfl

@[simp] theorem encodePairs_cons (pair : Bytes × Value) (pairs : HashTable) :
    encodePairs (pair :: pairs) = encodePair pair ++ encodePairs pairs :=
  rfl

theorem encodePairs_append (left right : HashTable) :
    encodePairs (left ++ right) = encodePairs left ++ encodePairs right :=
  List.flatMap_append

theorem length_encodePair (pair : Bytes × Value) :
    (encodePair pair).length = Pack.bodySize (.text pair.1) + Pack.bodySize pair.2 := by
  rw [encodePair, List.length_append, Pack.length_encodeBody, Pack.length_encodeBody]

theorem encode_ne_nil (value : Value) : 0 < (Pack.encode value).length := by
  rw [Pack.length_encode]
  exact Nat.lt_of_le_of_lt (Nat.zero_le _) (Pack.bodySize_lt_encodedSize value)

/-- Every element takes a byte, so there are no more elements than bytes. -/
theorem length_le_encodeItems (items : List Value) :
    items.length ≤ (encodeItems items).length := by
  induction items with
  | nil => exact Nat.le_refl 0
  | cons value items ih =>
      have positive := encode_ne_nil value
      rw [encodeItems_cons, List.length_append, List.length_cons]
      omega

/-- The bytes of one element of a list are among the bytes of the list. -/
theorem encode_le_encodeItems {value : Value} {items : List Value} (member : value ∈ items) :
    (Pack.encode value).length ≤ (encodeItems items).length := by
  rcases List.append_of_mem member with ⟨front, back, rfl⟩
  rw [encodeItems_append, encodeItems_cons, List.length_append, List.length_append]
  omega

theorem encodePair_le_encodePairs {pair : Bytes × Value} {pairs : HashTable}
    (member : pair ∈ pairs) : (encodePair pair).length ≤ (encodePairs pairs).length := by
  rcases List.append_of_mem member with ⟨front, back, rfl⟩
  rw [encodePairs_append, encodePairs_cons, List.length_append, List.length_append]
  omega

/-- The walk over a list finds its elements. -/
theorem listItems_encode {items : List Value} (fits : forall value, value ∈ items -> Pack.Fits value)
    (rest : Bytes) : listItems items.length (encodeItems items ++ rest) = items := by
  induction items with
  | nil => rfl
  | cons value items ih =>
      have here := fits value List.mem_cons_self
      rw [List.length_cons, encodeItems_cons, List.append_assoc]
      simp only [listItems]
      rw [Pack.decode_encode here, Pack.stride_encode here, List.drop_left,
        ih fun other member => fits other (List.mem_cons_of_mem _ member)]

/-- Both halves of a pair can be read back. -/
def PairFits (pair : Bytes × Value) : Prop :=
  Pack.Fits (.text pair.1) ∧ Pack.Fits pair.2

/-- The walk over a packed hash finds its pairs. -/
theorem hashPairs_encode {pairs : HashTable} (fits : forall pair, pair ∈ pairs -> PairFits pair)
    (rest : Bytes) : hashPairs pairs.length (encodePairs pairs ++ rest) = pairs := by
  induction pairs with
  | nil => rfl
  | cons pair pairs ih =>
      rcases pair with ⟨field, value⟩
      have here := fits (field, value) List.mem_cons_self
      rw [List.length_cons, encodePairs_cons, encodePair, List.append_assoc, List.append_assoc]
      simp only [hashPairs]
      rw [Pack.elementSize_encodeBody here.1, List.drop_left, Pack.elementSize_encodeBody here.2,
        List.drop_left, Pack.decode_encodeBody here.1, Pack.decode_encodeBody here.2,
        ih fun other member => fits other (List.mem_cons_of_mem _ member)]
      rfl

theorem fits_of_length {value : Value} (small : (Pack.encodeBody value).length < 2 ^ 32) :
    Pack.Fits value := by
  cases value with
  | integer n => trivial
  | text bytes =>
      rw [Pack.length_encodeBody] at small
      change bytes.length < 2 ^ 32
      exact Nat.lt_of_le_of_lt (Nat.le_add_left ..) small

theorem pairFits_of_length {pair : Bytes × Value} (small : (encodePair pair).length < 2 ^ 32) :
    PairFits pair := by
  rw [encodePair, List.length_append] at small
  exact ⟨fits_of_length (by omega), fits_of_length (by omega)⟩

/-! ## Representation invariants -/

/-- The run of a list node: a window of the body with the encodings of the
elements one after another. -/
structure ListRun (node : Node) (items : List Value) : Prop where
  type : node.type = .list
  count : node.count = items.length
  used : node.listUsed = (encodeItems items).length
  room : node.listHead + node.listUsed ≤ node.listRunCapacity
  run : Buffer.slice node.listHead node.listUsed node.listRun = encodeItems items
  limit : node.listUsed ≤ listLimit
  bound : node.listRunCapacity ≤ 2 * listLimit

/-- A packed hash: the encodings of distinct fields and their values from the
start of the body, and both halves of the count word. -/
structure PackedHash (node : Node) (pairs : HashTable) : Prop where
  type : node.type = .hash
  packed : node.promoted = false
  distinct : Assoc.Distinct pairs
  short : pairs.length ≤ hashPackedLimit
  small : (encodePairs pairs).length ≤ hashPackedByteLimit
  count : node.count = pairs.length + (encodePairs pairs).length * 65536
  room : (encodePairs pairs).length ≤ node.bodyCapacity
  bytes : node.body.take (encodePairs pairs).length = encodePairs pairs

/-- A promoted hash: distinct fields in the table, whose size is in the count
word as far as it has room. -/
structure PromotedHash (node : Node) : Prop where
  type : node.type = .hash
  promoted : node.promoted = true
  distinct : Assoc.Distinct node.table
  count : node.count = node.table.length % 2 ^ 32

def Holds (node : Node) : Stored -> Prop
  | .string bytes =>
      node.type = .string ∧ node.count = bytes.length ∧ bytes.length ≤ node.bodyCapacity ∧
        node.body.take bytes.length = bytes
  | .integer n =>
      node.type = .integer ∧ 8 ≤ node.bodyCapacity ∧ node.body.take 8 = Pack.storeI64 n
  | .list items => items ≠ [] ∧ ListRun node items
  | .hash fields =>
      (PromotedHash node ∧ node.table ≠ [] ∧ fields = Assoc.toMap node.table) ∨
        exists pairs, PackedHash node pairs ∧ pairs ≠ [] ∧ fields = Assoc.toMap pairs

theorem ListRun.fits {node : Node} {items : List Value} (run : ListRun node items) {value : Value}
    (member : value ∈ items) : Pack.Fits value := by
  have small := encode_le_encodeItems member
  have bound : listLimit < 2 ^ 32 := by decide
  have limit := run.limit
  rw [run.used] at limit
  refine fits_of_length ?_
  rw [Pack.encode, List.length_append] at small
  omega

theorem PackedHash.fits {node : Node} {pairs : HashTable} (packed : PackedHash node pairs)
    {pair : Bytes × Value} (member : pair ∈ pairs) : PairFits pair := by
  have small := encodePair_le_encodePairs member
  have bound : hashPackedByteLimit < 2 ^ 32 := by decide
  have limit := packed.small
  exact pairFits_of_length (by omega)

/-- Walking the run finds the elements. -/
theorem ListRun.items_eq {node : Node} {items : List Value} (run : ListRun node items) :
    node.items = items := by
  have whole := List.take_append_drop node.listUsed (node.listRun.drop node.listHead)
  have bytes : (node.listRun.drop node.listHead).take node.listUsed = encodeItems items := run.run
  rw [bytes] at whole
  unfold Node.items
  rw [<- whole, run.count]
  exact listItems_encode (fun value member => run.fits member) _

theorem PackedHash.hashCount_eq {node : Node} {pairs : HashTable} (packed : PackedHash node pairs) :
    node.hashCount = pairs.length := by
  have short := packed.short
  have bound : hashPackedLimit = 128 := rfl
  rw [hashCount, packed.count]
  omega

theorem PackedHash.hashUsed_eq {node : Node} {pairs : HashTable} (packed : PackedHash node pairs) :
    node.hashUsed = (encodePairs pairs).length := by
  have short := packed.short
  have bound : hashPackedLimit = 128 := rfl
  rw [hashUsed, packed.count]
  omega

/-- Walking the body finds the pairs. -/
theorem PackedHash.pairs_eq {node : Node} {pairs : HashTable} (packed : PackedHash node pairs) :
    node.pairs = pairs := by
  have whole := List.take_append_drop (encodePairs pairs).length node.body
  rw [packed.bytes] at whole
  unfold Node.pairs
  rw [packed.packed, if_neg (by decide), packed.hashCount_eq, <- whole]
  exact hashPairs_encode (fun pair member => packed.fits member) _

theorem PromotedHash.pairs_eq {node : Node} (promoted : PromotedHash node) :
    node.pairs = node.table := by
  unfold Node.pairs
  rw [promoted.promoted, if_pos rfl]

/-- Reading a node gives the value it represents. -/
theorem Holds.stored_eq {node : Node} {value : Stored} (holds : node.Holds value) :
    node.stored = value := by
  unfold stored
  cases value with
  | string bytes =>
      rcases holds with ⟨type, count, -, body⟩
      rw [type]
      simp only [stringValue]
      rw [count, body]
  | integer n =>
      rcases holds with ⟨type, -, body⟩
      rw [type]
      simp only [integerValue]
      have whole := List.take_append_drop 8 node.body
      rw [<- whole, body, Pack.loadI64_storeI64]
  | list items =>
      rcases holds with ⟨-, run⟩
      rw [run.type]
      simp only
      rw [run.items_eq]
  | hash fields =>
      rcases holds with ⟨promoted, -, rfl⟩ | ⟨pairs, packed, -, rfl⟩
      · rw [promoted.type]
        simp only
        rw [promoted.pairs_eq]
      · rw [packed.type]
        simp only
        rw [packed.pairs_eq]

/-- The node represents what is read from it. -/
def Valid (node : Node) : Prop :=
  node.Holds node.stored

theorem Holds.valid {node : Node} {value : Stored} (holds : node.Holds value) : node.Valid := by
  unfold Valid
  rw [holds.stored_eq]
  exact holds

end Node

end Reddish
