import Reddish.Database.Lists
import Reddish.Database.HashNode

namespace Reddish

open Library Numeral

/-!
# Hashes

Setting, removing and reading fields.  A field of a packed hash is written in
place, into a larger node or, beyond the limits of the packed form, into a
table; a batch builds a table and packs it again if it is small enough.  In
every case the record is logged before the keyspace changes.
-/

namespace Node

/-- Insert a new pair into the table of a promoted hash. -/
def insertPair (order : TableOrder) (field : Bytes) (value : Value) (node : Node) : Node :=
  node.withTable (order.arrange (node.table ++ [(field, value)]))

/-- Assign a field that the table of a promoted hash has. -/
def overwritePair (field : Bytes) (value : Value) (node : Node) : Node :=
  node.setTable (Assoc.assign field value node.table)

/-- Erase a field from the table of a promoted hash. -/
def erasePair (field : Bytes) (node : Node) : Node :=
  node.withTable (Assoc.erase field node.table)

/-- Move a table to more buckets. -/
def arrangeTable (order : TableOrder) (node : Node) : Node :=
  node.setTable (order.arrange node.table)

/-- The value of a field, in either form. -/
def fieldValue (node : Node) (field : Bytes) : Option Value :=
  if node.promoted then Assoc.find field node.table
  else (node.hashFind field).map fun place => Pack.decode (node.body.drop place.1)

/-- The number of fields, in either form. -/
def fieldCount (node : Node) : Nat :=
  if node.promoted then node.table.length else node.hashCount

end Node

namespace Database

open Cmd (onlyIf)

/-! ## Tables -/

/-- What the next insertion does to the order of a table.  An `unordered_map`
may iterate in any order, so the environment chooses one. -/
def nextOrder : Op TableOrder :=
  fun world => (.ok (world.orders 0), { world with orders := fun n => world.orders (n + 1) })

/-- `emplace`: a field that is there stays as it is. -/
def emplace (pair : Bytes × Value) (table : HashTable) : Op HashTable := do
  let _ <- allocate
  let order <- nextOrder
  pure (if (Assoc.find pair.1 table).isSome then table else order.arrange (table ++ [pair]))

/-- Copy pairs into a table. -/
def emplaceAll : HashTable -> HashTable -> Op HashTable
  | [], table => pure table
  | pair :: rest, table => do
      let table <- emplace pair table
      emplaceAll rest table

/-- `insert_or_assign`, with whether the field is new. -/
def insertOrAssign (field : Bytes) (value : Value) (table : HashTable) :
    Op (HashTable × Bool) := do
  let _ <- allocate
  let order <- nextOrder
  pure (if (Assoc.find field table).isSome then (Assoc.assign field value table, false)
    else (order.arrange (table ++ [(field, value)]), true))

/-- `reserve` on the table of a promoted hash that has no bucket left. -/
def reserveTable (addr : Addr) : Op Unit := do
  let order <- nextOrder
  onlyIf (order.full = true) do
    let _ <- allocate
    modifyDb (Db.modifyNode addr (Node.arrangeTable order))

/-! ## Setting a field -/

def logField (key field : Bytes) (value : Value) : Op Unit :=
  log .hashSet (key :: field :: value.logged)

/-- `hash_assign` on a promoted hash. -/
def assignTable (addr : Addr) (key field : Bytes) (value : Value) : Op Nat := do
  let world <- Cmd.read
  copyOut value
  if (Assoc.find field (world.db.node addr).table).isSome then do
    logField key field value
    modifyDb (Db.modifyNode addr (Node.overwritePair field value))
    pure 0
  else do
    let _ <- allocate
    reserveTable addr
    let order <- nextOrder
    logField key field value
    modifyDb (Db.modifyNode addr (Node.insertPair order field value))
    pure 1

/-- The branch of `hash_assign` that promotes a hash: the pairs are copied into
a table, and a node that holds the table takes the place of the packed one. -/
def promote (found : Option Addr) (key field : Bytes) (value : Value)
    (placed : Node.Placement) : Op Unit := do
  let world <- Cmd.read
  let _ <- allocate
  let _ <- allocate
  let table <- emplaceAll (((found.map world.db.node).map Node.pairs).getD []) []
  let inserted <- insertOrAssign field value table
  let _ <- install found key .hash 8 (Node.holdTable inserted.1 placed.count)
    (logField key field value) true

/-- The branch of `hash_assign` that writes a new packed node. -/
def repack (found : Option Addr) (key field : Bytes) (value : Value)
    (placed : Node.Placement) : Op Unit := do
  let world <- Cmd.read
  let node := found.map world.db.node
  let _ <- install found key .hash
    (Node.grownCapacity placed.needed ((node.map Node.bodyCapacity).getD 0))
    (Node.fillPairs (Node.assignedBytes node placed field value) placed.count placed.needed)
    (logField key field value) true

/-- The branch of `hash_assign` that changes a packed node.  A text that lies in
the node itself is copied first. -/
def assignInPlace (addr : Addr) (key field : Bytes) (value : Value)
    (placed : Node.Placement) : Op Unit := do
  copyOut value
  logField key field value
  modifyDb (Db.modifyNode addr (Node.assignPair placed field value))

/-- `hash_assign` on a packed hash or a new key. -/
def assignPacked (found : Option Addr) (key field : Bytes) (value : Value) : Op Nat := do
  let world <- Cmd.read
  let placed := Node.placement (found.map world.db.node) field value
  let result := if placed.offset.isSome then 0 else 1
  rehashFor found
  if placed.count > Node.hashPackedLimit ∨ placed.needed > Node.hashPackedByteLimit then do
    promote found key field value placed
    pure result
  else
    match found with
    | none => do
        repack none key field value placed
        pure result
    | some addr =>
        if placed.needed > (world.db.node addr).bodyCapacity then do
          repack (some addr) key field value placed
          pure result
        else do
          assignInPlace addr key field value placed
          pure result

/-- The errors of `hash_assign`. -/
def refuseAssign (db : Db) (found : Option Addr) (field : Bytes) (value : Value) :
    Option ErrorCode :=
  if ((found.map db.node).map Node.type).getD .hash ≠ .hash then some .wrongType
  else if field.length > Node.fieldLimit ∨ Pack.bodySize value > Node.fieldLimit then
    some .requestTooLarge
  else none

/-- The choice between the two forms. -/
def assignFound (promoted found : Option Addr) (key field : Bytes) (value : Value) : Op Nat :=
  match promoted with
  | some addr => assignTable addr key field value
  | none => assignPacked found key field value

/-- `hash_assign`, which is `hash_set` and `hash_set_text`. -/
def hashAssign (key field : Bytes) (value : Value) : Op (Except ErrorCode Nat) := do
  let found <- findWritable key
  let world <- Cmd.read
  match refuseAssign world.db found field value with
  | some code => pure (.error code)
  | none => do
      spell value
      let added <- assignFound (found.filter fun addr => (world.db.node addr).promoted) found
        key field value
      pure (.ok added)

/-! ## Setting many fields -/

/-- The fields and values of a flat list. -/
def textPairs : List Bytes -> List (Bytes × Bytes)
  | field :: value :: rest => (field, value) :: textPairs rest
  | _ => []

/-- What the loop of `hash_set_texts` collects. -/
structure Merge where
  table : HashTable
  added : Nat
  largest : Nat

/-- The loop of `hash_set_texts` over its fields. -/
def mergeTexts : List (Bytes × Bytes) -> Merge -> Op (Option Merge)
  | [], merge => pure (some merge)
  | (field, value) :: rest, merge =>
      if field.length > Node.fieldLimit ∨ value.length > Node.fieldLimit then pure none
      else do
        let inserted <- insertOrAssign field (.text value) merge.table
        mergeTexts rest
          { table := inserted.1
            added := merge.added + if inserted.2 then 1 else 0
            largest := max merge.largest (field.length + value.length) }

def packedBytes (table : HashTable) : Nat :=
  (table.map fun pair => Pack.bodySize (.text pair.1) + Pack.bodySize pair.2).sum

/-- The part of `hash_set_texts` after the loop: the fields go into a new node,
packed if there are few and small ones only, and in a table otherwise. -/
def installTable (old : Option Addr) (key : Bytes) (pairs : List (Bytes × Bytes))
    (merge : Merge) : Op Unit := do
  let bytes := packedBytes merge.table
  let records := logBatch (key.length + merge.largest + 64) .hashSet
    (pairs.map fun pair => [key, pair.1, ascii "s", pair.2])
  rehashFor old
  if merge.table.length > Node.hashPackedLimit ∨ bytes > Node.hashPackedByteLimit then do
    let _ <- install old key .hash 8
      (Node.holdTable merge.table (merge.table.length % 2 ^ 32)) records true
  else do
    let _ <- install old key .hash (bytes % 2 ^ 32)
      (Node.fillPairs (Node.encodePairs merge.table) (merge.table.length % 2 ^ 32)
        (bytes % 2 ^ 32)) records true

def hashSetTexts (key : Bytes) (fields : List Bytes) : Op (Except ErrorCode Nat) := do
  if fields.length % 2 ≠ 0 then pure (.error .wrongArgumentCount)
  else do
    let old <- findWritable key
    let world <- Cmd.read
    if ((old.map world.db.node).map Node.type).getD .hash ≠ .hash then
      pure (.error .wrongType)
    else if fields = [] then pure (.ok 0)
    else do
      let _ <- allocate
      let table <- emplaceAll (((old.map world.db.node).map Node.pairs).getD []) []
      match <- mergeTexts (textPairs fields) ⟨table, 0, 0⟩ with
      | none => pure (.error .requestTooLarge)
      | some merge => do
          installTable old key (textPairs fields) merge
          pure (.ok merge.added)

/-! ## Reading and removing -/

def hashField (key field : Bytes) : Op (Except ErrorCode (Option Value)) := do
  match <- findActive key with
  | none => pure (.ok none)
  | some addr => do
      let world <- Cmd.read
      if (world.db.node addr).type ≠ .hash then pure (.error .wrongType)
      else pure (.ok ((world.db.node addr).fieldValue field))

/-- `hash_get`: the same value, as a copy. -/
def hashGet (key field : Bytes) : Op (Except ErrorCode (Option Value)) :=
  copied copyOut (hashField key field)

def hashLength (key : Bytes) : Op (Except ErrorCode Nat) := do
  match <- findActive key with
  | none => pure (.ok 0)
  | some addr => do
      let world <- Cmd.read
      if (world.db.node addr).type ≠ .hash then pure (.error .wrongType)
      else pure (.ok (world.db.node addr).fieldCount)

/-- `hash_del` of a field in the table of a promoted hash. -/
def removeFromTable (addr : Addr) (key field : Bytes) : Op Unit := do
  log .hashDel [key, field]
  modifyDb (Db.modifyNode addr (Node.erasePair field))
  let world <- Cmd.read
  onlyIf ((world.db.node addr).table = []) (modifyDb (Db.eraseNode addr))

/-- `hash_del` of a field in a packed hash. -/
def removePacked (addr : Addr) (key field : Bytes) (place : Nat × Nat) : Op Unit := do
  let world <- Cmd.read
  log .hashDel [key, field]
  modifyDb (Db.modifyNode addr (Node.dropPair place))
  onlyIf ((world.db.node addr).hashCount = 1) (modifyDb (Db.eraseNode addr))

def hashDel (key field : Bytes) : Op (Except ErrorCode Bool) := do
  match <- findWritable key with
  | none => pure (.ok false)
  | some addr => do
      let world <- Cmd.read
      let node := world.db.node addr
      if node.type ≠ .hash then pure (.error .wrongType)
      else if node.promoted then
        if (Assoc.find field node.table).isSome then do
          removeFromTable addr key field
          pure (.ok true)
        else pure (.ok false)
      else
        match node.hashFind field with
        | none => pure (.ok false)
        | some place => do
            removePacked addr key field place
            pure (.ok true)

end Database

/-! ## Specifications -/

namespace Spec

/-- The fields at a key; a missing key has none. -/
def hashOf : Option Entry -> Except ErrorCode FieldMap
  | none => .ok ∅
  | some entry =>
      match entry.value with
      | .hash fields => .ok fields
      | _ => .error .wrongType

def refusesAssign (field : Bytes) (value : Value) : Except ErrorCode FieldMap -> Option ErrorCode
  | .error code => some code
  | .ok _ =>
      if field.length > Node.fieldLimit ∨ Pack.bodySize value > Node.fieldLimit then
        some .requestTooLarge
      else none

/-- Setting a field; the result says whether it is new. -/
def hashAssign (key field : Bytes) (value : Value) (time : Option Int64) (space : Keyspace) :
    Outcome (Except ErrorCode Nat) :=
  let start := writable time key space
  match hashOf start.result with
  | .error code => ⟨.error code, start.space, start.records⟩
  | .ok fields =>
      if field.length > Node.fieldLimit ∨ Pack.bodySize value > Node.fieldLimit then
        ⟨.error .requestTooLarge, start.space, start.records⟩
      else
        ⟨.ok (if (fields.lookup field).isSome then 0 else 1),
          store start key (.hash (fields.insert field value)) true,
          start.records ++ [record .hashSet (key :: field :: value.logged)]⟩

/-- A field or a value that is refused. -/
def tooLong (pair : Bytes × Bytes) : Bool :=
  decide (pair.1.length > Node.fieldLimit ∨ pair.2.length > Node.fieldLimit)

/-- Texts put into a map one after another. -/
def insertTexts (fields : FieldMap) (pairs : List (Bytes × Bytes)) : FieldMap :=
  pairs.foldl (fun fields pair => fields.insert pair.1 (.text pair.2)) fields

/-- Setting many fields; the result is the number of new ones. -/
def hashSetTexts (key : Bytes) (texts : List Bytes) (time : Option Int64) (space : Keyspace) :
    Outcome (Except ErrorCode Nat) :=
  if texts.length % 2 ≠ 0 then ⟨.error .wrongArgumentCount, space, []⟩
  else
    let start := writable time key space
    let pairs := Database.textPairs texts
    match hashOf start.result with
    | .error code => ⟨.error code, start.space, start.records⟩
    | .ok fields =>
        if texts = [] then ⟨.ok 0, start.space, start.records⟩
        else if pairs.any tooLong then
          ⟨.error .requestTooLarge, start.space, start.records⟩
        else
          ⟨.ok ((insertTexts fields pairs).keys.card - fields.keys.card),
            store start key (.hash (insertTexts fields pairs)) true,
            start.records ++ pairs.map fun pair =>
              record .hashSet [key, pair.1, ascii "s", pair.2]⟩

def hashField (key field : Bytes) : Option Int64 -> Keyspace ->
    Outcome (Except ErrorCode (Option Value)) :=
  reading (fun found =>
    match hashOf found with
    | .error code => .error code
    | .ok fields => .ok (fields.lookup field)) key

def hashLength : Bytes -> Option Int64 -> Keyspace -> Outcome (Except ErrorCode Nat) :=
  reading (fun found =>
    match hashOf found with
    | .error code => .error code
    | .ok fields => .ok fields.keys.card)

/-- Removing a field; a hash without fields is not kept. -/
def hashDel (key field : Bytes) (time : Option Int64) (space : Keyspace) :
    Outcome (Except ErrorCode Bool) :=
  let start := writable time key space
  match hashOf start.result with
  | .error code => ⟨.error code, start.space, start.records⟩
  | .ok fields =>
      if (fields.lookup field).isSome then
        ⟨.ok true,
          if (fields.erase field).keys = ∅ then start.space.erase key
            else store start key (.hash (fields.erase field)) true,
          start.records ++ [record .hashDel [key, field]]⟩
      else ⟨.ok false, start.space, start.records⟩

end Spec

/-! ## Building tables -/

namespace Database

variable {origin world after : World} {space : Keyspace} {now : Int64} {key field : Bytes}
variable {found : Option Addr} {addr : Addr} {oversize : Prop} {value : Value}
variable {pairs table : HashTable} {fields : FieldMap}

theorem prepares_nextOrder : Prepares nextOrder (fun _ => True) := by
  intro origin world pending space records oversize reached
  refine ⟨trivial, ?_, rfl, rfl⟩
  exact
    { rep := reached.rep
      sound := reached.sound
      evolves := reached.evolves.trans { World.Evolves.refl world with }
      logged := reached.logged }

theorem prepares_emplace {pair : Bytes × Value} (fresh : Assoc.find pair.1 table = none) :
    Prepares (emplace pair table) (fun result => result.Perm (table ++ [pair])) := by
  refine prepares_allocate.bind fun _ _ => prepares_nextOrder.bind fun order _ => prepares_pure ?_
  rw [fresh, Option.isSome_none, if_neg Bool.false_ne_true]
  exact order.perm _

/-- Copying distinct pairs gives a table with the same pairs. -/
theorem prepares_emplaceAll (distinct : Assoc.Distinct (table ++ pairs)) :
    Prepares (emplaceAll pairs table) (fun result => result.Perm (table ++ pairs)) := by
  induction pairs generalizing table with
  | nil =>
      refine prepares_pure ?_
      rw [List.append_nil]
  | cons pair rest ih =>
      have moved : table ++ pair :: rest = table ++ [pair] ++ rest := by simp
      have fresh : Assoc.find pair.1 table = none := by
        rw [Assoc.find_eq_none_iff]
        intro member
        unfold Assoc.Distinct at distinct
        rw [List.map_append, List.nodup_append] at distinct
        exact distinct.2.2 _ member _ List.mem_cons_self rfl
      rw [moved] at distinct ⊢
      refine (prepares_emplace fresh).bind fun result perm => ?_
      have whole : (result ++ rest).Perm (table ++ [pair] ++ rest) := perm.append_right rest
      have still : Assoc.Distinct (result ++ rest) := (whole.map Prod.fst).nodup_iff.mpr distinct
      exact (ih still).mono fun final last => last.trans whole

/-- `insert_or_assign` is insertion into the map. -/
theorem prepares_insertOrAssign (represents : Assoc.Represents table fields) :
    Prepares (insertOrAssign field value table) (fun result =>
      Assoc.Represents result.1 (fields.insert field value) ∧
        result.1.length = table.length + if result.2 then 1 else 0) := by
  refine prepares_allocate.bind fun _ _ => prepares_nextOrder.bind fun order _ => prepares_pure ?_
  have inserted := @Assoc.Represents.insert _ _ _ _ field value _ represents
  cases known : Assoc.find field table with
  | none =>
      rw [Assoc.insert_of_find_none known] at inserted
      rw [Option.isSome_none, if_neg Bool.false_ne_true]
      have perm := order.perm (table ++ [(field, value)])
      refine ⟨inserted.perm perm, ?_⟩
      rw [perm.length_eq, List.length_append]
      rfl
  | some old =>
      rw [Assoc.insert_of_find_some known] at inserted
      rw [Option.isSome_some, if_pos rfl]
      exact ⟨inserted, Assoc.length_assign⟩

/-- The loop over the texts inserts all of them or refuses the batch. -/
theorem prepares_mergeTexts {base : Nat} (texts : List (Bytes × Bytes)) (merge : Merge)
    (represents : Assoc.Represents merge.table fields)
    (counted : merge.added + base = merge.table.length) :
    Prepares (mergeTexts texts merge) (fun result =>
      (texts.any Spec.tooLong = true -> result = none) ∧
      (texts.any Spec.tooLong = false -> exists last, result = some last ∧
        Assoc.Represents last.table (Spec.insertTexts fields texts) ∧
        last.added + base = last.table.length ∧ merge.largest ≤ last.largest ∧
        (forall pair, pair ∈ texts -> pair.1.length + pair.2.length ≤ last.largest) ∧
        (texts ≠ [] ∨ merge.table ≠ [] -> last.table ≠ []))) := by
  induction texts generalizing merge fields with
  | nil =>
      refine prepares_pure ⟨fun refused => ?_, fun _ => ?_⟩
      · cases refused
      · refine ⟨merge, rfl, represents, counted, Nat.le_refl _, ?_, ?_⟩
        · intro pair impossible
          cases impossible
        · rintro (impossible | nonempty)
          · exact absurd rfl impossible
          · exact nonempty
  | cons pair rest ih =>
      rcases pair with ⟨name, text⟩
      simp only [mergeTexts, List.any_cons]
      by_cases long : name.length > Node.fieldLimit ∨ text.length > Node.fieldLimit
      · have refused : Spec.tooLong (name, text) = true := decide_eq_true long
        rw [if_pos long, refused, Bool.true_or]
        exact prepares_pure ⟨fun _ => rfl, fun impossible => absurd impossible (by decide)⟩
      · have admitted : Spec.tooLong (name, text) = false := decide_eq_false long
        rw [if_neg long, admitted, Bool.false_or]
        refine (prepares_insertOrAssign represents).bind fun inserted facts => ?_
        refine (ih _ facts.1 ?_).mono ?_
        · change merge.added + (if inserted.2 then 1 else 0) + base = inserted.1.length
          rw [facts.2]
          omega
        · rintro result ⟨refused, finished⟩
          refine ⟨refused, fun short => ?_⟩
          rcases finished short with ⟨last, done, represents, counted, above, each, filled⟩
          have bound : max merge.largest (name.length + text.length) ≤ last.largest := above
          refine ⟨last, done, represents, counted, by omega, ?_, ?_⟩
          · intro other member
            rcases List.mem_cons.mp member with rfl | member
            · change name.length + text.length ≤ last.largest
              omega
            · exact each other member
          · intro _
            exact filled (Or.inr (facts.1.ne_nil (Finmap.lookup_insert fields)))

theorem packedBytes_eq (table : HashTable) :
    packedBytes table = (Node.encodePairs table).length := by
  induction table with
  | nil => rfl
  | cons pair rest ih =>
      rw [Node.encodePairs_cons, List.length_append, Node.length_encodePair,
        <- ih]
      rfl

/-! ## Filling new nodes -/

theorem fills_holdTable {count : Nat} (represents : Assoc.Represents table fields)
    (nonempty : table ≠ []) (counted : count = table.length % 2 ^ 32) :
    Fills (Node.holdTable table count) key .hash 8 (.hash fields) := by
  intro garbage laid _
  have frame : Node.SameBlock
      ((Node.fresh key .hash 8 garbage).holdTable table count)
      (Node.fresh key .hash 8 garbage) := ⟨rfl, rfl, rfl⟩
  refine ⟨frame.laid laid rfl, frame.blockSize, rfl, Or.inl ⟨?_, nonempty, ?_⟩⟩
  · exact ⟨rfl, rfl, represents.distinct, counted⟩
  · exact represents.toMap_eq.symm

theorem fills_fillPairs {capacity : Nat} (represents : Assoc.Represents table fields)
    (nonempty : table ≠ []) (short : table.length ≤ Node.hashPackedLimit)
    (small : (Node.encodePairs table).length ≤ Node.hashPackedByteLimit)
    (enough : (Node.encodePairs table).length ≤ capacity) :
    Fills (Node.fillPairs (Node.encodePairs table) table.length (Node.encodePairs table).length)
      key .hash capacity (.hash fields) := by
  intro garbage laid room
  have filled := Node.packedHash_fillPairs laid rfl rfl represents.distinct short small
    (Nat.le_trans enough room)
  have frame : Node.SameBlock
      ((Node.fresh key .hash capacity garbage).fillPairs (Node.encodePairs table) table.length
        (Node.encodePairs table).length) (Node.fresh key .hash capacity garbage) := by
    unfold Node.fillPairs
    rw [Node.setHashSizes_eq _ short small]
    exact (Node.sameBlock_count _ _).trans (Node.sameBlock_writeBody _ _ _)
  refine ⟨filled.1, frame.blockSize, frame.key, ?_⟩
  rw [<- represents.toMap_eq]
  exact filled.2.holds nonempty

/-! ## The hash operations refine their specifications -/

/-- What the lookup found, seen as a hash. -/
inductive OpenedHash (world : World) : Option Addr -> Except ErrorCode FieldMap -> Prop where
  | absent : OpenedHash world none (.ok ∅)
  | packed {addr : Addr} {pairs : HashTable} : pairs ≠ [] ->
      (world.db.node addr).PackedHash pairs ->
      OpenedHash world (some addr) (.ok (Assoc.toMap pairs))
  | promoted {addr : Addr} : (world.db.node addr).table ≠ [] ->
      (world.db.node addr).PromotedHash ->
      OpenedHash world (some addr) (.ok (Assoc.toMap (world.db.node addr).table))
  | other {addr : Addr} : (world.db.node addr).type ≠ .hash ->
      OpenedHash world (some addr) (.error .wrongType)

theorem openedHash_of_valid (valid : (world.db.node addr).Valid) :
    OpenedHash world (some addr) (Spec.hashOf (some (world.db.entry addr))) := by
  have entry : (world.db.entry addr).value = (world.db.node addr).stored := rfl
  unfold Node.Valid at valid
  rw [Spec.hashOf, entry]
  cases type : (world.db.node addr).type with
  | hash =>
      rw [Node.stored, type] at valid ⊢
      rcases valid with ⟨promoted, nonempty, -⟩ | ⟨pairs, packed, nonempty, -⟩
      · simp only [promoted.pairs_eq]
        exact .promoted nonempty promoted
      · simp only [packed.pairs_eq]
        exact .packed nonempty packed
  | string | integer | list =>
      rw [Node.stored, type]
      exact .other (by rw [type]; decide)

theorem Opened.hash (opened : Opened origin world key space now found) :
    OpenedHash world found (Spec.hashOf (Spec.writable (origin.time now) key space).result) := by
  rw [opened.result]
  cases found with
  | none => exact .absent
  | some addr => exact openedHash_of_valid (opened.reached.rep.found opened.located).valid

/-- The pairs that are copied stand for the fields. -/
theorem OpenedHash.represents (hash : OpenedHash world found (.ok fields)) :
    Assoc.Represents (((found.map world.db.node).map Node.pairs).getD []) fields := by
  cases hash with
  | absent => exact Assoc.represents_nil
  | packed _ packed =>
      simp only [Option.map_some, Option.getD_some, packed.pairs_eq]
      exact ⟨packed.distinct, rfl⟩
  | promoted _ promoted =>
      simp only [Option.map_some, Option.getD_some, promoted.pairs_eq]
      exact ⟨promoted.distinct, rfl⟩

theorem OpenedHash.type (hash : OpenedHash world found (.ok fields)) :
    ((found.map world.db.node).map Node.type).getD .hash = .hash := by
  cases hash with
  | absent => rfl
  | packed _ packed => exact packed.type
  | promoted _ promoted => exact promoted.type

theorem pairs_of_source {source : Option Node} (packed : Node.PackedSource source pairs) :
    (source.map Node.pairs).getD [] = pairs := by
  cases packed with
  | fresh => rfl
  | held packed => exact packed.pairs_eq

/-- What setting a field has to leave behind. -/
def Assigned (origin last : World) (key : Bytes) (space : Keyspace) (now : Int64)
    (fields : FieldMap) (field : Bytes) (value : Value) : Prop :=
  Reached origin last []
    (Spec.store (Spec.writable (origin.time now) key space) key
      (.hash (fields.insert field value)) true)
    ((Spec.writable (origin.time now) key space).records ++
      [Spec.record .hashSet (key :: field :: value.logged)])

theorem promote_spec {placed : Node.Placement}
    (opened : Opened origin world key space now found)
    (source : Node.PackedSource (found.map world.db.node) pairs)
    (count : placed.count = (Assoc.insert field value pairs).length) (few : pairs.length < 2 ^ 31) :
    (promote found key field value placed).wp
      (fun _ last => Assigned origin last key space now (Assoc.toMap pairs) field value)
      (fun thrown last => Aborted origin last key space oversize thrown) world := by
  have represents : Assoc.Represents pairs (Assoc.toMap pairs) := ⟨source.distinct, rfl⟩
  unfold promote
  rw [Cmd.wp_bind, Cmd.wp_read]
  simp only [pairs_of_source source]
  refine opened.wp_prepares prepares_allocate ?_
  intro _ first _ opened _
  refine opened.wp_prepares prepares_allocate ?_
  intro _ second _ opened _
  refine opened.wp_prepares (prepares_emplaceAll (by rw [List.nil_append]; exact source.distinct)) ?_
  intro table third perm opened _
  rw [List.nil_append] at perm
  have copied := represents.perm perm
  refine opened.wp_prepares (prepares_insertOrAssign copied) ?_
  rintro inserted last ⟨result, -⟩ opened _
  have size : inserted.1.length = (Assoc.insert field value pairs).length := by
    rw [<- result.card]
    exact (represents.insert).card
  have nonempty : inserted.1 ≠ [] := by
    refine List.ne_nil_of_length_pos ?_
    rw [size]
    exact List.length_pos_of_ne_nil Assoc.insert_ne_nil
  have counted : placed.count = inserted.1.length % 2 ^ 32 := by
    have grown := @Assoc.length_insert _ _ _ pairs field value
    rw [count, size, Nat.mod_eq_of_lt]
    split at grown <;> omega
  refine Cmd.wp_step (install_spec opened (by decide)
    (fills_holdTable result nonempty counted) (logs_log _ _)) ?_ (fun _ _ failed => failed)
  rintro _ final ⟨reached, -⟩
  exact reached

theorem repack_spec {placed : Node.Placement}
    (opened : Opened origin world key space now found)
    (source : Node.PackedSource (found.map world.db.node) pairs)
    (bytes : Node.assignedBytes (found.map world.db.node) placed field value =
      Node.encodePairs (Assoc.insert field value pairs))
    (count : placed.count = (Assoc.insert field value pairs).length)
    (needed : placed.needed = (Node.encodePairs (Assoc.insert field value pairs)).length)
    (short : (Assoc.insert field value pairs).length ≤ Node.hashPackedLimit)
    (small : (Node.encodePairs (Assoc.insert field value pairs)).length ≤
      Node.hashPackedByteLimit)
    (tight : ((found.map world.db.node).map Node.bodyCapacity).getD 0 < placed.needed) :
    (repack found key field value placed).wp
      (fun _ last => Assigned origin last key space now (Assoc.toMap pairs) field value)
      (fun thrown last => Aborted origin last key space oversize thrown) world := by
  have limits : Node.hashPackedByteLimit ≤ Node.listLimit ∧ 2 * Node.listLimit ≤ 2 ^ 31 := by
    decide
  have represents : Assoc.Represents pairs (Assoc.toMap pairs) := ⟨source.distinct, rfl⟩
  have grown := Node.grownCapacity_spec tight (by omega)
  unfold repack
  rw [Cmd.wp_bind, Cmd.wp_read]
  simp only [bytes]
  rw [Cmd.wp_bind, count]
  rw [needed] at grown ⊢
  refine Cmd.wp_mono (install_spec opened (by omega)
    (fills_fillPairs represents.insert Assoc.insert_ne_nil short small grown.1) (logs_log _ _)) ?_
    (fun _ _ failed => failed)
  rintro _ final ⟨reached, -⟩
  exact reached

theorem assignInPlace_spec (opened : Opened origin world key space now (some addr))
    (packed : (world.db.node addr).PackedHash pairs)
    (fieldSmall : field.length ≤ Node.fieldLimit)
    (valueSmall : Pack.bodySize value ≤ Node.fieldLimit)
    (short : (Assoc.insert field value pairs).length ≤ Node.hashPackedLimit)
    (small : (Node.encodePairs (Assoc.insert field value pairs)).length ≤
      Node.hashPackedByteLimit)
    (room : (Node.encodePairs (Assoc.insert field value pairs)).length ≤
      (world.db.node addr).bodyCapacity) :
    (assignInPlace addr key field value
        (Node.placement (some (world.db.node addr)) field value)).wp
      (fun _ last => Assigned origin last key space now (Assoc.toMap pairs) field value)
      (fun thrown last => Aborted origin last key space oversize thrown) world := by
  have laid := (opened.reached.rep.found opened.located).laid
  have assigned := packed.assignPair laid fieldSmall valueSmall short small room
  have holds := assigned.2.1.holds Assoc.insert_ne_nil
  rw [Assoc.toMap_insert] at holds
  unfold assignInPlace
  refine opened.wp_prepares prepares_copyOut ?_
  intro _ copied _ opened same
  rw [<- same] at assigned holds ⊢
  refine Cmd.wp_step (log_spec opened.reached _ _) ?_ (fun _ _ failed => opened.aborted failed.1)
  rintro _ logged ⟨reached, sameDb, -⟩
  rw [<- sameDb] at assigned holds ⊢
  have located : logged.db.findNode key = some addr := by
    rw [sameDb]
    exact opened.located
  exact (opened.modify reached located assigned.1 assigned.2.2.blockSize assigned.2.2.key
    holds).1

/-- Setting a field of a packed hash or of a new key. -/
theorem assignPacked_spec (opened : Opened origin world key space now found)
    (source : Node.PackedSource (found.map world.db.node) pairs)
    (few : pairs.length ≤ Node.hashPackedLimit) (fieldSmall : field.length ≤ Node.fieldLimit)
    (valueSmall : Pack.bodySize value ≤ Node.fieldLimit) :
    (assignPacked found key field value).wp
      (fun added last => added = (if (Assoc.find field pairs).isSome then 0 else 1) ∧
        Assigned origin last key space now (Assoc.toMap pairs) field value)
      (fun thrown last => Aborted origin last key space oversize thrown) world := by
  have limit : Node.hashPackedLimit < 2 ^ 31 := by decide
  have placed := source.placement_spec fieldSmall valueSmall
  rcases placed with ⟨existing, needed, count, bytes⟩
  unfold assignPacked
  rw [Cmd.wp_bind, Cmd.wp_read]
  simp only [existing]
  refine Cmd.wp_step (rehashFor_spec opened) ?_ (fun _ _ failed => failed)
  rintro _ rehashed ⟨opened, same⟩
  have moved := source
  rw [<- same] at moved
  refine Cmd.wp_ite ?_ ?_
  · intro _
    refine Cmd.wp_step (promote_spec opened moved count (by omega)) ?_ (fun _ _ failed => failed)
    intro _ last assigned
    exact ⟨rfl, assigned⟩
  · intro fits
    have short : (Assoc.insert field value pairs).length ≤ Node.hashPackedLimit := by omega
    have small : (Node.encodePairs (Assoc.insert field value pairs)).length ≤
        Node.hashPackedByteLimit := by omega
    have written : Node.assignedBytes (found.map rehashed.db.node)
        (Node.placement (found.map world.db.node) field value) field value =
          Node.encodePairs (Assoc.insert field value pairs) := by
      rw [same]
      exact bytes
    cases found with
    | none =>
        have positive : 0 < (Node.placement (Option.map world.db.node none) field value).needed := by
          have one := @Assoc.insert_ne_nil _ _ _ pairs field value
          rcases List.exists_mem_of_ne_nil _ one with ⟨pair, member⟩
          have inside := Node.encodePair_le_encodePairs member
          rw [Node.length_encodePair] at inside
          have header := Pack.bodySize_pos (.text pair.1)
          rw [needed]
          omega
        simp only
        refine Cmd.wp_step (repack_spec opened moved written count needed short small positive) ?_
          (fun _ _ failed => failed)
        intro _ last assigned
        exact ⟨rfl, assigned⟩
    | some addr =>
        have node : rehashed.db.node addr = world.db.node addr := Option.some.inj same
        simp only
        refine Cmd.wp_ite ?_ ?_
        · intro tight
          have tighter : ((Option.map rehashed.db.node (some addr)).map Node.bodyCapacity).getD 0 <
              (Node.placement (Option.map world.db.node (some addr)) field value).needed := by
            rw [same]
            exact tight
          refine Cmd.wp_step (repack_spec opened moved written count needed short small tighter) ?_
            (fun _ _ failed => failed)
          intro _ last assigned
          exact ⟨rfl, assigned⟩
        · intro roomy
          cases moved with
          | held packed =>
              have room : (Node.encodePairs (Assoc.insert field value pairs)).length ≤
                  (rehashed.db.node addr).bodyCapacity := by
                rw [node, <- needed]
                exact Nat.not_lt.mp roomy
              rw [Cmd.wp_bind, Option.map_some, <- node]
              refine Cmd.wp_mono (assignInPlace_spec opened packed fieldSmall valueSmall short small
                room) ?_ (fun _ _ failed => failed)
              intro _ last assigned
              exact ⟨rfl, assigned⟩

/-- `reserve` may move the pairs of a table around. -/
theorem reserveTable_spec (opened : Opened origin world key space now (some addr))
    (promoted : (world.db.node addr).PromotedHash) (nonempty : (world.db.node addr).table ≠ []) :
    (reserveTable addr).wp
      (fun _ last => Reached origin last [] (Spec.writable (origin.time now) key space).space
          (Spec.writable (origin.time now) key space).records ∧
        last.db.findNode key = some addr ∧ (last.db.node addr).PromotedHash ∧
        Assoc.Represents (last.db.node addr).table (Assoc.toMap (world.db.node addr).table))
      (fun thrown last => Aborted origin last key space oversize thrown) world := by
  have represents : Assoc.Represents (world.db.node addr).table
      (Assoc.toMap (world.db.node addr).table) := ⟨promoted.distinct, rfl⟩
  generalize Assoc.toMap (world.db.node addr).table = fields at represents ⊢
  unfold reserveTable
  refine opened.wp_prepares prepares_nextOrder ?_
  intro order ordered _ opened same
  rw [<- same] at promoted nonempty represents
  refine Cmd.wp_onlyIf ?_ ?_
  · intro _
    refine opened.wp_prepares prepares_allocate ?_
    intro _ allocated _ opened sameLater
    rw [<- sameLater] at promoted nonempty represents
    have perm := order.perm (allocated.db.node addr).table
    have arranged := represents.perm perm
    have laid := (opened.reached.rep.found opened.located).laid
    have moved : ((allocated.db.node addr).arrangeTable order).PromotedHash :=
      promoted.setTable arranged.distinct perm.length_eq
    have filled : ((allocated.db.node addr).arrangeTable order).table ≠ [] := by
      refine List.ne_nil_of_length_pos ?_
      change 0 < (order.arrange (allocated.db.node addr).table).length
      rw [perm.length_eq]
      exact List.length_pos_of_ne_nil nonempty
    have holds : ((allocated.db.node addr).arrangeTable order).Holds
        (allocated.db.node addr).stored := by
      rw [(promoted.holds nonempty).stored_eq, represents.toMap_eq, <- arranged.toMap_eq]
      exact moved.holds filled
    have frame := @Node.sameBlock_setTable (order.arrange (allocated.db.node addr).table)
      (allocated.db.node addr)
    have kept := @Reached.rewrite _ _ _ _ _ _ _ (Node.arrangeTable order) opened.reached
      opened.located laid.setTable frame.blockSize frame.key holds
    refine ⟨kept.1, kept.2.1, ?_⟩
    change ((Db.modifyNode addr _ allocated.db).node addr).PromotedHash ∧
      Assoc.Represents ((Db.modifyNode addr _ allocated.db).node addr).table _
    rw [kept.2.2]
    exact ⟨moved, arranged⟩
  · intro _
    exact ⟨opened.reached, opened.located, promoted, represents⟩

theorem assignTable_spec (opened : Opened origin world key space now (some addr))
    (promoted : (world.db.node addr).PromotedHash) (nonempty : (world.db.node addr).table ≠ []) :
    (assignTable addr key field value).wp
      (fun added last =>
        added = (if (Assoc.find field (world.db.node addr).table).isSome then 0 else 1) ∧
        Assigned origin last key space now (Assoc.toMap (world.db.node addr).table) field value)
      (fun thrown last => Aborted origin last key space oversize thrown) world := by
  unfold assignTable
  rw [Cmd.wp_bind, Cmd.wp_read]
  refine opened.wp_prepares prepares_copyOut ?_
  intro _ copied _ opened same
  cases known : Assoc.find field (world.db.node addr).table with
  | some old =>
      rw [Option.isSome_some, if_pos rfl, if_pos rfl]
      rw [<- same] at promoted nonempty known ⊢
      have laid := (opened.reached.rep.found opened.located).laid
      have overwritten : ((copied.db.node addr).overwritePair field value).PromotedHash :=
        promoted.setTable (Assoc.distinct_assign promoted.distinct) Assoc.length_assign
      have filled : ((copied.db.node addr).overwritePair field value).table ≠ [] := by
        refine List.ne_nil_of_length_pos ?_
        change 0 < (Assoc.assign field value (copied.db.node addr).table).length
        rw [Assoc.length_assign]
        exact List.length_pos_of_ne_nil nonempty
      have holds := overwritten.holds filled
      have frame := @Node.sameBlock_setTable
        (Assoc.assign field value (copied.db.node addr).table) (copied.db.node addr)
      have inserted : Assoc.toMap ((copied.db.node addr).overwritePair field value).table =
          (Assoc.toMap (copied.db.node addr).table).insert field value :=
        Assoc.toMap_assign (by rw [known]; exact Option.some_ne_none old)
      rw [inserted] at holds
      unfold logField
      refine @Opened.wp_logModify _ _ _ _ _ _ _ _ _ _ (Node.overwritePair field value) _ _ _ _ _
        opened opened.reached opened.located laid.setTable frame.blockSize frame.key holds ?_
      rintro last ⟨stored, -⟩
      exact ⟨rfl, stored⟩
  | none =>
      rw [Option.isSome_none, if_neg Bool.false_ne_true, if_neg Bool.false_ne_true]
      rw [<- same] at promoted nonempty known ⊢
      refine opened.wp_prepares prepares_allocate ?_
      intro _ allocated _ opened sameLater
      rw [<- sameLater] at promoted nonempty known ⊢
      refine Cmd.wp_step (reserveTable_spec opened promoted nonempty) ?_ (fun _ _ failed => failed)
      rintro _ reserved ⟨reached, located, promotedLater, represents⟩
      have fresh : Assoc.find field (reserved.db.node addr).table = none := by
        rw [<- represents.lookup, Assoc.lookup_toMap, known]
      refine Cmd.wp_step (prepares_nextOrder reached) ?_ (fun _ _ => opened.aborted)
      rintro order ordered ⟨-, reached, sameDb, -⟩
      rw [<- sameDb] at located promotedLater represents fresh
      have laid := (reached.rep.found located).laid
      have perm := order.perm ((ordered.db.node addr).table ++ [(field, value)])
      have inserted := @Assoc.Represents.insert _ _ _ _ field value _ represents
      rw [Assoc.insert_of_find_none fresh] at inserted
      have arranged := inserted.perm perm
      have larger : ((ordered.db.node addr).insertPair order field value).PromotedHash :=
        promotedLater.withTable arranged.distinct
      have filled : ((ordered.db.node addr).insertPair order field value).table ≠ [] := by
        refine List.ne_nil_of_length_pos ?_
        change 0 < (order.arrange ((ordered.db.node addr).table ++ [(field, value)])).length
        rw [perm.length_eq, List.length_append]
        exact Nat.succ_pos _
      have holds := larger.holds filled
      have frame := @Node.sameBlock_withTable
        (order.arrange ((ordered.db.node addr).table ++ [(field, value)])) (ordered.db.node addr)
      have content : Assoc.toMap ((ordered.db.node addr).insertPair order field value).table =
          (Assoc.toMap (allocated.db.node addr).table).insert field value := arranged.toMap_eq
      rw [content] at holds
      unfold logField
      refine @Opened.wp_logModify _ _ _ _ _ _ _ _ _ _ (Node.insertPair order field value) _ _ _ _ _
        opened reached located laid.withTable frame.blockSize frame.key holds ?_
      rintro last ⟨stored, -⟩
      exact ⟨rfl, stored⟩

theorem refuseAssign_eq {result : Except ErrorCode FieldMap}
    (hash : OpenedHash world found result) :
    refuseAssign world.db found field value = Spec.refusesAssign field value result := by
  unfold refuseAssign
  cases result with
  | ok fields => rw [hash.type, if_neg (by decide), Spec.refusesAssign]
  | error code =>
      cases hash with
      | other type => exact if_pos type

/-- The two forms of a hash take their own ways to the same result. -/
theorem assignFound_spec (opened : Opened origin world key space now found)
    (hash : OpenedHash world found (.ok fields)) (fieldSmall : field.length ≤ Node.fieldLimit)
    (valueSmall : Pack.bodySize value ≤ Node.fieldLimit) :
    (assignFound (found.filter fun addr => (world.db.node addr).promoted) found key field
        value).wp
      (fun added last => added = (if (fields.lookup field).isSome then 0 else 1) ∧
        Assigned origin last key space now fields field value)
      (fun thrown last => Aborted origin last key space oversize thrown) world := by
  unfold assignFound
  cases hash with
  | absent =>
      exact assignPacked_spec opened .fresh (Nat.zero_le _) fieldSmall valueSmall
  | packed nonempty packed =>
      rw [Option.filter_some, packed.packed, if_neg Bool.false_ne_true, Assoc.lookup_toMap]
      exact assignPacked_spec opened (.held packed) packed.short fieldSmall valueSmall
  | promoted nonempty promoted =>
      rw [Option.filter_some, promoted.promoted, if_pos rfl, Assoc.lookup_toMap]
      exact assignTable_spec opened promoted nonempty

theorem hashAssign_spec (key field : Bytes) (value : Value) :
    Implements (hashAssign key field value) key (Node.maxKeyLength < key.length)
      (Spec.hashAssign key field value) := by
  intro origin space ready
  unfold hashAssign
  refine wp_findWritable ready id ?_
  intro now found world opened
  have hash := opened.hash
  rw [Cmd.wp_bind, Cmd.wp_read, refuseAssign_eq hash]
  generalize seen : Spec.hashOf (Spec.writable (origin.time now) key space).result = result
    at hash ⊢
  cases result with
  | error code =>
      refine opened.returns ?_ opened.reached
      simp only [Spec.hashAssign, seen]
  | ok fields =>
      simp only [Spec.refusesAssign]
      by_cases large : field.length > Node.fieldLimit ∨ Pack.bodySize value > Node.fieldLimit
      · rw [if_pos large]
        refine opened.returns ?_ opened.reached
        simp only [Spec.hashAssign, seen, if_pos large]
      · rw [if_neg large]
        refine opened.wp_prepares prepares_spell ?_
        intro _ spelled _ opened' same
        have hash' : OpenedHash spelled found (.ok fields) := by
          have again := opened'.hash
          rw [seen] at again
          exact again
        rw [<- same, Cmd.wp_bind]
        refine Cmd.wp_mono (assignFound_spec opened' hash' (by omega) (by omega)) ?_
          (fun _ _ failed => failed)
        rintro added last ⟨rfl, assigned⟩
        refine opened.returns ?_ assigned
        simp only [Spec.hashAssign, seen, if_neg large]

/-- A batch with pairs has texts for each of them. -/
theorem textPairs_ne_nil {texts : List Bytes} (even : texts.length % 2 = 0)
    (nonempty : texts ≠ []) : textPairs texts ≠ [] := by
  rcases texts with _ | ⟨field, _ | ⟨value, rest⟩⟩
  · exact absurd rfl nonempty
  · cases even
  · exact List.cons_ne_nil _ _

/-- Putting the table of a batch in the place of the old hash. -/
theorem installTable_spec {texts : List (Bytes × Bytes)} {merge : Merge}
    (opened : Opened origin world key space now found)
    (represents : Assoc.Represents merge.table fields) (nonempty : merge.table ≠ [])
    (each : forall pair, pair ∈ texts -> pair.1.length + pair.2.length ≤ merge.largest) :
    (installTable found key texts merge).wp
      (fun _ last => Reached origin last []
        (Spec.store (Spec.writable (origin.time now) key space) key (.hash fields) true)
        ((Spec.writable (origin.time now) key space).records ++
          texts.map fun pair => Spec.record .hashSet [key, pair.1, ascii "s", pair.2]))
      (fun thrown last => Aborted origin last key space oversize thrown) world := by
  have limits : Node.hashPackedLimit < 2 ^ 32 ∧ Node.hashPackedByteLimit ≤ 2 ^ 31 := by decide
  have logs := @logs_logBatch (key.length + merge.largest + 64) .hashSet
    (texts.map fun pair => [key, pair.1, ascii "s", pair.2]) ?_
  · rw [List.map_map] at logs
    unfold installTable
    simp only [packedBytes_eq]
    refine Cmd.wp_step (rehashFor_spec opened) ?_ (fun _ _ failed => failed)
    rintro _ rehashed ⟨opened, -⟩
    refine Cmd.wp_ite ?_ ?_
    · intro _
      refine Cmd.wp_step (install_spec opened (by decide)
        (fills_holdTable represents nonempty rfl) logs) ?_ (fun _ _ failed => failed)
      rintro _ last ⟨stored, -⟩
      exact stored
    · intro fits
      have short : merge.table.length ≤ Node.hashPackedLimit := by omega
      have small : (Node.encodePairs merge.table).length ≤ Node.hashPackedByteLimit := by omega
      rw [Nat.mod_eq_of_lt (show merge.table.length < 2 ^ 32 by omega),
        Nat.mod_eq_of_lt (show (Node.encodePairs merge.table).length < 2 ^ 32 by omega),
        Cmd.wp_bind]
      refine Cmd.wp_mono (install_spec opened (by omega)
        (fills_fillPairs represents nonempty short small (Nat.le_refl _)) logs) ?_
        (fun _ _ failed => failed)
      rintro _ last ⟨stored, -⟩
      exact stored
  · intro args member
    rcases List.mem_map.mp member with ⟨pair, inside, rfl⟩
    have long := each pair inside
    have kind : (ascii "s").length = 1 := rfl
    refine ⟨by simp, ?_⟩
    rw [Wal.length_payload]
    simp only [Spec.record, List.map_cons, List.map_nil, List.sum_cons, List.sum_nil, kind]
    omega

theorem hashSetTexts_spec (key : Bytes) (texts : List Bytes) :
    Implements (hashSetTexts key texts) key (Node.maxKeyLength < key.length)
      (Spec.hashSetTexts key texts) := by
  intro origin space ready
  unfold hashSetTexts
  refine Cmd.wp_ite ?_ ?_
  · intro odd
    refine ⟨origin.steady.reading 0, ⟨0, rfl⟩, ?_⟩
    rw [Spec.hashSetTexts, if_pos odd]
    exact ⟨rfl, ready.reached⟩
  intro even
  refine wp_findWritable ready id ?_
  intro now found world opened
  have hash := opened.hash
  rw [Cmd.wp_bind, Cmd.wp_read]
  generalize seen : Spec.hashOf (Spec.writable (origin.time now) key space).result = result
    at hash
  cases result with
  | error code =>
      cases hash with
      | other type =>
          simp only [Option.map_some, Option.getD_some, if_pos type]
          refine opened.returns ?_ opened.reached
          simp only [Spec.hashSetTexts, if_neg even, seen]
  | ok fields =>
      have copied := hash.represents
      simp only [hash.type, ne_eq, not_true_eq_false, if_false]
      refine Cmd.wp_ite ?_ ?_
      · intro nothing
        refine opened.returns ?_ opened.reached
        simp only [Spec.hashSetTexts, if_neg even, seen, if_pos nothing]
      · intro something
        refine opened.wp_prepares prepares_allocate ?_
        intro _ allocated _ opened _
        refine opened.wp_prepares
          (prepares_emplaceAll (by rw [List.nil_append]; exact copied.distinct)) ?_
        intro table built perm opened _
        rw [List.nil_append] at perm
        have represents := copied.perm perm
        refine opened.wp_prepares
          (prepares_mergeTexts (textPairs texts) ⟨table, 0, 0⟩ represents (Nat.zero_add _)) ?_
        rintro merged last ⟨refused, finished⟩ opened _
        cases long : (textPairs texts).any Spec.tooLong with
        | true =>
            rw [refused long]
            refine opened.returns ?_ opened.reached
            simp only [Spec.hashSetTexts, if_neg even, seen, if_neg something, long, if_true]
        | false =>
            rcases finished long with ⟨merge, rfl, represents', counted, -, each, filled⟩
            have pairs := textPairs_ne_nil (Decidable.not_not.mp even) something
            simp only
            refine Cmd.wp_step (installTable_spec opened represents' (filled (Or.inl pairs)) each) ?_
              (fun _ _ failed => failed)
            intro _ final stored
            refine opened.returns ?_ stored
            have added : merge.added =
                (Spec.insertTexts fields (textPairs texts)).keys.card - fields.keys.card := by
              rw [represents'.card, represents.card, <- counted, Nat.add_sub_cancel]
            simp only [Spec.hashSetTexts, if_neg even, seen, if_neg something, long,
              Bool.false_eq_true, if_false, added]

/-! ## Reading -/

theorem fieldValue_packed (packed : (world.db.node addr).PackedHash pairs) :
    (world.db.node addr).fieldValue field = Assoc.find field pairs := by
  rw [Node.fieldValue, packed.packed, if_neg Bool.false_ne_true]
  cases known : Assoc.find field pairs with
  | none => rw [packed.hashFind_absent known, Option.map_none]
  | some old =>
      rcases Assoc.split_of_find known with ⟨front, back, rfl, absent⟩
      rw [packed.hashFind_present absent, Option.map_some, packed.decode_value]

/-- Both forms of a hash show the same fields. -/
theorem OpenedHash.reads (hash : OpenedHash world (some addr) (.ok fields)) :
    (world.db.node addr).type = .hash ∧
      (world.db.node addr).fieldValue field = fields.lookup field ∧
      (world.db.node addr).fieldCount = fields.keys.card := by
  cases hash with
  | packed _ packed =>
      refine ⟨packed.type, ?_, ?_⟩
      · rw [fieldValue_packed packed, Assoc.lookup_toMap]
      · rw [Node.fieldCount, packed.packed, if_neg Bool.false_ne_true, packed.hashCount_eq,
          Assoc.card_toMap packed.distinct]
  | promoted _ promoted =>
      refine ⟨promoted.type, ?_, ?_⟩
      · rw [Node.fieldValue, promoted.promoted, if_pos rfl, Assoc.lookup_toMap]
      · rw [Node.fieldCount, promoted.promoted, if_pos rfl, Assoc.card_toMap promoted.distinct]

/-- A reader that looks at the node of a hash and refuses any other. -/
theorem peeks_hash {α : Type} {view : Node -> α} {answer : FieldMap -> α} {blank : α}
    (empty : answer ∅ = blank)
    (reads : forall {world : World} {addr : Addr} {fields : FieldMap},
      OpenedHash world (some addr) (.ok fields) -> view (world.db.node addr) = answer fields)
    (key : Bytes) :
    Peeks (do
      match <- findActive key with
      | none => pure (Except.ok blank)
      | some addr => do
          let world <- Cmd.read
          if (world.db.node addr).type ≠ .hash then pure (.error ErrorCode.wrongType)
          else pure (.ok (view (world.db.node addr))))
      (Spec.reading (fun found =>
        match Spec.hashOf found with
        | .error code => .error code
        | .ok fields => .ok (answer fields)) key) := by
  refine peeks_reading ?_ key
  intro world found valid
  cases found with
  | none => exact ⟨congrArg Except.ok empty.symm, rfl⟩
  | some addr =>
      have hash := openedHash_of_valid (valid addr rfl)
      simp only [Cmd.wp_bind, Cmd.wp_read, Option.map_some]
      generalize Spec.hashOf (some (world.db.entry addr)) = result at hash ⊢
      cases result with
      | error code =>
          cases hash with
          | other type =>
              rw [if_pos type]
              exact ⟨rfl, rfl⟩
      | ok fields =>
          rw [if_neg (not_not_intro (@OpenedHash.reads _ [] _ _ hash).1)]
          exact ⟨congrArg Except.ok (reads hash), rfl⟩

theorem hashField_peeks (key field : Bytes) :
    Peeks (hashField key field) (Spec.hashField key field) :=
  @peeks_hash _ (fun node => node.fieldValue field) (fun fields => fields.lookup field) _ rfl
    (fun hash => hash.reads.2.1) key

theorem hashField_spec (key field : Bytes) :
    Implements (hashField key field) key False (Spec.hashField key field) :=
  (hashField_peeks key field).implements

theorem hashGet_spec (key field : Bytes) :
    Implements (hashGet key field) key False (Spec.hashField key field) :=
  copied_implements (hashField_peeks key field) rfl fun _ => prepares_copyOut

theorem hashLength_peeks (key : Bytes) : Peeks (hashLength key) (Spec.hashLength key) :=
  @peeks_hash _ Node.fieldCount (fun fields => fields.keys.card) _ rfl
    (fun hash => (@OpenedHash.reads _ [] _ _ hash).2.2) key

theorem hashLength_spec (key : Bytes) :
    Implements (hashLength key) key False (Spec.hashLength key) :=
  (hashLength_peeks key).implements

/-! ## Removing -/

/-- What removing a field has to leave behind. -/
def Removed (origin last : World) (key : Bytes) (space : Keyspace) (now : Int64)
    (fields : FieldMap) (field : Bytes) : Prop :=
  Reached origin last []
    (if (fields.erase field).keys = ∅ then
        (Spec.writable (origin.time now) key space).space.erase key
      else Spec.store (Spec.writable (origin.time now) key space) key
        (.hash (fields.erase field)) true)
    ((Spec.writable (origin.time now) key space).records ++
      [Spec.record .hashDel [key, field]])

theorem keys_empty_iff (represents : Assoc.Represents table fields) :
    fields.keys = ∅ <-> table = [] := by
  rw [<- Finset.card_eq_zero, represents.card, List.length_eq_zero_iff]

theorem removeFromTable_spec (opened : Opened origin world key space now (some addr))
    (promoted : (world.db.node addr).PromotedHash) :
    (removeFromTable addr key field).wp
      (fun _ last => Removed origin last key space now
        (Assoc.toMap (world.db.node addr).table) field)
      (fun thrown last => Aborted origin last key space oversize thrown) world := by
  have represents : Assoc.Represents (world.db.node addr).table
      (Assoc.toMap (world.db.node addr).table) := ⟨promoted.distinct, rfl⟩
  have erased := @Assoc.Represents.erase _ _ _ _ field _ represents
  have empty := keys_empty_iff erased
  have laid := (opened.reached.rep.found opened.located).laid
  have frame := @Node.sameBlock_withTable (Assoc.erase field (world.db.node addr).table)
    (world.db.node addr)
  have smaller : ((world.db.node addr).erasePair field).PromotedHash :=
    promoted.withTable erased.distinct
  unfold removeFromTable Removed
  by_cases last : Assoc.erase field (world.db.node addr).table = []
  · rw [if_pos (empty.mpr last)]
    refine @Opened.wp_logErase _ _ _ _ _ _ _ _ _ (Node.erasePair field) _ _ _ _ _ opened
      opened.reached opened.located frame.blockSize frame.key ?_
    intro emptied node gone
    rw [Cmd.wp_bind, Cmd.wp_read]
    refine Cmd.wp_onlyIf (fun _ => gone) ?_
    intro filled
    rw [node] at filled
    exact absurd last filled
  · rw [if_neg (fun keys => last (empty.mp keys))]
    have holds := smaller.holds last
    have content : Assoc.toMap ((world.db.node addr).erasePair field).table =
        (Assoc.toMap (world.db.node addr).table).erase field := erased.toMap_eq
    rw [content] at holds
    refine @Opened.wp_logModify _ _ _ _ _ _ _ _ _ _ (Node.erasePair field) _ _ _ _ _ opened
      opened.reached opened.located laid.withTable frame.blockSize frame.key holds ?_
    rintro stored ⟨reached, -, node⟩
    rw [Cmd.wp_bind, Cmd.wp_read]
    refine Cmd.wp_onlyIf ?_ (fun _ => reached)
    intro none
    rw [node] at none
    exact absurd none last

theorem removePacked_spec {front back : HashTable} {old : Value}
    (opened : Opened origin world key space now (some addr))
    (packed : (world.db.node addr).PackedHash (front ++ (field, old) :: back))
    (absent : Assoc.find field front = none) :
    (removePacked addr key field (Node.valueOffset front field,
        (Pack.encodeBody (.text field)).length)).wp
      (fun _ last => Removed origin last key space now
        (Assoc.toMap (front ++ (field, old) :: back)) field)
      (fun thrown last => Aborted origin last key space oversize thrown) world := by
  have represents : Assoc.Represents (front ++ (field, old) :: back)
      (Assoc.toMap (front ++ (field, old) :: back)) := ⟨packed.distinct, rfl⟩
  have erased := @Assoc.Represents.erase _ _ _ _ field _ represents
  rw [Assoc.erase_split absent] at erased
  have empty := keys_empty_iff erased
  have laid := (opened.reached.rep.found opened.located).laid
  have dropped := packed.dropPair laid absent
  have count : (world.db.node addr).hashCount = (front ++ back).length + 1 := by
    rw [packed.hashCount_eq, List.length_append, List.length_append, List.length_cons]
    omega
  unfold removePacked Removed
  rw [Cmd.wp_bind, Cmd.wp_read]
  by_cases last : front ++ back = []
  · rw [if_pos (empty.mpr last)]
    refine opened.wp_logErase opened.reached opened.located dropped.2.2.blockSize dropped.2.2.key ?_
    intro emptied node gone
    refine Cmd.wp_onlyIf (fun _ => gone) ?_
    intro more
    rw [count, last] at more
    exact absurd rfl more
  · rw [if_neg (fun keys => last (empty.mp keys))]
    have holds := dropped.2.1.holds last
    rw [erased.toMap_eq] at holds
    refine opened.wp_logModify opened.reached opened.located dropped.1 dropped.2.2.blockSize
      dropped.2.2.key holds ?_
    rintro stored ⟨reached, -, -⟩
    refine Cmd.wp_onlyIf ?_ (fun _ => reached)
    intro one
    have positive := List.length_pos_of_ne_nil last
    omega

theorem hashDel_spec (key field : Bytes) :
    Implements (hashDel key field) key (Node.maxKeyLength < key.length)
      (Spec.hashDel key field) := by
  intro origin space ready
  unfold hashDel
  refine wp_findWritable ready id ?_
  intro now found world opened
  have hash := opened.hash
  generalize seen : Spec.hashOf (Spec.writable (origin.time now) key space).result = result
    at hash
  cases hash with
  | absent =>
      refine opened.returns ?_ opened.reached
      simp only [Spec.hashDel, seen, Finmap.lookup_empty, Option.isSome_none, Bool.false_eq_true,
        if_false]
  | other type =>
      simp only [Cmd.wp_bind, Cmd.wp_read, if_pos type]
      refine opened.returns ?_ opened.reached
      simp only [Spec.hashDel, seen]
  | @promoted addr nonempty promoted =>
      simp only [Cmd.wp_bind, Cmd.wp_read, promoted.type, ne_eq, not_true_eq_false, if_false,
        promoted.promoted, if_true]
      cases known : Assoc.find field (world.db.node addr).table with
      | none =>
          refine opened.returns ?_ opened.reached
          simp only [Spec.hashDel, seen, Assoc.lookup_toMap, known, Option.isSome_none,
            Bool.false_eq_true, if_false]
      | some old =>
          rw [Option.isSome_some, if_pos rfl, Cmd.wp_bind]
          refine Cmd.wp_mono (removeFromTable_spec opened promoted) ?_ (fun _ _ failed => failed)
          intro _ last removed
          refine opened.returns ?_ removed
          simp only [Spec.hashDel, seen, Assoc.lookup_toMap, known, Option.isSome_some, if_true]
  | @packed addr pairs nonempty packed =>
      simp only [Cmd.wp_bind, Cmd.wp_read, packed.type, ne_eq, not_true_eq_false, if_false,
        packed.packed, Bool.false_eq_true]
      cases known : Assoc.find field pairs with
      | none =>
          rw [packed.hashFind_absent known]
          refine opened.returns ?_ opened.reached
          simp only [Spec.hashDel, seen, Assoc.lookup_toMap, known, Option.isSome_none,
            Bool.false_eq_true, if_false]
      | some old =>
          rcases Assoc.split_of_find known with ⟨front, back, rfl, absent⟩
          rw [packed.hashFind_present absent]
          simp only
          refine Cmd.wp_step (removePacked_spec opened packed absent) ?_ (fun _ _ failed => failed)
          intro _ last removed
          refine opened.returns ?_ removed
          simp only [Spec.hashDel, seen, Assoc.lookup_toMap, known, Option.isSome_some, if_true]

end Database

end Reddish
