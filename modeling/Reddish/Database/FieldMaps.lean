import Reddish.Database.KeyView

namespace Reddish

open Library Numeral

/-!
# Hashes are finite maps

A hash is packed into the body of its node or kept in a table of its own, and
moves between the two.  Seen from outside it is a finite map from fields to
values, and a key without fields does not exist.
-/

namespace Database

/-- A map and the deadline of its key. -/
structure Fields where
  map : FieldMap
  deadline : Option Int64

inductive HashOp where
  | set (field : Bytes) (value : Value)
  | setTexts (texts : List Bytes)
  | del (field : Bytes)
  | get (field : Bytes)
  | view (field : Bytes)
  | length

namespace HashOp

def call (key : Bytes) : HashOp -> Call
  | set field value => .hashSet key field value
  | setTexts texts => .hashSetTexts key texts
  | del field => .hashDel key field
  | get field => .hashGet key field
  | view field => .hashField key field
  | length => .hashLength key

/-- A refusal before the key is looked up, or reading. -/
def reads : HashOp -> Bool
  | setTexts texts => decide (texts.length % 2 ≠ 0)
  | get _ => true
  | view _ => true
  | length => true
  | _ => false

/-- The log does not take a record of an operation. -/
def refused (key : Bytes) : HashOp -> Prop
  | set field value => ¬ Wal.Accepted (Spec.record .hashSet (key :: field :: value.logged))
  | setTexts texts => TooLarge key (textPairs texts)
  | del field => ¬ Wal.Accepted (Spec.record .hashDel [key, field])
  | _ => False

/-- The answer of an operation on a map, and the map afterwards. -/
def apply : HashOp -> FieldMap -> Answer × FieldMap
  | set field value, map =>
      if field.length > Node.fieldLimit ∨ Pack.bodySize value > Node.fieldLimit then
        (.count (.error .requestTooLarge), map)
      else (.count (.ok (if (map.lookup field).isSome then 0 else 1)), map.insert field value)
  | setTexts texts, map =>
      if texts.length % 2 ≠ 0 then (.count (.error .wrongArgumentCount), map)
      else if (textPairs texts).any Spec.tooLong then (.count (.error .requestTooLarge), map)
      else (.count (.ok ((Spec.insertTexts map (textPairs texts)).keys.card - map.keys.card)),
        Spec.insertTexts map (textPairs texts))
  | del field, map => (.removed (.ok (map.lookup field).isSome), map.erase field)
  | get field, map => (.value (.ok (map.lookup field)), map)
  | view field, map => (.value (.ok (map.lookup field)), map)
  | length, map => (.count (.ok map.keys.card), map)

end HashOp

namespace Fields

/-- The entry of a map; an empty one has none. -/
def entry (key : Bytes) (fields : Fields) : Option Entry :=
  if fields.map.keys = ∅ then none else some ⟨key, .hash fields.map, fields.deadline⟩

/-- The map at a moment: nothing is left of it after its deadline. -/
def settle (now : Int64) (fields : Fields) : Fields :=
  if fields.deadline.any (fun deadline => decide (deadline ≤ now)) = true then ⟨∅, none⟩ else fields

/-- The map after an operation; a new hash has no deadline. -/
def next (op : HashOp) (fields : Fields) : Fields :=
  ⟨(op.apply fields.map).2, if fields.map.keys = ∅ then none else fields.deadline⟩

end Fields

def fieldMaps (key : Bytes) : Automaton Fields HashOp where
  run := fun op => (op.call key).run
  entry := Fields.entry key
  settle := Fields.settle
  answer := fun op fields => (op.apply fields.map).1
  next := Fields.next
  reads := HashOp.reads
  oversize := fun op => op.reads = false ∧ Node.maxKeyLength < key.length
  refused := HashOp.refused key

/-- The representation of a map by a node: packed, with both halves of the count
word, or in a table, whose size is in the count word as far as it has room. -/
def HoldsFields (node : Node) (map : FieldMap) : Prop :=
  (exists pairs, node.PackedHash pairs ∧ map = Assoc.toMap pairs ∧
    node.hashCount = pairs.length ∧ node.hashUsed = (Node.encodePairs pairs).length) ∨
  (node.PromotedHash ∧ map = Assoc.toMap node.table)

/-- A key represents a map: it does not exist when the map is empty, and its node
has one of the representations otherwise. -/
structure HoldsMap (key : Bytes) (world : World) (fields : Fields) : Prop where
  absent : fields.map.keys = ∅ -> world.db.findNode key = none
  present : fields.map.keys ≠ ∅ -> exists addr, world.db.findNode key = some addr ∧
    HoldsFields (world.db.node addr) fields.map ∧ world.db.deadline addr = fields.deadline

variable {key : Bytes} {world : World} {fields : Fields}

theorem map_eq_empty {map : FieldMap} (empty : map.keys = ∅) : map = ∅ := by
  refine Finmap.ext_lookup fun field => ?_
  rw [Finmap.lookup_empty, Finmap.lookup_eq_none]
  intro inside
  have member := Finmap.mem_keys.mpr inside
  rw [empty] at member
  exact absurd member (Finset.notMem_empty field)

theorem hashOf_entry (fields : Fields) : Spec.hashOf (fields.entry key) = .ok fields.map := by
  unfold Fields.entry
  by_cases empty : fields.map.keys = ∅
  · rw [if_pos empty, map_eq_empty empty]
    rfl
  · rw [if_neg empty]
    rfl

theorem settles_fieldMaps : (fieldMaps key).Settles := by
  intro now fields
  change (fields.settle now).entry key = (fields.entry key).filter _
  unfold Fields.settle Fields.entry
  by_cases empty : fields.map.keys = ∅
  · rw [if_pos empty]
    split
    · rfl
    · rfl
  · rw [if_neg empty, Option.filter_some]
    rcases fields with ⟨map, _ | deadline⟩
    · simp only [Option.any_none, Bool.false_eq_true, if_false, Spec.expired, Bool.not_false, if_true]
      rw [if_neg empty]
    · simp only [Option.any_some, Spec.expired]
      by_cases due : deadline ≤ now
      · simp [due]
      · simp [due, empty]

/-- The entry that a store with the old deadline leaves behind. -/
theorem entry_stored_map {map : FieldMap} (some_ : map.keys ≠ ∅) :
    (Spec.Effect.store (.hash map) true).entry key (fields.entry key) =
      (Fields.mk map (if fields.map.keys = ∅ then none else fields.deadline)).entry key := by
  unfold Spec.Effect.entry Fields.entry
  by_cases empty : fields.map.keys = ∅
  · rw [if_pos empty, if_neg some_, if_pos empty]
    rfl
  · rw [if_neg empty, if_neg some_, if_neg empty]
    rfl

theorem entry_kept_map {op : HashOp} (same : (op.apply fields.map).2 = fields.map) :
    fields.entry key = (fields.next op).entry key := by
  unfold Fields.next
  rw [same]
  unfold Fields.entry
  by_cases empty : fields.map.keys = ∅
  · rw [if_pos empty, if_pos empty]
  · rw [if_neg empty, if_neg empty, if_neg empty]

theorem keys_insert_ne_empty (map : FieldMap) (field : Bytes) (value : Value) :
    (map.insert field value).keys ≠ ∅ :=
  Finset.ne_empty_of_mem (Finmap.mem_keys.mpr (Finmap.mem_insert.mpr (Or.inl rfl)))

theorem keys_insertTexts_ne_empty {pairs : List (Bytes × Bytes)} (some_ : pairs ≠ []) :
    forall map : FieldMap, (Spec.insertTexts map pairs).keys ≠ ∅ := by
  induction pairs with
  | nil => exact absurd rfl some_
  | cons pair rest ih =>
      intro map
      cases rest with
      | nil => exact keys_insert_ne_empty map pair.1 _
      | cons other rest => exact ih (List.cons_ne_nil _ _) _

theorem planHashAssign_follows (field : Bytes) (value : Value) :
    Answer.count (Spec.planHashAssign key field value (fields.entry key)).result =
        ((HashOp.set field value).apply fields.map).1 ∧
      (Spec.planHashAssign key field value (fields.entry key)).effect.entry key (fields.entry key) =
        (fields.next (.set field value)).entry key := by
  unfold Spec.planHashAssign
  rw [hashOf_entry]
  simp only
  by_cases large : field.length > Node.fieldLimit ∨ Pack.bodySize value > Node.fieldLimit
  · have refused : (HashOp.set field value).apply fields.map =
        (.count (.error .requestTooLarge), fields.map) := if_pos large
    rw [if_pos large, refused]
    exact ⟨rfl, entry_kept_map (congrArg Prod.snd refused)⟩
  · have stored : (HashOp.set field value).apply fields.map =
        (.count (.ok (if (fields.map.lookup field).isSome then 0 else 1)),
          fields.map.insert field value) := if_neg large
    rw [if_neg large, Fields.next, stored]
    exact ⟨rfl, entry_stored_map (keys_insert_ne_empty _ _ _)⟩

theorem planHashSetTexts_follows {texts : List Bytes} (even : ¬ texts.length % 2 ≠ 0) :
    Answer.count (Spec.planHashSetTexts key texts (fields.entry key)).result =
        ((HashOp.setTexts texts).apply fields.map).1 ∧
      (Spec.planHashSetTexts key texts (fields.entry key)).effect.entry key (fields.entry key) =
        (fields.next (.setTexts texts)).entry key := by
  unfold Spec.planHashSetTexts
  rw [hashOf_entry]
  simp only
  have applied : (HashOp.setTexts texts).apply fields.map =
      if (textPairs texts).any Spec.tooLong then (.count (.error .requestTooLarge), fields.map)
      else (.count (.ok ((Spec.insertTexts fields.map (textPairs texts)).keys.card -
        fields.map.keys.card)), Spec.insertTexts fields.map (textPairs texts)) := if_neg even
  by_cases nothing : texts = []
  · have same : (HashOp.setTexts texts).apply fields.map = (.count (.ok 0), fields.map) := by
      rw [applied, nothing]
      change (Answer.count (.ok (fields.map.keys.card - fields.map.keys.card)), fields.map) = _
      rw [Nat.sub_self]
    rw [if_pos nothing, same]
    exact ⟨rfl, entry_kept_map (congrArg Prod.snd same)⟩
  rw [if_neg nothing]
  by_cases long : (textPairs texts).any Spec.tooLong = true
  · rw [if_pos long] at applied
    rw [if_pos long, applied]
    exact ⟨rfl, entry_kept_map (congrArg Prod.snd applied)⟩
  · rw [if_neg long] at applied
    rw [if_neg long, Fields.next, applied]
    refine ⟨rfl, entry_stored_map (keys_insertTexts_ne_empty ?_ _)⟩
    rcases texts with _ | ⟨first, _ | ⟨second, rest⟩⟩
    · exact absurd rfl nothing
    · exact absurd Nat.one_ne_zero even
    · exact List.cons_ne_nil _ _

theorem planHashDel_follows (field : Bytes) :
    Answer.removed (Spec.planHashDel key field (fields.entry key)).result =
        ((HashOp.del field).apply fields.map).1 ∧
      (Spec.planHashDel key field (fields.entry key)).effect.entry key (fields.entry key) =
        (fields.next (.del field)).entry key := by
  unfold Spec.planHashDel
  rw [hashOf_entry]
  simp only
  cases known : (fields.map.lookup field).isSome with
  | false =>
      rw [if_neg Bool.false_ne_true]
      refine ⟨congrArg (Answer.removed ∘ Except.ok) known.symm, entry_kept_map ?_⟩
      refine Finmap.ext_lookup fun probe => ?_
      change (fields.map.erase field).lookup probe = _
      by_cases same : probe = field
      · rw [same, Finmap.lookup_erase, Option.isSome_eq_false_iff.mp known |> Option.isNone_iff_eq_none.mp]
      · rw [Finmap.lookup_erase_ne same]
  | true =>
      rw [if_pos rfl]
      refine ⟨congrArg (Answer.removed ∘ Except.ok) known.symm, ?_⟩
      by_cases last : (fields.map.erase field).keys = ∅
      · simp only [last, if_true]
        exact (if_pos last).symm
      · simp only [last, if_false]
        exact entry_stored_map last

/-- An operation that writes, on a key that may be too long. -/
theorem steps_fields {op : HashOp} {α : Type} {body : Op α} {wrap : α -> Answer}
    {spec : Option Int64 -> Keyspace -> Spec.Outcome α} {plan : Option Entry -> Spec.Plan α}
    (runs : (fieldMaps key).run op = answering wrap body) (writes : op.reads = false)
    (implements : Implements body key (Node.maxKeyLength < key.length) spec)
    (free : key.length ≤ Node.maxKeyLength -> LogFree (op.refused key) body)
    (large : Node.maxKeyLength < key.length -> forall world,
      (body world).1 = .error (.error .requestTooLarge))
    (follows : Spec.Follows key spec plan)
    (each : forall fields : Fields, wrap (plan (fields.entry key)).result = (op.apply fields.map).1 ∧
      (plan (fields.entry key)).effect.entry key (fields.entry key) = (fields.next op).entry key) :
    (fieldMaps key).Steps key op := by
  have same : (op.reads = false ∧ Node.maxKeyLength < key.length) =
    (Node.maxKeyLength < key.length) :=
    propext (and_iff_right writes)
  rw [<- same] at implements
  exact Automaton.steps_writing settles_fieldMaps runs writes implements
    (fun short => free (Nat.not_lt.mp fun long => short ⟨writes, long⟩)) (fun long => large long.2)
    follows each

/-- An operation that reads a field or counts the fields. -/
theorem steps_looking {op : HashOp} {α : Type} {body : Op (Except ErrorCode α)}
    {wrap : Except ErrorCode α -> Answer} {spec : Option Int64 -> Keyspace -> Spec.Outcome _}
    {view : FieldMap -> α} (runs : (fieldMaps key).run op = answering wrap body)
    (reading : op.reads = true) (implements : Implements body key False spec)
    (reads : spec = Spec.reading (fun found => (Spec.hashOf found).map view) key)
    (free : LogFree False body)
    (answers : forall map, (op.apply map).1 = wrap (.ok (view map))) :
    (fieldMaps key).Steps key op := by
  rw [reads] at implements
  refine Automaton.steps_reading settles_fieldMaps runs reading ?_ implements free fun fields => ?_
  · refine eq_false fun large => ?_
    have writes : op.reads = false := large.1
    rw [reading] at writes
    cases writes
  · change wrap ((Spec.hashOf (fields.entry key)).map view) = (op.apply fields.map).1
    rw [hashOf_entry, answers]
    rfl

theorem steps_fieldMaps (op : HashOp) : (fieldMaps key).Steps key op := by
  cases op with
  | set field value =>
      exact steps_fields rfl rfl (hashAssign_spec key field value)
        (fun _ => (routine_hashAssign id).logFree) long_findWritable
        (Spec.follows_hashAssign field value) fun _ => planHashAssign_follows field value
  | setTexts texts =>
      by_cases odd : texts.length % 2 ≠ 0
      · intro world fields live here
        have ran : (fieldMaps key).run (.setTexts texts) world =
            (.ok (.count (.error .wrongArgumentCount)), world) := by
          change answering _ (hashSetTexts key texts) world = _
          unfold hashSetTexts
          rw [if_pos odd]
          rfl
        unfold Cmd.wp
        rw [ran]
        refine ⟨⟨live, World.Evolves.refl world⟩, world.steady.reading 0, ⟨0, rfl⟩, ?_, ?_⟩
        · change _ = ((HashOp.setTexts texts).apply _).1
          simp only [HashOp.apply]
          rw [if_pos odd]
        · rw [here, Automaton.later]
          exact congrArg _ (if_pos (decide_eq_true odd)).symm
      · refine steps_fields rfl (decide_eq_false odd) (hashSetTexts_spec key texts)
          logFree_hashSetTexts (fun long world => ?_) (fun time space => ?_)
          fun _ => planHashSetTexts_follows odd
        · unfold hashSetTexts
          rw [if_neg odd]
          exact long_findWritable long world
        · rw [Spec.hashSetTexts_eq, if_neg odd]
  | del field =>
      exact steps_fields rfl rfl (hashDel_spec key field) (fun _ => (routine_hashDel id).logFree)
        long_findWritable (Spec.follows_hashDel field) fun _ => planHashDel_follows field
  | get field =>
      exact steps_looking rfl rfl (hashGet_spec key field) Spec.hashField_eq logFree_hashGet
        fun _ => rfl
  | view field =>
      exact steps_looking rfl rfl (hashField_spec key field) Spec.hashField_eq logFree_hashField
        fun _ => rfl
  | length =>
      exact steps_looking rfl rfl (hashLength_spec key) Spec.hashLength_eq logFree_hashLength
        fun _ => rfl

theorem holdsFields_iff {node : Node} {map : FieldMap} (some_ : map.keys ≠ ∅) :
    HoldsFields node map <-> node.Holds (.hash map) := by
  have nonempty : forall table : HashTable, map = Assoc.toMap table -> table ≠ [] := by
    rintro table rfl rfl
    exact some_ rfl
  constructor
  · rintro (⟨pairs, packed, equal, -⟩ | ⟨promoted, equal⟩)
    · exact Or.inr ⟨pairs, packed, nonempty pairs equal, equal⟩
    · exact Or.inl ⟨promoted, nonempty _ equal, equal⟩
  · rintro (⟨promoted, -, equal⟩ | ⟨pairs, packed, -, equal⟩)
    · exact Or.inr ⟨promoted, equal⟩
    · exact Or.inl ⟨pairs, packed, equal, packed.hashCount_eq, packed.hashUsed_eq⟩

/-- The entry of a key is read from its node. -/
theorem holdsMap_iff (idle : Idle world) :
    HoldsMap key world fields <-> world.db.lookup key = fields.entry key := by
  rcases idle with ⟨space, ready⟩
  constructor
  · intro holds
    unfold Fields.entry Db.lookup
    by_cases empty : fields.map.keys = ∅
    · rw [holds.absent empty, if_pos empty]
      rfl
    · rcases holds.present empty with ⟨addr, found, held, deadline⟩
      rw [found, if_neg empty, Option.map_some, Db.entry, (ready.rep.found found).key,
        ((holdsFields_iff empty).mp held).stored_eq, deadline]
  · intro here
    unfold Fields.entry Db.lookup at here
    constructor
    · intro empty
      rw [if_pos empty] at here
      exact Option.map_eq_none_iff.mp here
    · intro some_
      rw [if_neg some_] at here
      rcases Option.map_eq_some_iff.mp here with ⟨addr, found, equal⟩
      have valid : (world.db.node addr).Holds (world.db.node addr).stored :=
        (ready.rep.found found).valid
      rcases Entry.mk.inj equal with ⟨-, stored, deadline⟩
      rw [stored] at valid
      exact ⟨addr, found, (holdsFields_iff some_).mpr valid, deadline⟩

/-- From any state of the database in which a key is a hash or does not exist,
every sequence of operations on it is answered as a finite map answers it, and one
of the representations of the map is kept.  In a healthy environment an operation
throws only when its key is too long or the log does not take its record. -/
theorem hashes_refine_maps (reachable : Reachable world) (holds : HoldsMap key world fields)
    (ops : List HashOp) : (fieldMaps key).Tracks (HoldsMap key) ops world fields := by
  refine Automaton.tracks settles_fieldMaps steps_fieldMaps ?_ ops world fields reachable.toLive
    ((holdsMap_iff reachable.idle).mp holds)
  intro world fields live here
  exact (holdsMap_iff live.idle).mpr here

/-- Fields are set, counted, read and removed again, with the answers of a map. -/
theorem hashes_refine_maps_new :
    calm.Healthy ∧ HoldsMap [97] calm ⟨∅, none⟩ ∧ (fieldMaps [97]).Tracks (HoldsMap [97])
      [.set [1] (.integer 1), .setTexts [[1], [98], [2], [99]], .length, .get [1], .del [2],
        .view [2]] calm ⟨∅, none⟩ ∧
      (fieldMaps [97]).answers
        [.set [1] (.integer 1), .setTexts [[1], [98], [2], [99]], .length, .get [1], .del [2],
          .view [2]] calm =
        [.count (.ok 1), .count (.ok 1), .count (.ok 2), .value (.ok (some (.text [98]))),
          .removed (.ok true), .value (.ok none)] := by
  have holds : HoldsMap [97] calm ⟨∅, none⟩ :=
    ⟨fun _ => by decide +kernel, fun some_ => absurd rfl some_⟩
  exact ⟨healthy_calm, holds, hashes_refine_maps (Reachable.start ..) holds _,
    by decide +kernel⟩

/-! ## The count word of a large hash -/

/-- A state with a hash of a given number of fields. -/
def Filled (count : Nat) (world : World) : Prop :=
  Reachable world ∧ world.Healthy ∧ world.logging = false ∧
    exists map : FieldMap, world.db.lookup [97] = (Fields.mk map none).entry [97] ∧
      map.keys.card = count ∧ forall field, field ∈ map -> exists n, n < count ∧ field = leBytes 8 n

theorem filled (count : Nat) (small : count ≤ 2 ^ 32) : exists world, Filled count world := by
  induction count with
  | zero =>
      have empty : calm.db.lookup [97] = none := ((rep_empty 1).find_eq [97]).symm
      exact ⟨calm, Reachable.start .., healthy_calm, rfl, ∅, empty, rfl,
        fun field inside => absurd inside (Finmap.notMem_empty)⟩
  | succ count ih =>
      rcases ih (by omega) with ⟨world, reachable, healthy, silent, map, here, card, known⟩
      let op : HashOp := .set (leBytes 8 count) (.integer 0)
      have step := steps_fieldMaps op world ⟨map, none⟩ reachable.toLive here
      rcases ran : (fieldMaps [97]).run op world with ⟨thrown | answer, after⟩
      · -- nothing can fail, and the key is short
        rcases (Cmd.of_wp_error step ran).1 with sick | ⟨-, ⟨-, long⟩ | ⟨logging, -⟩⟩
        · exact absurd healthy sick
        · exact absurd long (by decide)
        · rw [silent] at logging
          cases logging
      rcases Cmd.of_wp_ok step ran with ⟨continues, now, -, -, there⟩
      have performed : (op.call [97]).perform world = (.ok (), after) := by
        rw [Call.perform_eq, show (op.call [97]).run world = (.ok answer, after) from ran]
        rfl
      have fresh : leBytes 8 count ∉ map := by
        intro inside
        rcases known _ inside with ⟨n, less, same⟩
        have equal := leBytes_injective (by omega) (by omega) same
        omega
      have stored : (fieldMaps [97]).later now op ⟨map, none⟩ =
          ⟨map.insert (leBytes 8 count) (.integer 0), none⟩ := by
        change (Fields.mk map none).next op = _
        unfold Fields.next
        rw [ite_self]
        exact congrArg (fun pair => Fields.mk (Prod.snd pair) none)
          (if_neg (by rw [not_or]; exact ⟨by rw [length_leBytes]; decide, by decide⟩))
      rw [stored] at there
      refine ⟨after, reachable.call _ performed, continues.healthy healthy,
        continues.evolves.logging.trans silent, map.insert (leBytes 8 count) (.integer 0), there, ?_, ?_⟩
      · have keys : (map.insert (leBytes 8 count) (.integer 0)).keys =
            insert (leBytes 8 count) map.keys := by
          ext field
          simp only [Finmap.mem_keys, Finset.mem_insert, Finmap.mem_insert]
        rw [keys, Finset.card_insert_of_notMem (fun inside => fresh (Finmap.mem_keys.mp inside)), card]
      · intro field inside
        rcases Finmap.mem_insert.mp inside with same | inside
        · exact ⟨count, Nat.lt_succ_self _, same⟩
        · rcases known field inside with ⟨n, less, same⟩
          exact ⟨n, Nat.lt_succ_of_lt less, same⟩

/-- The count word of a hash with `2 ^ 32` fields is zero. -/
theorem count_word_wraps :
    exists world addr, Reachable world ∧ world.db.findNode [97] = some addr ∧
      (world.db.node addr).promoted = true ∧ (world.db.node addr).table.length = 2 ^ 32 ∧
      (world.db.node addr).count = 0 := by
  rcases filled (2 ^ 32) (Nat.le_refl _) with ⟨world, reachable, -, -, map, here, card, -⟩
  have some_ : map.keys ≠ ∅ := by
    intro empty
    rw [empty, Finset.card_empty] at card
    exact absurd card (by decide)
  rcases ((holdsMap_iff reachable.idle).mpr here).present some_ with
    ⟨addr, found, ⟨pairs, packed, equal, -⟩ | ⟨promoted, equal⟩, -⟩
  · have short := packed.short
    change map = _ at equal
    rw [equal, Assoc.card_toMap packed.distinct] at card
    rw [card] at short
    exact absurd short (by decide)
  · change map = _ at equal
    rw [equal, Assoc.card_toMap promoted.distinct] at card
    refine ⟨world, addr, reachable, found, promoted.promoted, card, ?_⟩
    rw [promoted.count, card, Nat.mod_self]

end Database

end Reddish
