import Reddish.Database.Replica

namespace Reddish

open Library Numeral

/-!
# Snapshots

A compaction writes the records of every key, the oldest key first.  Replaying
them from nothing gives the keyspace that was written.  The replay refuses texts
that are too long, so this needs that no such text is in the database; and none
is, because the database itself can be replayed.
-/

namespace Spec

variable {α : Type} {key probe : Bytes} {space later live replica : Keyspace}
variable {restamp : Int64 -> Int64}

/-! ## What a replay admits -/

/-- Values whose parts the replay does not refuse. -/
def Storable : Stored -> Prop
  | .string bytes => bytes.length ≤ Database.maxValueLength
  | .hash fields => forall field value, fields.lookup field = some value ->
      field.length ≤ Node.fieldLimit ∧ Pack.bodySize value ≤ Node.fieldLimit
  | _ => True

/-- Every value of the keyspace is storable. -/
def Solid (space : Keyspace) : Prop :=
  forall key entry, space.find key = some entry -> Storable entry.value

/-- The effect stores nothing else. -/
def Effect.Sound (effect : Effect) : Prop :=
  forall value keepTtl, effect = .store value keepTtl -> Storable value

theorem Solid.rewrites {entry : Option Entry} (solid : Solid space)
    (rewrites : Rewrites key entry space later)
    (fits : forall found, entry = some found -> Storable found.value) : Solid later := by
  intro probe found there
  by_cases same : probe = key
  · rw [same, rewrites.here] at there
    exact fits found there
  · rw [rewrites.elsewhere probe same] at there
    exact solid probe found there

theorem Solid.always {plan : Option Entry -> Plan α} (solid : Solid space)
    (sound : (plan (space.find key)).effect.Sound) : Solid (replayAlways key plan space) := by
  refine solid.rewrites (replayAlways_rewrites plan) ?_
  generalize (plan (space.find key)).effect = effect at sound
  intro found there
  cases effect with
  | keep => exact solid key found there
  | remove => cases there
  | store value keepTtl =>
      cases there
      exact sound value keepTtl rfl
  | schedule deadline =>
      rcases Option.map_eq_some_iff.mp there with ⟨old, here, rfl⟩
      exact solid key old here

theorem Solid.plan {plan : Option Entry -> Plan (Except ErrorCode α)} (solid : Solid space)
    (sound : (plan (space.find key)).effect.Sound)
    (replayed : replayPlan key plan space = some later) : Solid later := by
  cases result : (plan (space.find key)).result with
  | error code =>
      rw [replayPlan_error result] at replayed
      cases replayed
  | ok value =>
      rw [replayPlan_ok result] at replayed
      cases replayed
      exact solid.always sound

theorem sound_keep : Effect.keep.Sound :=
  nofun

theorem sound_remove : Effect.remove.Sound :=
  nofun

theorem sound_store {value : Stored} {keepTtl : Bool} (storable : Storable value) :
    (Effect.store value keepTtl).Sound := by
  intro other keep stored
  cases stored
  exact storable

theorem sound_increment (found : Option Entry) : (planIncrement key found).effect.Sound := by
  unfold planIncrement
  split
  · exact sound_keep
  · exact sound_store trivial

theorem sound_push (value : Value) (front : Bool) (found : Option Entry) :
    (planPush key value front found).effect.Sound := by
  unfold planPush
  split
  · exact sound_keep
  · split
    · exact sound_keep
    · exact sound_store trivial

theorem sound_pop (front : Bool) (found : Option Entry) :
    (planPop key front found).effect.Sound := by
  unfold planPop
  split
  · exact sound_keep
  · split
    · exact sound_keep
    · simp only
      split
      · exact sound_remove
      · exact sound_store trivial

theorem Solid.fields {fields : FieldMap} (solid : Solid space)
    (isHash : hashOf (space.find key) = .ok fields) : Storable (.hash fields) := by
  cases found : space.find key with
  | none =>
      rw [found] at isHash
      cases isHash
      exact fun field value impossible => by rw [Finmap.lookup_empty] at impossible; cases impossible
  | some entry =>
      have storable := solid key entry found
      rw [found, hashOf] at isHash
      split at isHash
      case h_1 map stored =>
        cases isHash
        rw [stored] at storable
        exact storable
      case h_2 => cases isHash

/-- A field is set only if neither it nor its value is too long. -/
theorem sound_hashAssign (field : Bytes) (value : Value) (solid : Solid space) :
    (planHashAssign key field value (space.find key)).effect.Sound := by
  unfold planHashAssign
  cases isHash : hashOf (space.find key) with
  | error code => exact sound_keep
  | ok fields =>
      simp only
      split
      · exact sound_keep
      case isFalse fits =>
        rw [not_or, Nat.not_lt, Nat.not_lt] at fits
        refine sound_store fun other item there => ?_
        by_cases same : other = field
        · rw [same, Finmap.lookup_insert] at there
          cases there
          rw [same]
          exact fits
        · rw [Finmap.lookup_insert_of_ne _ same] at there
          exact solid.fields isHash other item there

theorem sound_hashDel (field : Bytes) (solid : Solid space) :
    (planHashDel key field (space.find key)).effect.Sound := by
  unfold planHashDel
  cases isHash : hashOf (space.find key) with
  | error code => exact sound_keep
  | ok fields =>
      simp only
      split
      · simp only
        split
        · exact sound_remove
        · refine sound_store fun other item there => ?_
          by_cases same : other = field
          · rw [same, Finmap.lookup_erase] at there
            cases there
          · rw [Finmap.lookup_erase_ne same] at there
            exact solid.fields isHash other item there
      · exact sound_keep

/-- A replay stores storable values. -/
theorem replay_solid {record : Wal.Record} (solid : Solid space)
    (replayed : replay restamp record space = some later) : Solid later := by
  unfold replay at replayed
  split at replayed
  case isFalse => cases replayed
  generalize WalOp.ofCode record.op = op at replayed
  generalize (fun i => record.args.getD i []) = arg at replayed
  unfold applyRecord at replayed
  split at replayed
  · split at replayed
    · cases replayed
    case isFalse small =>
      cases replayed
      exact solid.always (sound_store (Nat.not_lt.mp small))
  · rcases Option.map_eq_some_iff.mp replayed with ⟨n, -, rfl⟩
    exact solid.rewrites (rewrites_put _) fun found there => by cases there; exact trivial
  · exact solid.plan (sound_increment _) replayed
  · rcases Option.bind_eq_some_iff.mp replayed with ⟨value, -, replayed⟩
    exact solid.plan (sound_push value true _) replayed
  · rcases Option.bind_eq_some_iff.mp replayed with ⟨value, -, replayed⟩
    exact solid.plan (sound_push value false _) replayed
  · exact solid.plan (sound_pop true _) replayed
  · exact solid.plan (sound_pop false _) replayed
  · rcases Option.bind_eq_some_iff.mp replayed with ⟨value, -, replayed⟩
    exact solid.plan (sound_hashAssign _ value solid) replayed
  · exact solid.plan (sound_hashDel _ solid) replayed
  · unfold replayExpireAt at replayed
    split at replayed
    · split at replayed
      · cases replayed
      · cases replayed
        refine solid.rewrites rewrites_setDeadline fun found there => ?_
        rcases Option.map_eq_some_iff.mp there with ⟨entry, here, rfl⟩
        exact solid _ entry here
    · cases replayed
  · cases replayed
    refine solid.always ?_
    cases space.find (arg 0) with
    | none => exact sound_keep
    | some entry => exact sound_remove
  · cases replayed

theorem replayAll_solid {records : List Wal.Record} (solid : Solid space)
    (replayed : replayAll restamp records space = some later) : Solid later := by
  induction records generalizing space with
  | nil =>
      cases replayed
      exact solid
  | cons record records ih =>
      rcases Option.bind_eq_some_iff.mp replayed with ⟨middle, first, rest⟩
      exact ih (replay_solid solid first) rest

theorem Mirrors.solid (mirrors : Mirrors live replica) (solid : Solid replica) : Solid live := by
  intro key entry found
  have alike := mirrors key
  rw [found] at alike
  cases other : replica.find key with
  | none => rw [other] at alike; cases alike
  | some copy =>
      rw [other] at alike
      cases alike with
      | some alike =>
          rw [alike.value]
          exact solid key copy other

/-! ## The records of a key -/

theorem foldl_insert (pairs : List (Bytes × Value)) : forall fields : FieldMap,
    Assoc.Distinct pairs -> forall probe,
      (pairs.foldl (fun fields pair => fields.insert pair.1 pair.2) fields).lookup probe =
        (Assoc.find probe pairs).or (fields.lookup probe) := by
  induction pairs with
  | nil => exact fun _ _ _ => rfl
  | cons pair pairs ih =>
      intro fields distinct probe
      have parts := List.nodup_cons.mp distinct
      rw [List.foldl_cons, ih _ parts.2, Assoc.find]
      by_cases same : pair.1 = probe
      · have absent := Assoc.find_eq_none_iff.mpr (same ▸ parts.1)
        rw [if_pos same, absent, same, Finmap.lookup_insert]
        rfl
      · rw [if_neg same, Finmap.lookup_insert_of_ne _ (Ne.symm same)]

/-- A node whose records can be replayed. -/
structure Tellable (db : Db) (addr : Addr) : Prop where
  valid : (db.node addr).Valid
  short : (db.key addr).length ≤ Node.maxKeyLength
  storable : Storable (db.node addr).stored
  flags : db.ttlFlag addr = true <-> db.deadline addr ≠ none

variable {db : Db} {addr : Addr} {steady wall : Int64} {records : List Wal.Record}

/-- The records of a value give the value. -/
theorem replayAll_value (tellable : Tellable db addr)
    (absent : space.find (db.key addr) = none) :
    exists later, replayAll restamp (Database.valueRecords db addr) space = some later ∧
      Rewrites (db.key addr) (some ⟨db.key addr, (db.node addr).stored, none⟩) space later := by
  rcases tellable with ⟨valid, short, storable, -⟩
  unfold Node.Valid at valid
  simp only [Database.valueRecords]
  cases type : (db.node addr).type with
  | string =>
      have stored : (db.node addr).stored = .string (db.node addr).stringValue := by
        rw [Node.stored, type]
      rw [stored] at storable ⊢
      have rewrites := @replayAlways_rewrites _ (db.key addr) space
        (planSet (db.key addr) (db.node addr).stringValue)
      refine ⟨_, ?_, rewrites⟩
      change replayAll restamp [record .set [db.key addr, (db.node addr).stringValue]] space = _
      rw [replayAll_cons, replay_record .set short rfl]
      change (if Database.maxValueLength < (db.node addr).stringValue.length then none
        else some _).bind _ = _
      rw [if_neg (Nat.not_lt.mpr storable)]
      rfl
  | integer =>
      have stored : (db.node addr).stored = .integer (db.node addr).integerValue := by
        rw [Node.stored, type]
      rw [stored]
      refine ⟨_, ?_, @rewrites_put space ⟨db.key addr, .integer (db.node addr).integerValue, none⟩⟩
      change replayAll restamp [record .integerSet [db.key addr,
        decimalInt (db.node addr).integerValue.toInt]] space = _
      rw [replayAll_cons, replay_record .integerSet short rfl]
      change ((parseInt64 (decimalInt (db.node addr).integerValue.toInt)).map _).bind _ = _
      rw [parseInt64_decimalInt]
      rfl
  | list =>
      have stored : (db.node addr).stored = .list (db.node addr).items := by
        rw [Node.stored, type]
      rw [stored] at valid ⊢
      have nobody : listOf (space.find (db.key addr)) = .ok [] := by rw [absent]; rfl
      have small : packedSize [] + packedSize (db.node addr).items ≤ Node.listLimit := by
        have limit := valid.2.limit
        rw [valid.2.used] at limit
        exact (Nat.zero_add _).symm ▸ limit
      rcases @replayAll_pushes (db.key addr) space restamp _ _ false short nobody small valid.1 with
        ⟨later, replayed, rewrites⟩
      rw [absent] at rewrites
      exact ⟨later, replayed, rewrites⟩
  | hash =>
      have stored : (db.node addr).stored = .hash (Assoc.toMap (db.node addr).pairs) := by
        rw [Node.stored, type]
      rw [stored] at valid storable ⊢
      have known : Assoc.Distinct (db.node addr).pairs ∧ (db.node addr).pairs ≠ [] := by
        rcases valid with ⟨promoted, nonempty, -⟩ | ⟨pairs, packed, nonempty, -⟩
        · rw [promoted.pairs_eq]
          exact ⟨promoted.distinct, nonempty⟩
        · rw [packed.pairs_eq]
          exact ⟨packed.distinct, nonempty⟩
      have nobody : hashOf (space.find (db.key addr)) = .ok ∅ := by rw [absent]; rfl
      rcases @replayAll_fields (db.key addr) space restamp _ _ short nobody
        (fun pair inside => storable pair.1 pair.2 (by
          rw [Assoc.lookup_toMap]
          exact Assoc.find_of_mem known.1 inside)) known.2 with ⟨later, replayed, rewrites⟩
      have whole : (db.node addr).pairs.foldl (fun fields pair => fields.insert pair.1 pair.2)
          (∅ : FieldMap) = Assoc.toMap (db.node addr).pairs := by
        apply Finmap.ext_lookup
        intro probe
        rw [foldl_insert _ _ known.1, Finmap.lookup_empty, Option.or_none, Assoc.lookup_toMap]
      rw [absent, whole] at rewrites
      exact ⟨later, replayed, rewrites⟩

/-- The records of a node: its value, and its deadline. -/
theorem replayAll_node (tellable : Tellable db addr) (absent : space.find (db.key addr) = none)
    (told : (Database.valueRecords db addr).map Except.ok ++ Database.stampEntry db steady wall addr =
      records.map Except.ok) (clean : Clean records) :
    exists later entry, replayAll restamp records space = some later ∧
      Alike (db.entry addr) entry ∧ Rewrites (db.key addr) (some entry) space later := by
  rcases @replayAll_value space restamp db addr tellable absent with
    ⟨middle, replayed, rewrites⟩
  unfold Database.stampEntry at told
  by_cases dated : db.ttlFlag addr = true
  · rw [if_pos dated] at told
    simp only at told
    split at told
    · have refused : Except.error (Exn.error .valueNotInteger) ∈ records.map Except.ok :=
        told ▸ List.mem_append_right _ List.mem_cons_self
      rcases List.mem_map.mp refused with ⟨_, -, impossible⟩
      cases impossible
    · have equal : Database.valueRecords db addr ++ [record .expireAt [db.key addr, decimalInt
          (wall + max 0 ((db.deadline addr).getD 0 - steady)).toInt]] = records :=
        List.map_injective_iff.mpr (fun _ _ same => Except.ok.inj same)
          ((List.map_append).trans told)
      rw [<- equal] at clean ⊢
      have positive : ¬ wall + max 0 ((db.deadline addr).getD 0 - steady) < 0 := by
        intro negative
        refine clean _ (List.mem_append_right _ List.mem_cons_self) (Or.inl ⟨rfl, ?_⟩)
        change (parseInt64 (decimalInt _)).any _ = true
        rw [parseInt64_decimalInt]
        exact decide_eq_true negative
      rw [replayAll_append replayed, replayAll_cons, replay_expireAt tellable.short rewrites.here
        positive]
      have last := @rewrites_setDeadline (db.key addr) middle
        (some (restamp (wall + max 0 ((db.deadline addr).getD 0 - steady))))
      rw [rewrites.here] at last
      refine ⟨_, ⟨db.key addr, (db.node addr).stored, some _⟩, rfl, ⟨rfl, rfl, ?_⟩,
        rewrites.trans last⟩
      exact Option.isSome_iff_ne_none.mpr (tellable.flags.mp dated)
  · rw [if_neg dated, List.append_nil] at told
    have equal : Database.valueRecords db addr = records :=
      List.map_injective_iff.mpr (fun _ _ same => Except.ok.inj same) told
    rw [<- equal]
    refine ⟨middle, ⟨db.key addr, (db.node addr).stored, none⟩, replayed, ⟨rfl, rfl, ?_⟩, rewrites⟩
    have undated : db.deadline addr = none := not_not.mp fun known => dated (tellable.flags.mpr known)
    change (db.deadline addr).isSome = false
    rw [undated]
    rfl

/-- The records of nodes with different keys, one node after another. -/
theorem replayAll_nodes (nodes : List Addr) : forall (space : Keyspace) (records : List Wal.Record),
    (forall addr, addr ∈ nodes -> Tellable db addr ∧ space.find (db.key addr) = none) ->
    (nodes.map db.key).Nodup ->
    (nodes.flatMap fun addr => (Database.valueRecords db addr).map Except.ok ++
      Database.stampEntry db steady wall addr) = records.map Except.ok -> Clean records ->
    exists last, replayAll restamp records space = some last ∧ forall probe,
      Option.Rel Alike ((Keyspace.find probe (nodes.map db.entry)).or (space.find probe))
        (last.find probe) := by
  induction nodes with
  | nil =>
      intro space records _ _ told _
      rw [List.map_eq_nil_iff.mp told.symm]
      exact ⟨space, rfl, fun _ => alike_refl _⟩
  | cons addr nodes ih =>
      intro space records known nodup told clean
      rw [List.flatMap_cons] at told
      rcases List.map_eq_append_iff.mp told.symm with ⟨first, rest, rfl, one, more⟩
      have parts := clean_append.mp clean
      have here := known addr List.mem_cons_self
      rw [List.map_cons, List.nodup_cons] at nodup
      rcases @replayAll_node space restamp db addr steady wall first here.1 here.2 one.symm parts.1 with
        ⟨middle, entry, replayed, alike, rewrites⟩
      have others : forall other, other ∈ nodes ->
          Tellable db other ∧ middle.find (db.key other) = none := by
        intro other inside
        have there := known other (List.mem_cons_of_mem _ inside)
        rw [rewrites.elsewhere _ fun same => nodup.1 (same ▸ List.mem_map_of_mem inside)]
        exact there
      rcases ih middle rest others nodup.2 more.symm parts.2 with
        ⟨last, rested, mirrors⟩
      refine ⟨last, (replayAll_append replayed).trans rested, fun probe => ?_⟩
      refine alike_trans ?_ (mirrors probe)
      rw [List.map_cons, show Keyspace.find probe (db.entry addr :: nodes.map db.entry) = _ from
        List.find?_cons]
      by_cases same : db.key addr = probe
      · -- no later node has the key again
        have absent : Keyspace.find probe (nodes.map db.entry) = none := by
          rw [Keyspace.find, List.find?_eq_none]
          intro other inside equal
          rcases List.mem_map.mp inside with ⟨node, listed, rfl⟩
          refine nodup.1 ?_
          rw [same, <- of_decide_eq_true equal]
          exact List.mem_map_of_mem listed
        rw [absent, decide_eq_true (show (db.entry addr).key = probe from same), <- same,
          rewrites.here]
        exact .some alike
      · rw [decide_eq_false (show ¬ (db.entry addr).key = probe from same),
          rewrites.elsewhere _ (Ne.symm same)]
        exact alike_refl _

/-- Replaying a snapshot gives the keyspace. -/
theorem follow_snapshot (rep : db.Rep [] space) (solid : Solid space)
    (told : Database.snapshot db steady wall = records.map Except.ok) (clean : Clean records) :
    Follow restamp records space [] := by
  have distinct := rep.distinct
  rcases rep with ⟨order, consistent, valid, -, rfl⟩
  have tellable : forall addr, addr ∈ order -> Tellable db addr := by
    intro addr inside
    refine ⟨valid addr inside, ?_, ?_, consistent.deadlines.flags addr
      (List.mem_append_left _ inside)⟩
    · exact (consistent.blocks.laid addr (List.mem_append_left _ inside)).key
    · exact solid (db.key addr) (db.entry addr)
        (distinct.find_iff.mpr ⟨List.mem_map_of_mem inside, rfl⟩)
  rw [Database.snapshot, consistent.keyTotal, consistent.recency.backward] at told
  have keys : (order.reverse.map db.key).Nodup := by
    rw [List.map_reverse, List.nodup_reverse]
    unfold Keyspace.Distinct at distinct
    rw [List.map_map] at distinct
    exact distinct
  rcases replayAll_nodes order.reverse [] records
    (fun addr inside => ⟨tellable addr (List.mem_reverse.mp inside), rfl⟩) keys told clean with
    ⟨last, replayed, mirrors⟩
  refine ⟨last, replayed, fun probe => ?_⟩
  have same : Keyspace.find probe (order.reverse.map db.entry) =
      Keyspace.find probe (order.map db.entry) := by
    have turned : Keyspace.Distinct (order.reverse.map db.entry) := by
      unfold Keyspace.Distinct
      rw [List.map_map]
      exact keys
    apply Option.ext
    intro entry
    rw [turned.find_iff, distinct.find_iff, List.map_reverse, List.mem_reverse]
  have mirrored := mirrors probe
  rw [same, show Keyspace.find probe ([] : Keyspace) = none from rfl, Option.or_none] at mirrored
  exact mirrored

end Spec

end Reddish
