import Reddish.Database.FieldBatches

namespace Reddish

open Library Numeral

/-!
# Replicas

A replay of the log builds a second keyspace, the replica.  Whatever an
operation does to the live keyspace, the records it logs do to the replica: the
two have the same keys with the same values, and the same keys have deadlines.
Their order differs, because reading a key moves it without a record, and so do
the deadlines, because a stamp is converted when it is replayed.
-/

namespace Spec

open Database (Form Answer Call Moment)

variable {α : Type} {key probe : Bytes} {space later live replica : Keyspace}
variable {left right : Option Entry} {restamp other : Int64 -> Int64}

/-- A key that is not too long. -/
abbrev Short (key : Bytes) : Prop :=
  key.length ≤ Node.maxKeyLength

/-- Entries of one key with the same value, both of them or none with a
deadline. -/
structure Alike (left right : Entry) : Prop where
  key : left.key = right.key
  value : left.value = right.value
  dated : left.deadline.isSome = right.deadline.isSome

/-- The replica has the keys of the live keyspace, with the same values and with
deadlines at the same keys. -/
def Mirrors (live replica : Keyspace) : Prop :=
  forall key, Option.Rel Alike (live.find key) (replica.find key)

theorem alike_refl (found : Option Entry) : Option.Rel Alike found found := by
  cases found with
  | none => exact .none
  | some entry => exact .some ⟨rfl, rfl, rfl⟩

theorem alike_trans {middle : Option Entry} (one : Option.Rel Alike left middle)
    (two : Option.Rel Alike middle right) : Option.Rel Alike left right := by
  cases one with
  | none => exact two
  | some one =>
      cases two with
      | some two => exact .some ⟨one.key.trans two.key, one.value.trans two.value,
          one.dated.trans two.dated⟩

theorem mirrors_nil : Mirrors [] [] :=
  fun _ => .none

/-! ## What the plans read -/

theorem isSome_alike (alike : Option.Rel Alike left right) : left.isSome = right.isSome := by
  cases alike with
  | none => rfl
  | some _ => rfl

theorem counted_alike (alike : Option.Rel Alike left right) : counted left = counted right := by
  cases alike with
  | none => rfl
  | some alike => rw [counted, counted, alike.value]

theorem listOf_alike (alike : Option.Rel Alike left right) : listOf left = listOf right := by
  cases alike with
  | none => rfl
  | some alike => rw [listOf, listOf, alike.value]

theorem hashOf_alike (alike : Option.Rel Alike left right) : hashOf left = hashOf right := by
  cases alike with
  | none => rfl
  | some alike => rw [hashOf, hashOf, alike.value]

/-- A plan that does not depend on the deadline. -/
def Blind (plan : Option Entry -> Plan α) : Prop :=
  forall left right, Option.Rel Alike left right -> plan left = plan right

theorem blind_increment : Blind (planIncrement key) :=
  fun _ _ alike => by rw [planIncrement, planIncrement, counted_alike alike]

theorem blind_push (value : Value) (front : Bool) : Blind (planPush key value front) :=
  fun _ _ alike => by rw [planPush, planPush, listOf_alike alike]

theorem blind_pushTexts (values : List Bytes) (front : Bool) :
    Blind (planPushTexts key values front) :=
  fun _ _ alike => by rw [planPushTexts, planPushTexts, listOf_alike alike]

theorem blind_pop (front : Bool) : Blind (planPop key front) :=
  fun _ _ alike => by rw [planPop, planPop, listOf_alike alike]

theorem blind_hashAssign (field : Bytes) (value : Value) :
    Blind (planHashAssign key field value) :=
  fun _ _ alike => by rw [planHashAssign, planHashAssign, hashOf_alike alike]

theorem blind_hashSetTexts (texts : List Bytes) : Blind (planHashSetTexts key texts) :=
  fun _ _ alike => by rw [planHashSetTexts, planHashSetTexts, hashOf_alike alike]

theorem blind_hashDel (field : Bytes) : Blind (planHashDel key field) :=
  fun _ _ alike => by rw [planHashDel, planHashDel, hashOf_alike alike]

theorem blind_del : Blind (planDel key) := by
  intro left right alike
  cases alike with
  | none => rfl
  | some _ => rfl

theorem blind_expiring (moment : Moment) (seconds : Int64) :
    Blind (Form.expiring moment key seconds) := by
  intro left right alike
  rw [Form.expiring, Form.expiring, isSome_alike alike]
  cases alike with
  | none => rfl
  | some _ => rfl

/-! ## Changes of one key -/

/-- One key has got the given entry, and nothing else has changed. -/
structure Rewrites (key : Bytes) (entry : Option Entry) (space later : Keyspace) : Prop where
  here : later.find key = entry
  elsewhere : forall probe, probe ≠ key -> later.find probe = space.find probe

theorem Rewrites.trans {first second : Option Entry} {middle : Keyspace}
    (one : Rewrites key first space middle) (two : Rewrites key second middle later) :
    Rewrites key second space later :=
  ⟨two.here, fun probe different => (two.elsewhere probe different).trans
    (one.elsewhere probe different)⟩

theorem Mirrors.rewrites {first second : Option Entry} {liveLater replicaLater : Keyspace}
    (mirrors : Mirrors live replica) (one : Rewrites key first live liveLater)
    (two : Rewrites key second replica replicaLater) (alike : Option.Rel Alike first second) :
    Mirrors liveLater replicaLater := by
  intro probe
  by_cases same : probe = key
  · rw [same, one.here, two.here]
    exact alike
  · rw [one.elsewhere probe same, two.elsewhere probe same]
    exact mirrors probe

theorem rewrites_put (entry : Entry) : Rewrites entry.key (some entry) space (space.put entry) :=
  ⟨by rw [Keyspace.find_put, if_pos rfl], fun _ different => by
    rw [Keyspace.find_put, if_neg different]⟩

theorem rewrites_erase : Rewrites key none space (space.erase key) :=
  ⟨by rw [Keyspace.find_erase, if_pos rfl], fun _ different => by
    rw [Keyspace.find_erase, if_neg different]⟩

theorem rewrites_setDeadline {deadline : Option Int64} :
    Rewrites key ((space.find key).map fun entry => { entry with deadline := deadline }) space
      (space.setDeadline key deadline) := by
  refine ⟨?_, fun probe different => ?_⟩
  · rw [Keyspace.setDeadline, Keyspace.find_modify, if_pos rfl]
    exact fun _ => rfl
  · rw [Keyspace.setDeadline, Keyspace.find_modify, if_neg different]
    exact fun _ => rfl

/-- A plan changes its key alone. -/
theorem rewrites_outcome {time : Option Int64} (plan : Plan α) :
    Rewrites key (plan.effect.entry key (writable time key space).result) space
      (plan.outcome key (writable time key space)).space :=
  ⟨find_apply, fun _ different => find_apply_other different⟩

/-- Looking a key up changes nothing but an expired key. -/
theorem rewrites_writable {time : Option Int64} :
    Rewrites key (writable time key space).result space (writable time key space).space :=
  ⟨find_writable, fun _ different => find_writable_other different⟩

theorem entry_alike (effect : Effect) (alike : Option.Rel Alike left right) :
    Option.Rel Alike (effect.entry key left) (effect.entry key right) := by
  cases effect with
  | keep => exact alike
  | remove => exact .none
  | store value keepTtl =>
      refine .some ⟨rfl, rfl, ?_⟩
      cases keepTtl with
      | false => rfl
      | true =>
          cases alike with
          | none => rfl
          | some alike => exact alike.dated
  | schedule deadline =>
      cases alike with
      | none => exact .none
      | some alike => exact .some ⟨alike.key, alike.value, rfl⟩

/-! ## Replaying on both sides -/

theorem replayAlways_rewrites (plan : Option Entry -> Plan α) :
    Rewrites key ((plan (space.find key)).effect.entry key (space.find key)) space
      (replayAlways key plan space) := by
  have rewrites := @rewrites_outcome α key space none (plan (space.find key))
  rw [result_writable_none] at rewrites
  rw [replayAlways, result_writable_none]
  exact rewrites

theorem replayPlan_ok {plan : Option Entry -> Plan (Except ErrorCode α)} {value : α}
    (ok : (plan (space.find key)).result = .ok value) :
    replayPlan key plan space = some (replayAlways key plan space) := by
  rw [replayPlan, replayAlways, result_writable_none, ok]

theorem replayPlan_error {plan : Option Entry -> Plan (Except ErrorCode α)} {code : ErrorCode}
    (failed : (plan (space.find key)).result = .error code) : replayPlan key plan space = none := by
  rw [replayPlan, result_writable_none, failed]

theorem replayAlways_mirrors {plan : Option Entry -> Plan α} (blind : Blind plan)
    (mirrors : Mirrors live replica) :
    Mirrors (replayAlways key plan live) (replayAlways key plan replica) := by
  refine mirrors.rewrites (replayAlways_rewrites plan) (replayAlways_rewrites plan) ?_
  rw [blind _ _ (mirrors key)]
  exact entry_alike _ (mirrors key)

theorem replayPlan_mirrors {plan : Option Entry -> Plan (Except ErrorCode α)} (blind : Blind plan)
    (mirrors : Mirrors live replica) :
    Option.Rel Mirrors (replayPlan key plan live) (replayPlan key plan replica) := by
  have same := blind _ _ (mirrors key)
  cases result : (plan (live.find key)).result with
  | error code =>
      rw [replayPlan_error result, replayPlan_error (same ▸ result)]
      exact .none
  | ok value =>
      rw [replayPlan_ok result, replayPlan_ok (same ▸ result)]
      exact .some (replayAlways_mirrors blind mirrors)

theorem replayExpireAt_mirrors {stamp : Bytes} (mirrors : Mirrors live replica) :
    Option.Rel Mirrors (replayExpireAt restamp key stamp live)
      (replayExpireAt other key stamp replica) := by
  have here := mirrors key
  have one := @rewrites_setDeadline key live
  have two := @rewrites_setDeadline key replica
  unfold replayExpireAt
  generalize live.find key = first at here one ⊢
  generalize replica.find key = second at here two ⊢
  cases here with
  | none => exact .none
  | some alike =>
      cases parseInt64 stamp with
      | none => exact .none
      | some wall =>
          simp only
          split
          · exact .none
          · exact .some (mirrors.rewrites one two (.some ⟨alike.key, alike.value, rfl⟩))

/-- A value is replayed in the same way on both sides. -/
theorem replayValue_mirrors {kind text : Bytes} {one two : Value -> Option Keyspace}
    (each : forall value, Option.Rel Mirrors (one value) (two value)) :
    Option.Rel Mirrors ((replayValue kind text).bind one) ((replayValue kind text).bind two) := by
  cases replayValue kind text with
  | none => exact .none
  | some value => exact each value

/-- A record is refused by both keyspaces, or does the same to both. -/
theorem replay_mirrors (record : Wal.Record) (mirrors : Mirrors live replica) :
    Option.Rel Mirrors (replay restamp record live) (replay other record replica) := by
  unfold replay
  split
  case isFalse => exact .none
  case isTrue =>
    generalize (fun i => record.args.getD i []) = arg
    cases WalOp.ofCode record.op with
    | none => exact .none
    | some op =>
        cases op with
        | set =>
            simp only [applyRecord]
            split
            · exact .none
            · exact .some (replayAlways_mirrors (fun _ _ _ => rfl) mirrors)
        | integerSet =>
            simp only [applyRecord]
            cases parseInt64 (arg 1) with
            | none => exact .none
            | some n => exact .some (mirrors.rewrites (rewrites_put ⟨arg 0, .integer n, none⟩)
                (rewrites_put ⟨arg 0, .integer n, none⟩) (alike_refl _))
        | increment => exact replayPlan_mirrors blind_increment mirrors
        | pushLeft =>
            exact replayValue_mirrors fun value => replayPlan_mirrors (blind_push value true) mirrors
        | pushRight =>
            exact replayValue_mirrors fun value => replayPlan_mirrors (blind_push value false) mirrors
        | popLeft => exact replayPlan_mirrors (blind_pop true) mirrors
        | popRight => exact replayPlan_mirrors (blind_pop false) mirrors
        | hashSet =>
            exact replayValue_mirrors fun value =>
              replayPlan_mirrors (blind_hashAssign _ value) mirrors
        | hashDel => exact replayPlan_mirrors (blind_hashDel _) mirrors
        | expireAt => exact replayExpireAt_mirrors mirrors
        | del => exact .some (replayAlways_mirrors blind_del mirrors)

/-! ## Replaying many records -/

def replayAll (restamp : Int64 -> Int64) (records : List Wal.Record) (space : Keyspace) :
    Option Keyspace :=
  records.foldlM (fun space record => replay restamp record space) space

theorem replayAll_cons {record : Wal.Record} {records : List Wal.Record} :
    replayAll restamp (record :: records) space =
      (replay restamp record space).bind (replayAll restamp records) :=
  rfl

theorem replayAll_append {first second : List Wal.Record} {middle : Keyspace}
    (begun : replayAll restamp first space = some middle) :
    replayAll restamp (first ++ second) space = replayAll restamp second middle := by
  unfold replayAll at begun ⊢
  rw [List.foldlM_append, begun]
  rfl

/-- A record that an operation may log and that `replay` refuses: a stamp beyond
the range of the clock, or a text that only `hash_set_texts` takes. -/
def Spoiled (record : Wal.Record) : Prop :=
  record.op = WalOp.expireAt.code ∧
      ((parseInt64 (record.args.getD 1 [])).any fun stamp => stamp < 0) = true ∨
    record.op = WalOp.hashSet.code ∧
      Node.fieldLimit < Pack.maxStringHeader + (record.args.getD 3 []).length

instance (record : Wal.Record) : Decidable (Spoiled record) :=
  inferInstanceAs (Decidable (_ ∧ _ ∨ _ ∧ _))

def Clean (records : List Wal.Record) : Prop :=
  forall record, record ∈ records -> ¬ Spoiled record

theorem clean_append {first second : List Wal.Record} :
    Clean (first ++ second) <-> Clean first ∧ Clean second := by
  refine ⟨fun clean => ⟨?_, ?_⟩, ?_⟩
  · exact fun record inside => clean record (List.mem_append_left _ inside)
  · exact fun record inside => clean record (List.mem_append_right _ inside)
  · rintro ⟨left, right⟩ record inside
    rcases List.mem_append.mp inside with early | late
    · exact left record early
    · exact right record late

/-- The records of a plan do to a keyspace what the plan does to its key. -/
def Tells (restamp : Int64 -> Int64) (key : Bytes) (plan : Plan α) (space : Keyspace) : Prop :=
  exists later entry, replayAll restamp plan.records space = some later ∧
    Option.Rel Alike (plan.effect.entry key (space.find key)) entry ∧
    Rewrites key entry space later

theorem tells_answer (result : α) : Tells restamp key (.answer result) space :=
  ⟨space, space.find key, rfl, alike_refl _, rfl, fun _ _ => rfl⟩

/-- A plan that answers without an effect, or succeeds and logs one record. -/
def Logs (record : Wal.Record) (plan : Plan (Except ErrorCode α)) : Prop :=
  (exists result, plan = .answer result) ∨ exists value effect, plan = ⟨.ok value, effect, [record]⟩

/-- A record that is replayed by the code that logged it. -/
theorem tells_again {plan : Option Entry -> Plan (Except ErrorCode α)} {record : Wal.Record}
    (meaning : replay restamp record space = replayPlan key plan space)
    (logs : Logs record (plan (space.find key))) :
      Tells restamp key (plan (space.find key)) space := by
  rcases logs with ⟨result, planned⟩ | ⟨value, effect, planned⟩
  · rw [planned]
    exact tells_answer result
  · refine ⟨replayAlways key plan space, _, ?_, alike_refl _, replayAlways_rewrites plan⟩
    rw [congrArg Plan.records planned, replayAll_cons, meaning,
      replayPlan_ok (congrArg Plan.result planned)]
    rfl

/-! ## The records of the operations -/

theorem replay_record (op : WalOp) {args : List Bytes} (short : Short key)
    (count : args.length + 1 = WalOp.expected (some op)) :
    replay restamp (record op (key :: args)) space =
      applyRecord restamp (some op) (fun i => (key :: args).getD i []) space := by
  have known : WalOp.ofCode (record op (key :: args)).op = some op := WalOp.ofCode_code op
  rw [replay, known, if_pos ⟨count, List.cons_ne_nil _ _, short⟩]
  rfl

theorem replayValue_bind (value : Value) (next : Value -> Option Keyspace) :
    (replayValue (value.logged.getD 0 []) (value.logged.getD 1 [])).bind next = next value := by
  cases value with
  | integer n =>
      change ((parseInt64 (decimalInt n.toInt)).map Value.integer).bind next = _
      rw [parseInt64_decimalInt]
      rfl
  | text bytes => rfl

theorem length_logged (value : Value) : value.logged.length = 2 := by
  cases value with
  | integer n => rfl
  | text bytes => rfl

theorem replay_push (value : Value) (front : Bool) (short : Short key) :
    replay restamp (record (.push front) (key :: value.logged)) space =
      replayPlan key (planPush key value front) space := by
  have counts : value.logged.length + 1 = 3 := by rw [length_logged]
  cases front with
  | true => exact (replay_record .pushLeft short counts).trans (replayValue_bind value _)
  | false => exact (replay_record .pushRight short counts).trans (replayValue_bind value _)

theorem replay_hashSet (field : Bytes) (value : Value) (short : Short key) :
    replay restamp (record .hashSet (key :: field :: value.logged)) space =
      replayPlan key (planHashAssign key field value) space := by
  exact (replay_record .hashSet short (by rw [List.length_cons, length_logged]; rfl)).trans
    (replayValue_bind value _)

theorem replay_del (short : Short key) :
    replay restamp (record .del [key]) space = some (replayAlways key (planDel key) space) := by
  rw [replay_record .del short rfl]
  rfl

theorem replay_expireAt {stamp : Int64} {entry : Entry} (short : Short key)
    (found : space.find key = some entry) (positive : ¬ stamp < 0) :
    replay restamp (record .expireAt [key, decimalInt stamp.toInt]) space =
      some (space.setDeadline key (some (restamp stamp))) := by
  rw [replay_record .expireAt short rfl]
  change replayExpireAt restamp key (decimalInt stamp.toInt) space = _
  unfold replayExpireAt
  rw [found, parseInt64_decimalInt]
  exact if_neg positive

theorem replay_deletion (short : Short key) :
    exists later, replay restamp (record .del [key]) space = some later ∧
      Rewrites key none space later := by
  have rewrites := @replayAlways_rewrites _ key space (planDel key)
  refine ⟨_, replay_del short, ?_⟩
  cases found : space.find key with
  | none | some => rwa [found] at rewrites

theorem tells_set {val : Bytes} (short : Short key)
    (small : val.length ≤ Database.maxValueLength) :
    Tells restamp key (planSet key val (space.find key)) space := by
  refine ⟨replayAlways key (planSet key val) space, _, ?_, alike_refl _, replayAlways_rewrites _⟩
  change replayAll restamp [record .set [key, val]] space = _
  rw [replayAll_cons, replay_record .set short rfl]
  change (if Database.maxValueLength < val.length then none else _ : Option Keyspace).bind _ = _
  rw [if_neg (Nat.not_lt.mpr small)]
  rfl

theorem tells_increment (short : Short key) :
    Tells restamp key (planIncrement key (space.find key)) space := by
  have meaning : replay restamp (record .increment [key]) space =
      replayPlan key (planIncrement key) space := replay_record .increment short rfl
  refine tells_again meaning ?_
  unfold planIncrement
  split
  · exact Or.inl ⟨_, rfl⟩
  · exact Or.inr ⟨_, _, rfl⟩

theorem logs_push {value : Value} {front : Bool} {found : Option Entry} :
    Logs (record (.push front) (key :: value.logged)) (planPush key value front found) := by
  unfold planPush
  split
  · exact Or.inl ⟨_, rfl⟩
  · split
    · exact Or.inl ⟨_, rfl⟩
    · exact Or.inr ⟨_, _, rfl⟩

theorem tells_push (value : Value) (front : Bool) (short : Short key) :
    Tells restamp key (planPush key value front (space.find key)) space :=
  tells_again (replay_push value front short) logs_push

theorem tells_pop (front : Bool) (short : Short key) :
    Tells restamp key (planPop key front (space.find key)) space := by
  have meaning : replay restamp (record (.pop front) [key]) space =
      replayPlan key (planPop key front) space := by
    cases front with
    | true => exact replay_record .popLeft short rfl
    | false => exact replay_record .popRight short rfl
  refine tells_again meaning ?_
  unfold planPop
  split
  · exact Or.inl ⟨_, rfl⟩
  · split
    · exact Or.inl ⟨_, rfl⟩
    · exact Or.inr ⟨_, _, rfl⟩

theorem logs_hashAssign {field : Bytes} {value : Value} {found : Option Entry} :
    Logs (record .hashSet (key :: field :: value.logged)) (planHashAssign key field value found) := by
  unfold planHashAssign
  split
  · exact Or.inl ⟨_, rfl⟩
  · split
    · exact Or.inl ⟨_, rfl⟩
    · exact Or.inr ⟨_, _, rfl⟩

theorem tells_hashAssign (field : Bytes) (value : Value) (short : Short key) :
    Tells restamp key (planHashAssign key field value (space.find key)) space :=
  tells_again (replay_hashSet field value short) logs_hashAssign

theorem tells_hashDel (field : Bytes) (short : Short key) :
    Tells restamp key (planHashDel key field (space.find key)) space := by
  have meaning : replay restamp (record .hashDel [key, field]) space =
      replayPlan key (planHashDel key field) space := replay_record .hashDel short rfl
  refine tells_again meaning ?_
  unfold planHashDel
  split
  · exact Or.inl ⟨_, rfl⟩
  · split
    · exact Or.inr ⟨_, _, rfl⟩
    · exact Or.inl ⟨_, rfl⟩

theorem tells_del (short : Short key) :
    Tells restamp key (planDel key (space.find key)) space := by
  cases found : space.find key with
  | none => exact tells_answer _
  | some entry =>
      rcases @replay_deletion key space restamp short with ⟨later, replayed, rewrites⟩
      refine ⟨later, none, ?_, .none, rewrites⟩
      change replayAll restamp [record .del [key]] space = _
      rw [replayAll_cons, replayed]
      rfl

theorem tells_expiring (moment : Moment) (seconds : Int64) (short : Short key)
    (clean : Clean (Form.expiring moment key seconds (space.find key)).records) :
    Tells restamp key (Form.expiring moment key seconds (space.find key)) space := by
  unfold Form.expiring at clean ⊢
  split
  · exact tells_answer _
  case isFalse fine =>
    rw [if_neg fine] at clean
    cases found : space.find key with
    | none => exact tells_answer _
    | some entry =>
        rw [found] at clean
        by_cases past : seconds ≤ 0
        · have removed := @tells_del key space restamp short
          rw [found] at removed
          simp only [planExpire, if_pos past]
          exact removed
        · simp only [planExpire, if_neg past, Plan.map] at clean ⊢
          have positive : ¬ moment.stamp + seconds * 1000 < 0 := by
            intro negative
            refine clean _ (List.mem_singleton_self _) (Or.inl ⟨rfl, ?_⟩)
            change (parseInt64 (decimalInt (moment.stamp + seconds * 1000).toInt)).any _ = true
            rw [parseInt64_decimalInt]
            exact decide_eq_true negative
          have rewrites := @rewrites_setDeadline key space
            (some (restamp (moment.stamp + seconds * 1000)))
          rw [found] at rewrites
          refine ⟨_, _, ?_, ?_, rewrites⟩
          · rw [replayAll_cons, replay_expireAt short found positive]
            rfl
          · rw [found]
            exact .some ⟨rfl, rfl, rfl⟩

/-! ## Records of many elements -/

/-- Records that each add an element to the collection at a key.  `Fits` says
that the rest of the elements has room. -/
theorem replayAll_fold {σ ι : Type} (read : Option Entry -> Except ErrorCode σ)
    (wrap : σ -> Stored) (next : σ -> ι -> σ) (tell : ι -> Wal.Record) (Fits : σ -> List ι -> Prop)
    (reads : forall state deadline, read (some ⟨key, wrap state, deadline⟩) = .ok state)
    (step : forall state item rest space, read (space.find key) = .ok state ->
      Fits state (item :: rest) -> Fits (next state item) rest ∧
      exists later, replay restamp (tell item) space = some later ∧
        Rewrites key (some ⟨key, wrap (next state item), (space.find key).bind Entry.deadline⟩)
          space later) (items : List ι) :
    forall state space, read (space.find key) = .ok state -> Fits state items -> items ≠ [] ->
      exists later, replayAll restamp (items.map tell) space = some later ∧
        Rewrites key (some ⟨key, wrap (items.foldl next state),
          (space.find key).bind Entry.deadline⟩) space later := by
  induction items with
  | nil => exact fun _ _ _ _ nonempty => absurd rfl nonempty
  | cons item rest ih =>
      intro state space holds fits _
      rcases step state item rest space holds fits with ⟨fits, middle, replayed, one⟩
      rw [List.map_cons, replayAll_cons, replayed, Option.bind_some, List.foldl_cons]
      cases rest with
      | nil => exact ⟨middle, rfl, one⟩
      | cons second others =>
          have found : read (middle.find key) = .ok (next state item) := by
            rw [one.here]
            exact reads _ _
          rcases ih _ middle found fits (List.cons_ne_nil _ _) with
            ⟨later, replayed, two⟩
          rw [one.here] at two
          exact ⟨later, replayed, one.trans two⟩

theorem replay_push_fits {items : List Value} (value : Value) (front : Bool) (short : Short key)
    (found : listOf (space.find key) = .ok items)
    (fits : packedSize items + packedSize [value] ≤ Node.listLimit) :
    exists later, replay restamp (record (.push front) (key :: value.logged)) space = some later ∧
      Rewrites key (some ⟨key, .list (extend front [value] items),
        (space.find key).bind Entry.deadline⟩) space later := by
  rw [packedSize_single] at fits
  have planned : planPush key value front (space.find key) =
      ⟨.ok (items.length + 1), .store (.list (extend front [value] items)) true,
        [record (.push front) (key :: value.logged)]⟩ := by
    rw [planPush, found]
    exact if_neg (Nat.not_lt.mpr fits)
  have rewrites := @replayAlways_rewrites _ key space (planPush key value front)
  rw [planned] at rewrites
  refine ⟨_, ?_, rewrites⟩
  rw [replay_push value front short, replayPlan_ok (congrArg Plan.result planned)]

theorem replay_hashSet_fits {fields : FieldMap} (field : Bytes) (value : Value)
    (short : Short key) (found : hashOf (space.find key) = .ok fields)
    (fits : field.length ≤ Node.fieldLimit ∧ Pack.bodySize value ≤ Node.fieldLimit) :
    exists later, replay restamp (record .hashSet (key :: field :: value.logged)) space =
        some later ∧
      Rewrites key (some ⟨key, .hash (fields.insert field value),
        (space.find key).bind Entry.deadline⟩) space later := by
  have planned : planHashAssign key field value (space.find key) =
      ⟨.ok (if (fields.lookup field).isSome then 0 else 1),
        .store (.hash (fields.insert field value)) true,
        [record .hashSet (key :: field :: value.logged)]⟩ := by
    rw [planHashAssign, found]
    exact if_neg (not_or.mpr ⟨Nat.not_lt.mpr fits.1, Nat.not_lt.mpr fits.2⟩)
  have rewrites := @replayAlways_rewrites _ key space (planHashAssign key field value)
  rw [planned] at rewrites
  refine ⟨_, ?_, rewrites⟩
  rw [replay_hashSet field value short, replayPlan_ok (congrArg Plan.result planned)]

theorem foldl_extend (front : Bool) (values : List Value) : forall items : List Value,
    values.foldl (fun items value => extend front [value] items) items =
      extend front values items := by
  induction values with
  | nil =>
      intro items
      cases front with
      | true => rfl
      | false => exact (List.append_nil items).symm
  | cons value values ih =>
      intro items
      rw [List.foldl_cons, ih, extend_extend]
      rfl

theorem replayAll_pushes {items : List Value} (values : List Value) (front : Bool)
    (short : Short key) (found : listOf (space.find key) = .ok items)
    (fits : packedSize items + packedSize values ≤ Node.listLimit) (nonempty : values ≠ []) :
    exists later, replayAll restamp
        (values.map fun value => record (.push front) (key :: value.logged)) space = some later ∧
      Rewrites key (some ⟨key, .list (extend front values items),
        (space.find key).bind Entry.deadline⟩) space later := by
  rw [<- foldl_extend]
  refine replayAll_fold listOf Stored.list _ _
    (fun items values => packedSize items + packedSize values ≤ Node.listLimit)
    (fun _ _ => rfl) ?_ values items space found fits nonempty
  intro items value rest space found fits
  rw [packedSize_cons] at fits
  refine ⟨?_, replay_push_fits value front short found (by omega)⟩
  rw [packedSize_extend]
  omega

theorem replayAll_fields {fields : FieldMap} (pairs : List (Bytes × Value))
    (short : Short key) (found : hashOf (space.find key) = .ok fields)
    (fits : forall pair, pair ∈ pairs -> pair.1.length ≤ Node.fieldLimit ∧
      Pack.bodySize pair.2 ≤ Node.fieldLimit) (nonempty : pairs ≠ []) :
    exists later, replayAll restamp
        (pairs.map fun pair => record .hashSet (key :: pair.1 :: pair.2.logged)) space =
        some later ∧
      Rewrites key (some ⟨key, .hash (pairs.foldl (fun fields pair =>
        fields.insert pair.1 pair.2) fields), (space.find key).bind Entry.deadline⟩)
        space later := by
  refine replayAll_fold hashOf Stored.hash _ _
    (fun _ pairs => forall pair, pair ∈ pairs -> pair.1.length ≤ Node.fieldLimit ∧
      Pack.bodySize pair.2 ≤ Node.fieldLimit)
    (fun _ _ => rfl) ?_ pairs fields space found fits nonempty
  intro fields pair rest space found fits
  exact ⟨fun other inside => fits other (List.mem_cons_of_mem _ inside),
    replay_hashSet_fits pair.1 pair.2 short found (fits pair List.mem_cons_self)⟩

theorem tells_pushTexts (values : List Bytes) (front : Bool) (short : Short key) :
    Tells restamp key (planPushTexts key values front (space.find key)) space := by
  cases found : listOf (space.find key) with
  | error code =>
      rw [planPushTexts, found]
      exact tells_answer _
  | ok items =>
      rw [planPushTexts, found]
      simp only
      by_cases empty : values = []
      · rw [if_pos empty]
        exact tells_answer _
      by_cases full : (Node.encodeItems items).length +
          (Node.encodeItems (values.map Value.text)).length > Node.listLimit
      · rw [if_neg empty, if_pos full]
        exact tells_answer _
      · rw [if_neg empty, if_neg full]
        have texts : values.map (fun value => record (.push front) [key, ascii "s", value]) =
            (values.map Value.text).map fun value =>
              record (.push front) (key :: value.logged) := by
          rw [List.map_map]
          rfl
        rcases @replayAll_pushes key space restamp items (values.map Value.text) front short found
          (Nat.not_lt.mp full) (fun none => empty (List.map_eq_nil_iff.mp none)) with
          ⟨later, replayed, rewrites⟩
        refine ⟨later, _, ?_, alike_refl _, rewrites⟩
        rw [texts]
        exact replayed

theorem tells_hashSetTexts (texts : List Bytes) (short : Short key)
    (even : texts.length % 2 = 0)
    (clean : Clean (planHashSetTexts key texts (space.find key)).records) :
    Tells restamp key (planHashSetTexts key texts (space.find key)) space := by
  cases found : hashOf (space.find key) with
  | error code =>
      rw [planHashSetTexts, found]
      exact tells_answer _
  | ok fields =>
      rw [planHashSetTexts, found] at clean ⊢
      simp only at clean ⊢
      by_cases empty : texts = []
      · rw [if_pos empty]
        exact tells_answer _
      by_cases long : (Database.textPairs texts).any tooLong = true
      · rw [if_neg empty, if_pos long]
        exact tells_answer _
      · rw [if_neg empty, if_neg long] at clean ⊢
        have lengths := any_tooLong.mp (Bool.eq_false_iff.mpr long)
        have told : (Database.textPairs texts).map (fun pair =>
            record .hashSet [key, pair.1, ascii "s", pair.2]) =
            ((Database.textPairs texts).map fun pair => (pair.1, Value.text pair.2)).map fun pair =>
              record .hashSet (key :: pair.1 :: pair.2.logged) := by
          rw [List.map_map]
          rfl
        have merged : insertTexts fields (Database.textPairs texts) =
            ((Database.textPairs texts).map fun pair => (pair.1, Value.text pair.2)).foldl
              (fun fields pair => fields.insert pair.1 pair.2) fields := by
          rw [List.foldl_map]
          rfl
        have fits : forall pair : Bytes × Value, pair ∈ (Database.textPairs texts).map
            (fun pair => (pair.1, Value.text pair.2)) -> pair.1.length ≤ Node.fieldLimit ∧
            Pack.bodySize pair.2 ≤ Node.fieldLimit := by
          intro pair inside
          rcases List.mem_map.mp inside with ⟨texts, member, rfl⟩
          refine ⟨(lengths texts member).1, bodySize_fits.mpr (Nat.not_lt.mp fun large => ?_)⟩
          exact clean _ (List.mem_map_of_mem member) (Or.inr ⟨rfl, large⟩)
        rcases @replayAll_fields key space restamp fields _ short found fits
          (fun none => Database.textPairs_ne_nil even empty (List.map_eq_nil_iff.mp none)) with
          ⟨later, replayed, rewrites⟩
        refine ⟨later, _, ?_, alike_refl _, ?_⟩
        · rw [told]
          exact replayed
        · rw [merged]
          exact rewrites

/-! ## What is logged for the live keyspace -/

/-- The records of a form retell what the form does. -/
def Retold : Form -> Prop
  | .writes key plan _ => Short key ∧ Blind plan ∧
      forall restamp space, Clean (plan (space.find key)).records ->
        Tells restamp key (plan (space.find key)) space
  | _ => True

theorem retold_writing (wrap : α -> Answer) {plan : Option Entry -> Plan α} (tooLarge : Bool)
    (blind : Blind plan)
    (tells : Short key -> forall restamp space,
      Clean (plan (space.find key)).records -> Tells restamp key (plan (space.find key)) space) :
    Retold (Form.writing wrap key plan tooLarge) := by
  unfold Form.writing
  split
  · exact trivial
  case isFalse long =>
    refine ⟨Nat.not_lt.mp long, fun left right alike => ?_, fun restamp space clean => ?_⟩
    · simp only [blind left right alike]
    · exact tells (Nat.not_lt.mp long) restamp space clean

theorem retold {call : Call} {moment : Moment} {form : Form}
    (formed : call.form moment = some form) : Retold form := by
  cases call <;> first
    | cases formed
      done
    | cases Option.some.inj formed
      first | exact trivial | skip
  case set key val =>
    split
    · exact trivial
    case isFalse small =>
      exact retold_writing _ _ (fun _ _ _ => rfl) fun short _ _ _ =>
        tells_set short (Nat.not_lt.mp small)
  case increment key =>
    exact retold_writing _ _ blind_increment fun short _ _ _ => tells_increment short
  case pushLeft key value =>
    exact retold_writing _ _ (blind_push _ _) fun short _ _ _ => tells_push _ _ short
  case pushRight key value =>
    exact retold_writing _ _ (blind_push _ _) fun short _ _ _ => tells_push _ _ short
  case pushTexts key values front =>
    exact retold_writing _ _ (blind_pushTexts _ _) fun short _ _ _ => tells_pushTexts _ _ short
  case popLeft key =>
    exact retold_writing _ _ (blind_pop _) fun short _ _ _ => tells_pop _ short
  case popRight key =>
    exact retold_writing _ _ (blind_pop _) fun short _ _ _ => tells_pop _ short
  case hashSet key field value =>
    exact retold_writing _ _ (blind_hashAssign _ _) fun short _ _ _ => tells_hashAssign _ _ short
  case hashSetTexts key fields =>
    split
    · exact trivial
    case isFalse even =>
      exact retold_writing _ _ (blind_hashSetTexts _) fun short _ _ clean =>
        tells_hashSetTexts _ short (Decidable.not_not.mp even) clean
  case hashDel key field =>
    exact retold_writing _ _ (blind_hashDel _) fun short _ _ _ => tells_hashDel _ short
  case expire key seconds =>
    split
    · exact trivial
    case isFalse long =>
      exact ⟨Nat.not_lt.mp long, blind_expiring _ _, fun _ _ clean =>
        tells_expiring _ _ (Nat.not_lt.mp long) clean⟩
  case del key => exact retold_writing _ _ blind_del fun short _ _ _ => tells_del short

/-- The records take the replica along with the live keyspace: they can be
replayed, and the result mirrors what the live keyspace has become. -/
def Follow (restamp : Int64 -> Int64) (records : List Wal.Record) (later replica : Keyspace) :
    Prop :=
  exists last, replayAll restamp records replica = some last ∧ Mirrors later last

theorem Mirrors.follow (mirrors : Mirrors live replica) : Follow restamp [] live replica :=
  ⟨replica, rfl, mirrors⟩

/-- The lookup of a key that has expired. -/
theorem follow_writable {time : Option Int64} (mirrors : Mirrors live replica)
    (short : Short key) :
    Follow restamp (writable time key live).records (writable time key live).space replica := by
  have looked := @rewrites_writable key live time
  unfold writable at looked ⊢
  cases found : live.find key with
  | none => exact mirrors.follow
  | some entry =>
      rw [found] at looked
      by_cases gone : expired time entry = true
      · simp only [gone, if_true] at looked ⊢
        rcases @replay_deletion key replica restamp short with ⟨last, replayed, rewrites⟩
        refine ⟨last, ?_, mirrors.rewrites looked rewrites .none⟩
        rw [replayAll_cons, replayed]
        rfl
      · simp only [gone, Bool.false_eq_true, if_false] at looked ⊢
        refine ⟨replica, rfl, fun probe => ?_⟩
        rw [Keyspace.find_touch]
        exact mirrors probe

/-- What a form does to the live keyspace, its records do to the replica. -/
theorem follow_perform {now : Int64} {form : Form} (retold : Retold form)
    (mirrors : Mirrors live replica) (clean : Clean (perform false now live form).records) :
    Follow restamp (perform false now live form).records (perform false now live form).space
      replica := by
  cases form with
  | answers result => exact mirrors.follow
  | reads key answer =>
      refine ⟨replica, rfl, fun probe => ?_⟩
      have same : (active (some now) key live).space.find probe = live.find probe := by
        unfold active
        cases live.find key with
        | none => rfl
        | some entry =>
            simp only
            split
            · rfl
            · exact Keyspace.find_touch
      simp only [perform]
      rw [same]
      exact mirrors probe
  | writes key plan tooLarge =>
      rcases retold with ⟨short, blind, tells⟩
      have followed : perform false now live (.writes key plan tooLarge) =
          (plan (writable (some now) key live).result).outcome key
            (writable (some now) key live) := by
        simp only [perform, Bool.false_eq_true, false_and, if_false]
      rw [followed] at clean ⊢
      rcases @follow_writable key live replica restamp (some now) mirrors short with
        ⟨middle, replayed, looked⟩
      have found : Option.Rel Alike (writable (some now) key live).result (middle.find key) := by
        have there := looked key
        rw [find_writable] at there
        exact there
      have same := blind _ _ found
      have parts := clean_append.mp clean
      rcases tells restamp middle (same ▸ parts.2) with ⟨last, entry, told, alike, rewrites⟩
      refine ⟨last, ?_, ?_⟩
      · rw [Plan.outcome, replayAll_append replayed, same]
        exact told
      · have outcome := @rewrites_outcome _ key live (some now)
          (plan (writable (some now) key live).result)
        intro probe
        by_cases equal : probe = key
        · rw [equal, outcome.here, rewrites.here]
          rw [<- same] at alike
          exact alike_trans (entry_alike _ found) alike
        · rw [outcome.elsewhere probe equal, rewrites.elsewhere probe equal,
            <- find_writable_other equal]
          exact looked probe

/-! ## Removals -/

/-- The records of removed keys remove them from the replica. -/
theorem follow_erase {more : List Wal.Record} (mirrors : Mirrors live replica)
    (short : Short key)
    (rest : forall middle, Mirrors (live.erase key) middle -> Follow restamp more later middle) :
    Follow restamp (record .del [key] :: more) later replica := by
  rcases @replay_deletion key replica restamp short with ⟨middle, replayed, rewrites⟩
  rcases rest middle (mirrors.rewrites rewrites_erase rewrites .none) with ⟨last, told, same⟩
  refine ⟨last, ?_, same⟩
  rw [replayAll_cons, replayed]
  exact told

theorem follow_reaps {now : Int64} {limit : Nat} {keys : List Bytes}
    (reaps : Reaps now limit live keys later)
    (short : forall entry, entry ∈ live -> Short entry.key) :
    forall replica, Mirrors live replica -> Follow restamp (deletions keys) later replica := by
  induction reaps with
  | full | done => exact fun _ mirrors => mirrors.follow
  | @next limit space rest keys key entry moment found deadline due earliest more
      ih =>
      intro replica mirrors
      have known := short entry (List.mem_of_find?_eq_some found)
      rw [Keyspace.key_of_find found] at known
      refine follow_erase mirrors known fun middle same => ?_
      exact ih (fun other inside => short other (List.mem_of_mem_filter inside))
        middle same

theorem follow_evict (target : Nat) (limit : Nat) : forall live replica : Keyspace,
    live.Distinct -> (forall entry, entry ∈ live -> Short entry.key) ->
    Mirrors live replica ->
    Follow restamp (evict target limit live).records (evict target limit live).space replica := by
  induction limit with
  | zero => exact fun _ _ _ _ mirrors => mirrors.follow
  | succ limit ih =>
      intro live replica distinct short mirrors
      unfold evict
      split
      · exact mirrors.follow
      cases last : live.getLast? with
      | none => exact mirrors.follow
      | some oldest =>
          simp only
          rcases List.getLast?_eq_some_iff.mp last with ⟨front, rfl⟩
          rw [List.dropLast_concat]
          unfold Keyspace.Distinct at distinct
          rw [List.map_append, List.nodup_append] at distinct
          have whole : Keyspace.erase oldest.key (front ++ [oldest]) = front := by
            unfold Keyspace.erase
            rw [List.filter_append, List.filter_cons_of_neg (by simp), List.filter_nil,
              List.append_nil, List.filter_eq_self]
            intro entry inside
            exact decide_eq_true (distinct.2.2 _ (List.mem_map_of_mem inside) _ (by simp))
          refine follow_erase mirrors (short oldest (by simp)) fun middle same => ?_
          rw [whole] at same
          exact ih front middle distinct.1
            (fun entry inside => short entry (List.mem_append_left _ inside)) same

end Spec

end Reddish
