import Reddish.Database.Healthy
import Reddish.Database.Runs

namespace Reddish

open Library Numeral

/-!
# Operations as plans

Every operation that writes looks its key up first.  What it does afterwards
depends on the entry it found and on nothing else in the keyspace: it has a
plan for each entry, made of a result, an effect on the key and the records to
be logged.  Statements about all operations are proved about plans.
-/

namespace Spec

/-- What an operation does with the key it looked up.  A value that is stored
keeps the deadline of the key, or drops it. -/
inductive Effect where
  | keep
  | remove
  | store (value : Stored) (keepTtl : Bool)
  | schedule (deadline : Int64)

/-- The keyspace after an effect, from the one after the lookup. -/
def Effect.apply (key : Bytes) (start : Outcome (Option Entry)) : Effect -> Keyspace
  | keep => start.space
  | remove => start.space.erase key
  | store value keepTtl => Spec.store start key value keepTtl
  | schedule deadline => start.space.setDeadline key (some deadline)

/-- The answer to an entry, with its effect and its records.  An operation looks its
key up and carries out the plan for what it found. -/
structure Plan (α : Type) where
  result : α
  effect : Effect
  records : List Wal.Record

namespace Plan

variable {α β : Type}

def answer (result : α) : Plan α :=
  ⟨result, .keep, []⟩

def outcome (key : Bytes) (start : Outcome (Option Entry)) (plan : Plan α) : Outcome α :=
  ⟨plan.result, plan.effect.apply key start, start.records ++ plan.records⟩

/-- The same plan with another kind of result. -/
def map (change : α -> β) (plan : Plan α) : Plan β :=
  ⟨change plan.result, plan.effect, plan.records⟩

theorem outcome_answer {key : Bytes} {start : Outcome (Option Entry)} (result : α) :
    (answer result).outcome key start = ⟨result, start.space, start.records⟩ := by
  rw [outcome, answer, List.append_nil]
  rfl

end Plan

/-! ## The plans of the operations -/

def planSet (key val : Bytes) : Option Entry -> Plan Unit :=
  fun _ => ⟨(), .store (.string val) false, [record .set [key, val]]⟩

/-- The integer that `increment` finds; a missing key counts as zero. -/
def counted : Option Entry -> Except ErrorCode Int64
  | none => .ok 0
  | some entry => asInteger entry.value

def planIncrement (key : Bytes) (found : Option Entry) : Plan (Except ErrorCode Int64) :=
  match counted found with
  | .error code => .answer (.error code)
  | .ok n => ⟨.ok (n + 1), .store (.integer (n + 1)) true, [record .increment [key]]⟩

/-- The plan of `list_push`. -/
def planPush (key : Bytes) (value : Value) (front : Bool) (found : Option Entry) :
    Plan (Except ErrorCode Nat) :=
  match listOf found with
  | .error code => .answer (.error code)
  | .ok items =>
      if (Node.encodeItems items).length + Pack.encodedSize value > Node.listLimit then
        .answer (.error .requestTooLarge)
      else
        ⟨.ok (items.length + 1), .store (.list (extend front [value] items)) true,
          [record (.push front) (key :: value.logged)]⟩

def planPushTexts (key : Bytes) (values : List Bytes) (front : Bool) (found : Option Entry) :
    Plan (Except ErrorCode Nat) :=
  match listOf found with
  | .error code => .answer (.error code)
  | .ok items =>
      if values = [] then .answer (.ok items.length)
      else if (Node.encodeItems items).length +
          (Node.encodeItems (values.map Value.text)).length > Node.listLimit then
        .answer (.error .requestTooLarge)
      else
        ⟨.ok (items.length + values.length),
          .store (.list (extend front (values.map Value.text) items)) true,
          values.map fun value => record (.push front) [key, ascii "s", value]⟩

/-- The plan of `list_pop`. -/
def planPop (key : Bytes) (front : Bool) (found : Option Entry) :
    Plan (Except ErrorCode (Option Value)) :=
  match listOf found with
  | .error code => .answer (.error code)
  | .ok items =>
      match takeEnd front items with
      | none => .answer (.ok none)
      | some (value, rest) =>
          ⟨.ok (some value), if rest = [] then .remove else .store (.list rest) true,
            [record (.pop front) [key]]⟩

def planHashAssign (key field : Bytes) (value : Value) (found : Option Entry) :
    Plan (Except ErrorCode Nat) :=
  match hashOf found with
  | .error code => .answer (.error code)
  | .ok fields =>
      if field.length > Node.fieldLimit ∨ Pack.bodySize value > Node.fieldLimit then
        .answer (.error .requestTooLarge)
      else
        ⟨.ok (if (fields.lookup field).isSome then 0 else 1),
          .store (.hash (fields.insert field value)) true,
          [record .hashSet (key :: field :: value.logged)]⟩

/-- The plan of `hash_set_texts`, for an even number of texts. -/
def planHashSetTexts (key : Bytes) (texts : List Bytes) (found : Option Entry) :
    Plan (Except ErrorCode Nat) :=
  let pairs := Database.textPairs texts
  match hashOf found with
  | .error code => .answer (.error code)
  | .ok fields =>
      if texts = [] then .answer (.ok 0)
      else if pairs.any tooLong then .answer (.error .requestTooLarge)
      else
        ⟨.ok ((insertTexts fields pairs).keys.card - fields.keys.card),
          .store (.hash (insertTexts fields pairs)) true,
          pairs.map fun pair => record .hashSet [key, pair.1, ascii "s", pair.2]⟩

def planHashDel (key field : Bytes) (found : Option Entry) : Plan (Except ErrorCode Bool) :=
  match hashOf found with
  | .error code => .answer (.error code)
  | .ok fields =>
      if (fields.lookup field).isSome then
        ⟨.ok true,
          if (fields.erase field).keys = ∅ then .remove else .store (.hash (fields.erase field)) true,
          [record .hashDel [key, field]]⟩
      else .answer (.ok false)

def planDel (key : Bytes) : Option Entry -> Plan Bool
  | none => .answer false
  | some _ => ⟨true, .remove, [record .del [key]]⟩

/-- The plan of `expire` at a moment of the two clocks. -/
def planExpire (key : Bytes) (seconds now wall : Int64) : Option Entry -> Plan Bool
  | none => .answer false
  | some _ =>
      if seconds ≤ 0 then ⟨true, .remove, [record .del [key]]⟩
      else ⟨true, .schedule (now + seconds * 1000),
        [record .expireAt [key, decimalInt (wall + seconds * 1000).toInt]]⟩

/-- The answer of `get`. -/
def text : Option Entry -> Except ErrorCode (Option Bytes)
  | none => .ok none
  | some entry =>
      match entry.value with
      | .string bytes => .ok (some bytes)
      | .integer n => .ok (some (decimalInt n.toInt))
      | _ => .error .wrongType

/-- A specification that looks its key up and follows a plan.  What is proved
about plans holds of every operation of this shape. -/
def Follows {α : Type} (key : Bytes) (spec : Option Int64 -> Keyspace -> Outcome α)
    (plan : Option Entry -> Plan α) : Prop :=
  forall time space, spec time space =
    (plan (writable time key space).result).outcome key (writable time key space)

variable {key : Bytes}

theorem follows_set (val : Bytes) : Follows key (set key val) (planSet key val) :=
  fun _ _ => rfl

theorem follows_increment : Follows key (increment key) (planIncrement key) := by
  intro time space
  unfold increment planIncrement
  simp only
  cases (writable time key space).result with
  | none => rfl
  | some entry =>
      simp only [counted]
      cases asInteger entry.value with
      | error code => exact (Plan.outcome_answer _).symm
      | ok n => rfl

theorem follows_listPush (value : Value) (front : Bool) :
    Follows key (listPush key value front) (planPush key value front) := by
  intro time space
  unfold listPush planPush
  simp only
  cases listOf (writable time key space).result with
  | error code => exact (Plan.outcome_answer _).symm
  | ok items =>
      simp only
      split
      · exact (Plan.outcome_answer _).symm
      · rfl

theorem follows_pushTexts (values : List Bytes) (front : Bool) :
    Follows key (pushTexts key values front) (planPushTexts key values front) := by
  intro time space
  unfold pushTexts planPushTexts
  simp only
  cases listOf (writable time key space).result with
  | error code => exact (Plan.outcome_answer _).symm
  | ok items =>
      simp only
      split
      · exact (Plan.outcome_answer _).symm
      · split
        · exact (Plan.outcome_answer _).symm
        · rfl

theorem follows_listPop (front : Bool) : Follows key (listPop key front) (planPop key front) := by
  intro time space
  unfold listPop planPop
  simp only
  cases listOf (writable time key space).result with
  | error code => exact (Plan.outcome_answer _).symm
  | ok items =>
      simp only
      rcases takeEnd front items with _ | ⟨value, rest⟩
      · exact (Plan.outcome_answer _).symm
      · simp only [Plan.outcome]
        split
        · rfl
        · rfl

theorem follows_hashAssign (field : Bytes) (value : Value) :
    Follows key (hashAssign key field value) (planHashAssign key field value) := by
  intro time space
  unfold hashAssign planHashAssign
  simp only
  cases hashOf (writable time key space).result with
  | error code => exact (Plan.outcome_answer _).symm
  | ok fields =>
      simp only
      split
      · exact (Plan.outcome_answer _).symm
      · rfl

theorem hashSetTexts_eq (texts : List Bytes) (time : Option Int64) (space : Keyspace) :
    hashSetTexts key texts time space =
      if texts.length % 2 ≠ 0 then ⟨.error .wrongArgumentCount, space, []⟩
      else (planHashSetTexts key texts (writable time key space).result).outcome key
        (writable time key space) := by
  unfold hashSetTexts planHashSetTexts
  split
  · rfl
  simp only
  cases hashOf (writable time key space).result with
  | error code => exact (Plan.outcome_answer _).symm
  | ok fields =>
      simp only
      split
      · exact (Plan.outcome_answer _).symm
      · split
        · exact (Plan.outcome_answer _).symm
        · rfl

theorem follows_hashDel (field : Bytes) :
    Follows key (hashDel key field) (planHashDel key field) := by
  intro time space
  unfold hashDel planHashDel
  simp only
  cases hashOf (writable time key space).result with
  | error code => exact (Plan.outcome_answer _).symm
  | ok fields =>
      simp only
      split
      · simp only [Plan.outcome]
        split
        · rfl
        · rfl
      · exact (Plan.outcome_answer _).symm

theorem follows_del : Follows key (del key) (planDel key) := by
  intro time space
  unfold del planDel
  simp only
  cases (writable time key space).result with
  | none => exact (Plan.outcome_answer _).symm
  | some entry => rfl

theorem follows_expire (seconds now wall : Int64) :
    Follows key (expire key seconds now wall) (planExpire key seconds now wall) := by
  intro time space
  unfold expire planExpire
  simp only
  cases (writable time key space).result with
  | none => exact (Plan.outcome_answer _).symm
  | some entry =>
      simp only
      split
      · rfl
      · rfl

/-! ## Answers of readers -/

theorem listLength_eq :
    listLength key = reading (fun found => (listOf found).map List.length) key := by
  unfold listLength
  congr 1
  funext found
  cases listOf found with
  | error code => rfl
  | ok items => rfl

theorem hashField_eq {field : Bytes} : hashField key field =
    reading (fun found => (hashOf found).map fun fields => fields.lookup field) key := by
  unfold hashField
  congr 1
  funext found
  cases hashOf found with
  | error code => rfl
  | ok fields => rfl

theorem hashLength_eq : hashLength key =
    reading (fun found => (hashOf found).map fun fields => fields.keys.card) key := by
  unfold hashLength
  congr 1
  funext found
  cases hashOf found with
  | error code => rfl
  | ok fields => rfl

/-! ## The keyspace after a plan -/

def Effect.entry (key : Bytes) (found : Option Entry) : Effect -> Option Entry
  | keep => found
  | remove => none
  | store value keepTtl =>
      some ⟨key, value, if keepTtl then found.bind Entry.deadline else none⟩
  | schedule deadline => found.map fun entry => { entry with deadline := some deadline }

variable {time : Option Int64} {space : Keyspace} {effect : Effect} {probe : Bytes}

theorem find_apply : (effect.apply key (writable time key space)).find key =
    effect.entry key (writable time key space).result := by
  cases effect with
  | keep => exact find_writable
  | remove => exact (Keyspace.find_erase).trans (if_pos rfl)
  | store value keepTtl => exact find_store _
  | schedule deadline =>
      simp only [Effect.apply, Effect.entry, Keyspace.setDeadline]
      rw [Keyspace.find_modify, if_pos rfl, find_writable]
      exact fun _ => rfl

theorem find_apply_other (different : probe ≠ key) :
    (effect.apply key (writable time key space)).find probe = space.find probe := by
  cases effect with
  | keep => exact agree_writable probe different
  | remove => exact agree_erase agree_writable probe different
  | store value keepTtl => exact agree_store probe different
  | schedule deadline => exact agree_setDeadline agree_writable probe different

end Spec

/-! ## Requests -/

namespace Database

/-- What a call returns.  The results of all calls are of this one type, so that
sequences of different calls can be compared. -/
inductive Answer where
  | done
  | text (result : Except ErrorCode (Option Bytes))
  | view (result : Except ErrorCode (Option ValueView))
  | number (result : Except ErrorCode Int64)
  | count (result : Except ErrorCode Nat)
  | value (result : Except ErrorCode (Option Value))
  | removed (result : Except ErrorCode Bool)
  | flag (result : Bool)
  | seconds (result : Int64)
  deriving DecidableEq

def answering {α : Type} (wrap : α -> Answer) (op : Op α) : Op Answer := do
  let result <- op
  pure (wrap result)

section Answering

variable {α : Type} {op : Op α} {wrap : α -> Answer} {world after : World}

theorem answering_ok {value : α} (ran : op world = (.ok value, after)) :
    answering wrap op world = (.ok (wrap value), after) := by
  change Cmd.bind op _ world = _
  rw [Cmd.bind, ran]
  rfl

theorem answering_error {thrown : Exn} (ran : op world = (.error thrown, after)) :
    answering wrap op world = (.error thrown, after) := by
  change Cmd.bind op _ world = _
  rw [Cmd.bind, ran]

end Answering

namespace Call

def run : Call -> Op Answer
  | set key val => answering (fun _ => .done) (Database.set key val)
  | get key => answering .text (Database.get key)
  | valueView key => answering .view (Database.valueView key)
  | increment key => answering .number (Database.increment key)
  | pushLeft key value => answering .count (Database.pushLeft key value)
  | pushRight key value => answering .count (Database.pushRight key value)
  | pushTexts key values front => answering .count (Database.pushTexts key values front)
  | popLeft key => answering .value (Database.popLeft key)
  | popRight key => answering .value (Database.popRight key)
  | listLength key => answering .count (Database.listLength key)
  | hashSet key field value => answering .count (Database.hashAssign key field value)
  | hashSetTexts key fields => answering .count (Database.hashSetTexts key fields)
  | hashGet key field => answering .value (Database.hashGet key field)
  | hashField key field => answering .value (Database.hashField key field)
  | hashDel key field => answering .removed (Database.hashDel key field)
  | hashLength key => answering .count (Database.hashLength key)
  | expire key seconds => answering .flag (Database.expire key seconds)
  | ttl key => answering .seconds (Database.ttl key)
  | del key => answering .flag (Database.del key)
  | call => answering (fun _ => .done) call.perform

/-- The result is all that `perform` leaves out. -/
theorem perform_eq (call : Call) (world : World) :
    call.perform world = ((call.run world).1.map fun _ => (), (call.run world).2) := by
  have both : forall {α : Type} (op : Op α) (wrap : α -> Answer),
      discard op world = ((answering wrap op world).1.map fun _ => (),
        (answering wrap op world).2) := by
    intro α op wrap
    change Cmd.bind op _ world = ((Cmd.bind op _ world).1.map _, (Cmd.bind op _ world).2)
    unfold Cmd.bind
    rcases op world with ⟨thrown | value, after⟩
    · rfl
    · rfl
  have unit : forall (op : Op Unit) (wrap : Unit -> Answer),
      op world = ((answering wrap op world).1.map fun _ => (), (answering wrap op world).2) := by
    intro op wrap
    change _ = ((Cmd.bind op _ world).1.map _, (Cmd.bind op _ world).2)
    unfold Cmd.bind
    rcases op world with ⟨thrown | value, after⟩
    · rfl
    · rfl
  cases call <;> first | exact both _ _ | exact unit _ _

end Call

/-- The readings of the clocks during a call: the steady clock, the wall clock
when it is read first, and the wall clock when it is read again. -/
structure Moment where
  steady : Int64
  wall : Int64
  stamp : Int64

/-- What a call does with the entry of its key: nothing at all, read it, or
follow a plan, which the log may find too large. -/
inductive Form where
  | answers (result : Except Exn Answer)
  | reads (key : Bytes) (answer : Option Entry -> Answer)
  | writes (key : Bytes) (plan : Option Entry -> Spec.Plan (Except Exn Answer)) (tooLarge : Bool)

namespace Form

/-- An operation that starts with `find_writable`. -/
def writing {α : Type} (wrap : α -> Answer) (key : Bytes) (plan : Option Entry -> Spec.Plan α)
    (tooLarge : Bool) : Form :=
  if Node.maxKeyLength < key.length then .answers (.error (.error .requestTooLarge))
  else .writes key (fun found => (plan found).map fun result => .ok (wrap result)) tooLarge

/-- The form of `expire`, which refuses deadlines beyond the range of the
clocks. -/
def expiring (moment : Moment) (key : Bytes) (seconds : Int64) (found : Option Entry) :
    Spec.Plan (Except Exn Answer) :=
  if found.isSome = true ∧ 0 < seconds ∧ maxSeconds moment.steady moment.wall < seconds then
    .answer (.error (.error .valueNotInteger))
  else (Spec.planExpire key seconds moment.steady moment.stamp found).map
    fun result => .ok (.flag result)

end Form

instance (record : Wal.Record) : Decidable (Wal.Accepted record) :=
  decidable_of_iff _ (Wal.accepted_iff record).symm

instance (key : Bytes) (pairs : List (Bytes × Bytes)) : Decidable (TooLarge key pairs) :=
  inferInstanceAs (Decidable (exists pair, pair ∈ pairs ∧ _))

def Call.form (moment : Moment) : Call -> Option Form
  | set key val =>
      some (if maxValueLength < val.length then .answers (.error (.error .requestTooLarge))
        else .writing (fun _ => .done) key (Spec.planSet key val) false)
  | get key => some (.reads key fun found => .text (Spec.text found))
  | valueView key => some (.reads key fun found => .view (.ok (found.map fun entry =>
      Spec.view entry.value)))
  | increment key => some (.writing .number key (Spec.planIncrement key) false)
  | pushLeft key value => some (.writing .count key (Spec.planPush key value true) false)
  | pushRight key value => some (.writing .count key (Spec.planPush key value false) false)
  | pushTexts key values front =>
      some (.writing .count key (Spec.planPushTexts key values front) false)
  | popLeft key => some (.writing .value key (Spec.planPop key true) false)
  | popRight key => some (.writing .value key (Spec.planPop key false) false)
  | listLength key => some (.reads key fun found => .count ((Spec.listOf found).map List.length))
  | hashSet key field value =>
      some (.writing .count key (Spec.planHashAssign key field value)
        (!decide (Wal.Accepted (Spec.record .hashSet (key :: field :: value.logged)))))
  | hashSetTexts key fields =>
      some (if fields.length % 2 ≠ 0 then .answers (.ok (.count (.error .wrongArgumentCount)))
        else .writing .count key (Spec.planHashSetTexts key fields)
          (decide (TooLarge key (textPairs fields))))
  | hashGet key field =>
      some (.reads key fun found => .value ((Spec.hashOf found).map fun fields =>
        fields.lookup field))
  | hashField key field =>
      some (.reads key fun found => .value ((Spec.hashOf found).map fun fields =>
        fields.lookup field))
  | hashDel key field =>
      some (.writing .removed key (Spec.planHashDel key field)
        (!decide (Wal.Accepted (Spec.record .hashDel [key, field]))))
  | hashLength key =>
      some (.reads key fun found => .count ((Spec.hashOf found).map fun fields => fields.keys.card))
  | expire key seconds =>
      some (if Node.maxKeyLength < key.length then .answers (.error (.error .requestTooLarge))
        else .writes key (Form.expiring moment key seconds) false)
  | ttl key => some (.reads key fun found => .seconds (Spec.ttl moment.steady found))
  | del key => some (.writing .flag key (Spec.planDel key) false)
  | _ => none

end Database

namespace Spec

open Database (Form Answer)

/-- The outcome of a form.  A plan whose records the log refuses ends with an
exception after the lookup. -/
def perform (logging : Bool) (now : Int64) (space : Keyspace) : Form -> Outcome (Except Exn Answer)
  | .answers result => ⟨result, space, []⟩
  | .reads key answer =>
      let start := active (some now) key space
      ⟨.ok (answer start.result), start.space, []⟩
  | .writes key plan tooLarge =>
      let start := writable (some now) key space
      if logging = true ∧ tooLarge = true ∧ (plan start.result).records ≠ [] then
        ⟨.error (.error .requestTooLarge), start.space, start.records⟩
      else (plan start.result).outcome key start

end Spec

end Reddish
