import Reddish.Resp.Execute

namespace Reddish

open Library Numeral

/-!
# The calls that commands make

Every command but `DEL` makes one call on the database at most and turns its
answer into a reply.  What calls do is therefore what commands do.
-/

namespace Resp

open Database (Call Answer)

variable {command : Command} {report : Report} {id : CommandId}

/-- The call of the database that a command makes, if it is one call at most;
`DEL` makes one for each key. -/
def soleCall (command : Command) : CommandId -> Option Call
  | .ping => none
  | .info => none
  | .unknown => none
  | .del => none
  | .get => if command.texts.length ≠ 1 then none else some (.valueView (command.text 0))
  | .set => if command.texts.length ≠ 2 then none else some (.set (command.text 0) (command.text 1))
  | .increment => if command.texts.length ≠ 1 then none else some (.increment (command.text 0))
  | .listPushLeft =>
      if command.texts.length < 2 then none
      else if command.texts.length > 2 then
        some (.pushTexts (command.text 0) (command.texts.drop 1) true)
      else some (.pushLeft (command.text 0) (.text (command.text 1)))
  | .listPushRight =>
      if command.texts.length < 2 then none
      else if command.texts.length > 2 then
        some (.pushTexts (command.text 0) (command.texts.drop 1) false)
      else some (.pushRight (command.text 0) (.text (command.text 1)))
  | .listPopLeft => if command.texts.length ≠ 1 then none else some (.popLeft (command.text 0))
  | .listPopRight => if command.texts.length ≠ 1 then none else some (.popRight (command.text 0))
  | .listLength => if command.texts.length ≠ 1 then none else some (.listLength (command.text 0))
  | .hashSet =>
      if command.texts.length < 3 ∨ command.texts.length % 2 = 0 then none
      else if command.texts.length > 3 then
        some (.hashSetTexts (command.text 0) (command.texts.drop 1))
      else some (.hashSet (command.text 0) (command.text 1) (.text (command.text 2)))
  | .hashGet =>
      if command.texts.length ≠ 2 then none else some (.hashField (command.text 0) (command.text 1))
  | .hashDel =>
      if command.texts.length ≠ 2 then none else some (.hashDel (command.text 0) (command.text 1))
  | .hashLength => if command.texts.length ≠ 1 then none else some (.hashLength (command.text 0))
  | .expire =>
      if command.texts.length ≠ 2 then none
      else
        match parseInt64 (command.text 1) with
        | none => none
        | some seconds => some (.expire (command.text 0) seconds)
  | .ttl => if command.texts.length ≠ 1 then none else some (.ttl (command.text 0))

/-- The reply of a handler to the answer of its call. -/
def answerReply : Answer -> Outgoing
  | .done => .ok
  | .text result => viewReply (result.map fun found => found.map .string)
  | .view result => viewReply result
  | .number result => numberReply result
  | .count result => countReply result
  | .value result => valueReply result
  | .removed result => removedReply result
  | .flag result => flagReply result
  | .seconds n => .integer n

/-- Code that makes a call and replies to its answer, and does nothing else.  It
may reply on its own to a number that is out of range. -/
def Makes (code : Op Outgoing) (call : Call) : Prop :=
  forall world, code world = ((call.run world).1.map answerReply, (call.run world).2) ∨
    call.run world = (.error (.error .valueNotInteger), (code world).2)

/-- Code that does nothing to the database. -/
def Abstains (code : Op Outgoing) : Prop :=
  forall world, (code world).2 = world

/-- What a handler other than that of `DEL` does: nothing, or one call on a
key. -/
def OneCall (code : Op Outgoing) (made : Option Call) : Prop :=
  made = none ∧ Abstains code ∨
    exists call key, made = some call ∧ Call.key call = some key ∧ Makes code call

theorem oneCall_pure (reply : Outgoing) : OneCall (pure reply) none :=
  Or.inl ⟨rfl, fun _ => rfl⟩

theorem replying_eq {α : Type} (wrap : α -> Outgoing) (op : Op α) (world : World) :
    replying wrap op world = ((op world).1.map wrap, (op world).2) := by
  change Cmd.bind op _ world = _
  unfold Cmd.bind
  rcases op world with ⟨thrown | value, after⟩
  · rfl
  · rfl

/-- The reply is the one to the answer of the call. -/
theorem replying_run {α : Type} {wrap : α -> Outgoing} {answer : α -> Answer} {op : Op α} {call : Call}
    (isRun : call.run = Database.answering answer op)
    (same : forall value, wrap value = answerReply (answer value)) (world : World) :
    replying wrap op world = ((call.run world).1.map answerReply, (call.run world).2) := by
  rw [replying_eq, isRun]
  rcases ran : op world with ⟨thrown | value, after⟩
  · rw [Database.answering_error ran]
    rfl
  · rw [Database.answering_ok ran]
    exact congrArg (fun reply => (Except.ok reply, after)) (same value)

theorem oneCall_replying {α : Type} {wrap : α -> Outgoing} {answer : α -> Answer} {op : Op α}
    (call : Call) {key : Bytes} (named : call.key = some key)
    (isRun : call.run = Database.answering answer op)
    (same : forall value, wrap value = answerReply (answer value)) :
    OneCall (replying wrap op) (some call) :=
  Or.inr ⟨call, key, rfl, named, fun world => Or.inl (replying_run isRun same world)⟩

theorem OneCall.guarded {code other : Op Outgoing} {made others : Option Call} {condition : Prop}
    [Decidable condition] (first : OneCall code made) (second : OneCall other others) :
    OneCall (if condition then code else other) (if condition then made else others) := by
  split
  · exact first
  · exact second

/-- The handler of `execute_expire` for seconds that are out of range. -/
theorem makes_expire {key : Bytes} {seconds : Int64} :
    Makes ((replying flagReply (Database.expire key seconds)).handle fun thrown =>
      if thrown = Exn.error .valueNotInteger then pure (errorReply .valueNotInteger)
      else Cmd.raise thrown) (.expire key seconds) := by
  intro world
  have replied := @replying_run _ flagReply _ _ (.expire key seconds) rfl (fun _ => rfl) world
  unfold Cmd.handle
  rw [replied]
  rcases (Call.expire key seconds).run world with ⟨thrown | answer, after⟩
  · by_cases isRange : thrown = Exn.error .valueNotInteger
    · rw [isRange]
      exact Or.inr rfl
    · refine Or.inl ?_
      change (if thrown = _ then _ else Cmd.raise thrown : Op Outgoing) after = _
      rw [if_neg isRange]
      rfl
  · exact Or.inl rfl

theorem oneCall_expire : OneCall (executeExpire command) (soleCall command .expire) := by
  unfold executeExpire soleCall
  refine OneCall.guarded (oneCall_pure _) ?_
  cases parseInt64 (command.text 1) with
  | none => exact oneCall_pure _
  | some seconds => exact Or.inr ⟨_, command.text 0, rfl, rfl, makes_expire⟩

/-- Every handler but one makes one call at most. -/
theorem handler_oneCall (other : id ≠ .del) :
    OneCall (handler command report id) (soleCall command id) := by
  cases id with
  | del => exact absurd rfl other
  | ping => exact oneCall_pure _
  | unknown => exact oneCall_pure _
  | info =>
      refine Or.inl ⟨rfl, fun world => ?_⟩
      change ((if _ then pure _ else if _ then pure _ else pure _ : Op Outgoing) world).2 = _
      split
      · rfl
      · split <;> rfl
  | get =>
      exact (oneCall_pure _).guarded
        (oneCall_replying (.valueView (command.text 0)) rfl rfl fun _ => rfl)
  | set =>
      exact (oneCall_pure _).guarded
        (oneCall_replying (.set (command.text 0) (command.text 1)) rfl rfl fun _ => rfl)
  | increment =>
      exact (oneCall_pure _).guarded
        (oneCall_replying (.increment (command.text 0)) rfl rfl fun _ => rfl)
  | listPushLeft =>
      exact (oneCall_pure _).guarded (OneCall.guarded
        (oneCall_replying (.pushTexts (command.text 0) (command.texts.drop 1) true) rfl rfl fun _ => rfl)
        (oneCall_replying (.pushLeft (command.text 0) (.text (command.text 1))) rfl rfl fun _ => rfl))
  | listPushRight =>
      exact (oneCall_pure _).guarded (OneCall.guarded
        (oneCall_replying (.pushTexts (command.text 0) (command.texts.drop 1) false) rfl rfl fun _ => rfl)
        (oneCall_replying (.pushRight (command.text 0) (.text (command.text 1))) rfl rfl fun _ => rfl))
  | listPopLeft =>
      exact (oneCall_pure _).guarded (oneCall_replying (.popLeft (command.text 0)) rfl rfl fun _ => rfl)
  | listPopRight =>
      exact (oneCall_pure _).guarded
        (oneCall_replying (.popRight (command.text 0)) rfl rfl fun _ => rfl)
  | listLength =>
      exact (oneCall_pure _).guarded
        (oneCall_replying (.listLength (command.text 0)) rfl rfl fun _ => rfl)
  | hashSet =>
      exact (oneCall_pure _).guarded (OneCall.guarded
        (oneCall_replying (.hashSetTexts (command.text 0) (command.texts.drop 1)) rfl rfl fun _ => rfl)
        (oneCall_replying (.hashSet (command.text 0) (command.text 1) (.text (command.text 2))) rfl
          rfl fun _ => rfl))
  | hashGet =>
      exact (oneCall_pure _).guarded
        (oneCall_replying (.hashField (command.text 0) (command.text 1)) rfl rfl fun _ => rfl)
  | hashDel =>
      exact (oneCall_pure _).guarded
        (oneCall_replying (.hashDel (command.text 0) (command.text 1)) rfl rfl fun _ => rfl)
  | hashLength =>
      exact (oneCall_pure _).guarded
        (oneCall_replying (.hashLength (command.text 0)) rfl rfl fun _ => rfl)
  | expire => exact oneCall_expire
  | ttl =>
      exact (oneCall_pure _).guarded
        (oneCall_replying (.ttl (command.text 0)) rfl rfl fun _ => rfl)

theorem OneCall.state {code : Op Outgoing} {made : Option Call} (one : OneCall code made)
    (world : World) : (code world).2 = world ∨
      exists call key, Call.key call = some key ∧ (code world).2 = (call.run world).2 := by
  rcases one with ⟨-, abstains⟩ | ⟨call, key, -, named, makes⟩
  · exact Or.inl (abstains world)
  · rcases makes world with replied | refused
    · exact Or.inr ⟨call, key, named, by rw [replied]⟩
    · exact Or.inr ⟨call, key, named, by rw [refused]⟩

/-- A report in which every number is zero. -/
def emptyReport : Report :=
  ⟨0, 0, 0, 0, fun _ => ⟨0, 0, 0, 0, 0, 0, 0, 0⟩⟩

def commandOn (name key : Bytes) (id : CommandId) : Command :=
  ⟨name, ArgumentList.empty.pushBack key, 0, id⟩

end Resp

end Reddish
