import Reddish.Database.Moves

namespace Reddish

open Library Numeral

/-!
# Deadlines change where they are meant to

A deadline belongs to a key, but it is stored under the address of a node, and
nodes are replaced all the time.  Of everything that can happen to a key that
has not expired, only a successful `set` takes its deadline away and only a
successful `expire` gives it another one.
-/

namespace Spec

/-- An effect that leaves the deadline alone. -/
def Effect.keepsTtl : Effect -> Bool
  | keep => true
  | remove => true
  | store _ keepTtl => keepTtl
  | schedule _ => false

variable {key : Bytes} {found : Option Entry} {entry later : Entry} {effect : Effect}

theorem deadline_of_keepsTtl (keeps : effect.keepsTtl = true)
    (left : effect.entry key (some entry) = some later) : later.deadline = entry.deadline := by
  cases effect with
  | keep =>
      cases left
      rfl
  | remove => cases left
  | store value keepTtl =>
      cases left
      exact if_pos keeps
  | schedule deadline => cases keeps

theorem keepsTtl_increment : (planIncrement key found).effect.keepsTtl = true := by
  unfold planIncrement
  split
  · rfl
  · rfl

theorem keepsTtl_push {value : Value} {front : Bool} :
    (planPush key value front found).effect.keepsTtl = true := by
  unfold planPush
  split
  · rfl
  · split
    · rfl
    · rfl

theorem keepsTtl_pushTexts {values : List Bytes} {front : Bool} :
    (planPushTexts key values front found).effect.keepsTtl = true := by
  unfold planPushTexts
  split
  · rfl
  · split
    · rfl
    · split
      · rfl
      · rfl

theorem keepsTtl_pop {front : Bool} : (planPop key front found).effect.keepsTtl = true := by
  unfold planPop
  split
  · rfl
  · split
    · rfl
    · simp only
      split
      · rfl
      · rfl

theorem keepsTtl_hashAssign {field : Bytes} {value : Value} :
    (planHashAssign key field value found).effect.keepsTtl = true := by
  unfold planHashAssign
  split
  · rfl
  · split
    · rfl
    · rfl

theorem keepsTtl_hashSetTexts {texts : List Bytes} :
    (planHashSetTexts key texts found).effect.keepsTtl = true := by
  unfold planHashSetTexts
  simp only
  split
  · rfl
  · split
    · rfl
    · split
      · rfl
      · rfl

theorem keepsTtl_hashDel {field : Bytes} : (planHashDel key field found).effect.keepsTtl = true := by
  unfold planHashDel
  split
  · rfl
  · split
    · simp only
      split
      · rfl
      · rfl
    · rfl

theorem keepsTtl_del : (planDel key found).effect.keepsTtl = true := by
  cases found with
  | none => rfl
  | some entry => rfl

end Spec

namespace Database

variable {call : Call} {key : Bytes} {world after : World} {space : Keyspace} {entry : Entry}
variable {now : Int64} {moment : Moment}

def Form.KeepsTtl : Form -> Prop
  | .writes _ plan _ => forall found, (plan found).effect.keepsTtl = true
  | _ => True

theorem Form.keepsTtl_writing {α : Type} {wrap : α -> Answer}
    {plan : Option Entry -> Spec.Plan α} {tooLarge : Bool}
    (keeps : forall found, (plan found).effect.keepsTtl = true) :
    (Form.writing wrap key plan tooLarge).KeepsTtl := by
  unfold Form.writing
  split
  · exact trivial
  · exact keeps

/-- Only `set` and `expire` are about deadlines. -/
theorem Call.keepsTtl {form : Form} (formed : call.form moment = some form)
    (named : call.key = some key) :
    form.KeepsTtl ∨ (exists val, call = .set key val) ∨ exists seconds,
      call = .expire key seconds := by
  cases call with
  | set key val =>
      cases named
      exact Or.inr (Or.inl ⟨val, rfl⟩)
  | expire key seconds =>
      cases named
      exact Or.inr (Or.inr ⟨seconds, rfl⟩)
  | increment key =>
      cases Option.some.inj formed
      exact Or.inl (Form.keepsTtl_writing fun _ => Spec.keepsTtl_increment)
  | pushLeft | pushRight =>
      cases Option.some.inj formed
      exact Or.inl (Form.keepsTtl_writing fun _ => Spec.keepsTtl_push)
  | pushTexts key values front =>
      cases Option.some.inj formed
      exact Or.inl (Form.keepsTtl_writing fun _ => Spec.keepsTtl_pushTexts)
  | popLeft | popRight =>
      cases Option.some.inj formed
      exact Or.inl (Form.keepsTtl_writing fun _ => Spec.keepsTtl_pop)
  | hashSet key field value =>
      cases Option.some.inj formed
      exact Or.inl (Form.keepsTtl_writing fun _ => Spec.keepsTtl_hashAssign)
  | hashSetTexts key fields =>
      cases Option.some.inj formed
      refine Or.inl ?_
      split
      · exact trivial
      · exact Form.keepsTtl_writing fun _ => Spec.keepsTtl_hashSetTexts
  | hashDel key field =>
      cases Option.some.inj formed
      exact Or.inl (Form.keepsTtl_writing fun _ => Spec.keepsTtl_hashDel)
  | del key =>
      cases Option.some.inj formed
      exact Or.inl (Form.keepsTtl_writing fun _ => Spec.keepsTtl_del)
  | get | valueView | listLength | hashGet | hashField | hashLength | ttl =>
      cases Option.some.inj formed
      exact Or.inl trivial
  | _ => cases named

/-- The form looks up no other key. -/
def Form.Names (key : Bytes) : Form -> Prop
  | .answers _ => True
  | .reads name _ => name = key
  | .writes name _ _ => name = key

theorem Form.names_writing {α : Type} {wrap : α -> Answer} {plan : Option Entry -> Spec.Plan α}
    {tooLarge : Bool} : (Form.writing wrap key plan tooLarge).Names key := by
  unfold Form.writing
  split
  · exact trivial
  · rfl

theorem Call.form_names {form : Form} (formed : call.form moment = some form)
    (named : call.key = some key) : form.Names key := by
  cases call <;> first
    | cases formed
      done
    | cases Option.some.inj formed
      cases named
      first | rfl | exact Form.names_writing | skip
  case set val =>
    split
    · exact trivial
    · exact Form.names_writing
  case hashSetTexts fields =>
    split
    · exact trivial
    · exact Form.names_writing
  case expire seconds =>
    split
    · exact trivial
    · rfl

/-- An entry that a lookup finds stays what it is. -/
theorem find_lookup {form : Form} (names : form.Names key) (found : space.find key = some entry)
    (alive : Spec.expired (some now) entry = false) :
    (form.lookup now space).find key = some entry := by
  cases form with
  | answers result => exact found
  | reads name answer =>
      cases names
      simp [Form.lookup, Spec.active, found, alive, Keyspace.find_touch]
  | writes name plan tooLarge =>
      cases names
      simp [Form.lookup, Spec.writable, found, alive, Keyspace.find_touch]

theorem result_of_alive (found : space.find key = some entry)
    (alive : Spec.expired (some now) entry = false) :
    (Spec.writable (some now) key space).result = some entry := by
  simp [Spec.writable, found, alive]

/-- A form that keeps deadlines keeps this one. -/
theorem deadline_of_form {form : Form} {later : Entry} (names : form.Names key)
    (keeps : form.KeepsTtl) (found : space.find key = some entry)
    (alive : Spec.expired (some now) entry = false)
    (left : (Spec.perform false now space form).space.find key = some later) :
    later.deadline = entry.deadline := by
  cases form with
  | answers result =>
      cases found.symm.trans left
      rfl
  | reads name answer =>
      have same := @find_lookup _ _ _ now (.reads name answer) names found alive
      cases same.symm.trans left
      rfl
  | writes name plan tooLarge =>
      cases names
      simp only [Spec.perform] at left
      rw [if_neg (fun impossible => by cases impossible.1), Spec.Plan.outcome, Spec.find_apply,
        result_of_alive found alive] at left
      exact Spec.deadline_of_keepsTtl (keeps _) left

/-- A successful `set` leaves no deadline. -/
theorem deadline_of_set {val : Bytes} {form : Form} {answer : Answer} {later : Entry}
    (formed : (Call.set key val).form moment = some form)
    (returned : (Spec.perform false now space form).result = .ok answer)
    (left : (Spec.perform false now space form).space.find key = some later) :
    answer = .done ∧ later.deadline = none := by
  cases Option.some.inj formed
  unfold Form.writing at returned left
  split at returned
  · cases returned
  case isFalse small =>
    rw [if_neg small] at left
    split at returned
    · cases returned
    case isFalse short =>
      rw [if_neg short] at left
      simp only [Spec.perform] at returned left
      rw [if_neg (fun impossible => by cases impossible.1), Spec.Plan.outcome] at returned left
      rw [Spec.find_apply] at left
      cases returned
      cases left
      exact ⟨rfl, rfl⟩

/-- A successful `expire` sets the deadline or removes the key. -/
theorem deadline_of_expire {seconds : Int64} {form : Form} {later : Entry}
    (formed : (Call.expire key seconds).form moment = some form)
    (found : space.find key = some entry) (alive : Spec.expired (some now) entry = false)
    (returned : exists answer, (Spec.perform false now space form).result = .ok answer)
    (left : (Spec.perform false now space form).space.find key = some later) :
    (Spec.perform false now space form).result = .ok (.flag true) ∧
      later.deadline = some (moment.steady + seconds * 1000) := by
  cases Option.some.inj formed
  rcases returned with ⟨answer, returned⟩
  split at returned
  · cases returned
  case isFalse short =>
    rw [if_neg short] at left ⊢
    simp only [Spec.perform] at returned left ⊢
    rw [if_neg (fun impossible => by cases impossible.1), Spec.Plan.outcome] at returned left ⊢
    rw [Spec.find_apply] at left
    rw [result_of_alive found alive] at returned left ⊢
    unfold Form.expiring at returned left ⊢
    split at returned
    · cases returned
    case isFalse fine =>
      rw [if_neg fine] at left ⊢
      unfold Spec.planExpire at left ⊢
      simp only at left ⊢
      by_cases past : seconds ≤ 0
      · rw [if_pos past] at left
        cases left
      · rw [if_neg past] at left ⊢
        cases left
        exact ⟨rfl, rfl⟩

/-- The state after a call does not depend on whether its result is used. -/
theorem Call.state_of_perform {P : World -> Prop}
    (holds : call.perform.wp (fun _ => P) (fun _ => P) world) : P (call.run world).2 := by
  rw [Cmd.wp_state, call.perform_eq] at holds
  exact holds

/-- Calls that do not name a key keep its entry or remove it. -/
theorem find_of_other_call {later : Entry} (ready : Ready world space)
    (other : call.key ≠ some key) (found : space.find key = some entry)
    (left : (call.run world).2.db.lookup key = some later) : later = entry := by
  cases named : call.key with
  | none =>
      have nonempty : space ≠ [] := by
        rintro rfl
        cases found
      rcases call.state_of_perform (Call.shrinks named ready fun _ _ => nonempty) with
        ⟨rest, readyRest, sub⟩
      rw [<- readyRest.rep.find_eq] at left
      exact Option.some.inj ((ready.rep.distinct.sublist sub left).symm.trans found)
  | some name =>
      rcases call.state_of_perform (Call.keeps named world space ready) with
        ⟨rest, readyRest, agree, -⟩
      rw [<- readyRest.rep.find_eq] at left
      have same := agree key fun equal => other (by rw [named, equal])
      exact Option.some.inj (left.symm.trans (same.trans found))

/-- A call that was given up keeps the entry it found. -/
theorem find_of_givenUp {form : Moment -> Form} {later : Entry}
    (given : GivenUp world space form after)
    (names : forall moment, (form moment).Names key) (found : space.find key = some entry)
    (alive : forall now, world.Reads now -> Spec.expired (some now) entry = false)
    (left : after.db.lookup key = some later) : later = entry := by
  rcases given with ready | ⟨now, moment, reads, -, ready⟩
  · rw [<- ready.rep.find_eq] at left
    exact Option.some.inj (left.symm.trans found)
  · rw [<- ready.rep.find_eq] at left
    exact Option.some.inj (left.symm.trans (find_lookup (names moment) found (alive now reads)))

/-- Of all calls on a key that has not expired, `set` takes its deadline away,
`expire` replaces it, and every other call leaves it with the node that holds
the key afterwards. -/
theorem deadlines_change_as_intended {outcome : Except Exn Answer} {addr place : Addr}
    (reachable : Reachable world) (ran : call.run world = (outcome, after))
    (found : world.db.findNode key = some addr)
    (alive : forall now deadline, world.Reads now -> world.db.deadline addr = some deadline ->
      now < deadline)
    (kept : after.db.findNode key = some place) :
    (forall val, call = .set key val -> outcome = .ok .done -> after.db.deadline place = none) ∧
    (forall seconds, call = .expire key seconds -> outcome = .ok (.flag true) ->
      exists now, world.Reads now ∧
        after.db.deadline place = some (now + seconds * 1000)) ∧
    ((forall val, call = .set key val -> outcome ≠ .ok .done) ->
      (forall seconds, call = .expire key seconds -> outcome ≠ .ok (.flag true)) ->
      after.db.deadline place = world.db.deadline addr) ∧
    (after.db.ttlFlag place = true <-> after.db.deadline place ≠ none) := by
  rcases reachable.idle with ⟨space, ready⟩
  have entry := ready.rep.find_some found
  have fresh : forall now, world.Reads now ->
      Spec.expired (some now) (world.db.entry addr) = false := by
    intro now reads
    unfold Spec.expired
    cases deadline : (world.db.entry addr).deadline with
    | none => rfl
    | some moment => exact decide_eq_false (Int64.not_le.mpr (alive now moment reads deadline))
  have left : after.db.lookup key = some (after.db.entry place) := by
    rw [Db.lookup, kept]
    rfl
  have flags : after.db.ttlFlag place = true <-> after.db.deadline place ≠ none := by
    rcases (Reachable.call reachable call (call.perform_eq world)).idle with ⟨rest, readyRest⟩
    rw [ran] at readyRest
    exact readyRest.rep.flag_iff kept
  by_cases named : call.key = some key
  · rcases Call.moves named with ⟨form, formed, moves⟩
    have names : forall moment, (form moment).Names key :=
      fun moment => Call.form_names (formed moment) named
    have moved := moves world space ready reachable.live
    cases outcome with
    | error thrown =>
        have given := Cmd.of_wp_error moved ran
        have same := find_of_givenUp given names entry fresh left
        refine ⟨?_, ?_, fun _ _ => congrArg Entry.deadline same, flags⟩
        · rintro val - impossible
          cases impossible
        · rintro seconds - impossible
          cases impossible
    | ok answer =>
        rcases Cmd.of_wp_ok moved ran with ⟨now, moment, reads, again, returned, readyAfter⟩
        rw [<- readyAfter.rep.find_eq] at left
        refine ⟨?_, ?_, ?_, flags⟩
        · rintro val rfl -
          exact (deadline_of_set (formed moment) returned left).2
        · rintro seconds rfl -
          exact ⟨moment.steady, again,
            (deadline_of_expire (formed moment) entry (fresh now reads) ⟨_, returned⟩ left).2⟩
        · intro noSet noExpire
          rcases Call.keepsTtl (formed moment) named with keeps | ⟨val, rfl⟩ | ⟨seconds, rfl⟩
          · exact deadline_of_form (names moment) keeps entry (fresh now reads) left
          · have success := (deadline_of_set (formed moment) returned left).1
            exact absurd (congrArg Except.ok success) (noSet val rfl)
          · have success :=
              (deadline_of_expire (formed moment) entry (fresh now reads) ⟨_, returned⟩ left).1
            exact absurd (returned.symm.trans success) (noExpire seconds rfl)
  · have same := @find_of_other_call call key world space _ _ ready named entry
      (by rw [ran]; exact left)
    refine ⟨?_, ?_, fun _ _ => congrArg Entry.deadline same, flags⟩
    · rintro val rfl
      exact absurd rfl named
    · rintro seconds rfl
      exact absurd rfl named

/-- The deadline to come stays when its key is counted up, is taken away when the
key is set, and gives way to another one. -/
theorem deadlines_change_as_intended_timed :
    timed.db.deadline 0 = some 9000 ∧
      ((Call.increment [97]).run timed).2.db.deadline 0 = some 9000 ∧
      ((Call.set [97] []).run timed).2.db.deadline 0 = none ∧
      ((Call.expire [97] 3).run timed).2.db.deadline 0 = some 8000 := by
  have found : timed.db.findNode [97] = some 0 := by decide +kernel
  have deadline : timed.db.deadline 0 = some 9000 := by decide +kernel
  have alive : forall now moment, timed.Reads now -> timed.db.deadline 0 = some moment ->
      now < moment := by
    rintro now moment ⟨n, rfl⟩ isMoment
    cases isMoment.symm.trans deadline
    rw [steady_timed]
    decide
  have intended := fun call kept => @deadlines_change_as_intended call [97] timed _ _ 0 0
    reachable_timed rfl found alive kept
  have counted := (intended (.increment [97]) (by decide +kernel)).2.2.1 nofun nofun
  have expired := (intended (.expire [97] 3) (by decide +kernel)).2.1 3 rfl (by decide +kernel)
  rcases expired with ⟨now, ⟨n, rfl⟩, moved⟩
  rw [steady_timed] at moved
  exact ⟨deadline, counted.trans deadline,
    (intended (.set [97] []) (by decide +kernel)).1 [] rfl (by decide +kernel), moved⟩

end Database

end Reddish
