import Reddish.Database.Moves
import Reddish.Database.Transparency
import Reddish.Resp.SoleCalls

namespace Reddish

open Library Numeral

/-!
# Replies that do not fit

The database is called before the reply is appended.  When there is no room
for the reply the client is dropped without an answer, and what the command
did to the database stays.
-/

namespace Database

variable {now : Int64} {world middle after : World} {space : Keyspace} {key : Bytes}

/-- The key is there, but its time has come. -/
def Lapsed (now : Int64) (world : World) (key : Bytes) : Prop :=
  exists entry, world.db.lookup key = some entry ∧ Spec.expired (some now) entry = true

/-- Nothing happened, except that expired keys were removed: only such keys are
missing, and only their deletions were logged. -/
structure Unchanged (now : Int64) (world after : World) : Prop where
  kept : forall probe, after.db.lookup probe = world.db.lookup probe ∨
    after.db.lookup probe = none ∧ Lapsed now world probe
  logged : exists keys : List Bytes,
    after.records = world.records ++ keys.map (fun key => Spec.record .del [key]) ∧
      forall key, key ∈ keys -> Lapsed now world key

theorem Unchanged.refl (now : Int64) (world : World) : Unchanged now world world :=
  ⟨fun _ => Or.inl rfl, [], by simp⟩

theorem Unchanged.lapsed (unchanged : Unchanged now world middle) (lapsed : Lapsed now middle key) :
    Lapsed now world key := by
  rcases lapsed with ⟨entry, found, expired⟩
  rcases unchanged.kept key with same | ⟨gone, -⟩
  · exact ⟨entry, same.symm.trans found, expired⟩
  · rw [gone] at found
    cases found

theorem Unchanged.trans (first : Unchanged now world middle) (second : Unchanged now middle after) :
    Unchanged now world after where
  kept := by
    intro probe
    rcases second.kept probe with same | ⟨gone, lapsed⟩
    · rcases first.kept probe with kept | ⟨gone, lapsed⟩
      · exact Or.inl (same.trans kept)
      · exact Or.inr ⟨same.trans gone, lapsed⟩
    · exact Or.inr ⟨gone, first.lapsed lapsed⟩
  logged := by
    rcases first.logged with ⟨keys, logged, lapsed⟩
    rcases second.logged with ⟨others, loggedMore, lapsedMore⟩
    refine ⟨keys ++ others, ?_, ?_⟩
    · rw [loggedMore, logged, List.map_append, List.append_assoc]
    · intro key inside
      rcases List.mem_append.mp inside with inside | inside
      · exact lapsed key inside
      · exact first.lapsed (lapsedMore key inside)

theorem Unchanged.seen (unchanged : Unchanged now world after) :
    seen now after key = seen now world key := by
  unfold Database.seen
  rcases unchanged.kept key with same | ⟨gone, entry, found, expired⟩
  · rw [same]
  · rw [gone, found, Option.filter_none, Option.filter_some, expired]
    rfl

/-! ## Calls without an effect -/

/-- A plan that does nothing to the entry that was found, and logs nothing. -/
def Quiet {α : Type} (logging : Bool) (key : Bytes) (found : Option Entry) (plan : Spec.Plan α) :
    Prop :=
  (logging = true -> plan.records = []) ∧ plan.effect.entry key found = found

/-- A form that does nothing in a state: it only answers or reads, or its plan
for the entry that is seen stores, removes and logs nothing. -/
def Form.Idle (now : Int64) (world : World) : Form -> Prop
  | .writes key plan _ => Quiet world.logging key (seen now world key) (plan (seen now world key))
  | _ => True

/-- A plan that logs something logs more than the deletion of a key that was
not found. -/
def Speaks {α : Type} (key : Bytes) (plan : Option Entry -> Spec.Plan α) : Prop :=
  forall found, (plan found).records ≠ [] ->
    exists logged, logged ∈ (plan found).records ∧
      forall other, logged = Spec.record .del [other] -> other = key ∧ found ≠ none

theorem speaks_of_op {α : Type} {plan : Option Entry -> Spec.Plan α} {op : WalOp}
    (other : op.code ≠ WalOp.del.code)
    (records : forall found logged, logged ∈ (plan found).records -> logged.op = op.code) :
    Speaks key plan := by
  intro found nonempty
  rcases List.exists_mem_of_ne_nil _ nonempty with ⟨logged, inside⟩
  refine ⟨logged, inside, fun name same => absurd ?_ other⟩
  rw [<- records found logged inside, same]
  rfl

theorem Speaks.writing {α : Type} {wrap : α -> Answer} {plan : Option Entry -> Spec.Plan α}
    {large tooLarge : Bool} {name : Bytes} {other : Option Entry -> Spec.Plan (Except Exn Answer)}
    (speaks : Speaks key plan)
    (formed : some (Form.writing wrap key plan large) = some (.writes name other tooLarge)) :
    Speaks name other := by
  unfold Form.writing at formed
  split at formed
  · cases formed
  · cases formed
    exact speaks

theorem speaks_set {val : Bytes} : Speaks key (Spec.planSet key val) :=
  @speaks_of_op _ _ _ .set (by decide) fun _ _ inside => by rw [List.mem_singleton.mp inside]; rfl

theorem speaks_increment : Speaks key (Spec.planIncrement key) := by
  refine @speaks_of_op _ _ _ .increment (by decide) fun found logged => ?_
  unfold Spec.planIncrement
  cases Spec.counted found with
  | error code => exact nofun
  | ok n =>
      intro inside
      rw [List.mem_singleton.mp inside]
      rfl

theorem code_push (front : Bool) : (WalOp.push front).code ≠ WalOp.del.code := by
  cases front with
  | true => decide
  | false => decide

theorem code_pop (front : Bool) : (WalOp.pop front).code ≠ WalOp.del.code := by
  cases front with
  | true => decide
  | false => decide

theorem speaks_push {value : Value} {front : Bool} : Speaks key (Spec.planPush key value front) := by
  refine speaks_of_op (code_push front) fun found logged => ?_
  unfold Spec.planPush
  cases Spec.listOf found with
  | error code => exact nofun
  | ok items =>
      simp only
      split
      · exact nofun
      · intro inside
        rw [List.mem_singleton.mp inside]
        rfl

theorem speaks_pushTexts {values : List Bytes} {front : Bool} :
    Speaks key (Spec.planPushTexts key values front) := by
  refine speaks_of_op (code_push front) fun found logged => ?_
  unfold Spec.planPushTexts
  cases Spec.listOf found with
  | error code => exact nofun
  | ok items =>
      simp only
      split
      · exact nofun
      split
      · exact nofun
      · intro inside
        rcases List.mem_map.mp inside with ⟨value, -, rfl⟩
        rfl

theorem speaks_pop {front : Bool} : Speaks key (Spec.planPop key front) := by
  refine speaks_of_op (code_pop front) fun found logged => ?_
  unfold Spec.planPop
  cases Spec.listOf found with
  | error code => exact nofun
  | ok items =>
      simp only
      rcases Spec.takeEnd front items with _ | ⟨value, rest⟩
      · exact nofun
      · intro inside
        rw [List.mem_singleton.mp inside]
        rfl

theorem speaks_hashAssign {field : Bytes} {value : Value} :
    Speaks key (Spec.planHashAssign key field value) := by
  refine @speaks_of_op _ _ _ .hashSet (by decide) fun found logged => ?_
  unfold Spec.planHashAssign
  cases Spec.hashOf found with
  | error code => exact nofun
  | ok fields =>
      simp only
      split
      · exact nofun
      · intro inside
        rw [List.mem_singleton.mp inside]
        rfl

theorem speaks_hashSetTexts {texts : List Bytes} : Speaks key (Spec.planHashSetTexts key texts) := by
  refine @speaks_of_op _ _ _ .hashSet (by decide) fun found logged => ?_
  unfold Spec.planHashSetTexts
  cases Spec.hashOf found with
  | error code => exact nofun
  | ok fields =>
      simp only
      split
      · exact nofun
      split
      · exact nofun
      · intro inside
        rcases List.mem_map.mp inside with ⟨pair, -, rfl⟩
        rfl

theorem speaks_hashDel {field : Bytes} : Speaks key (Spec.planHashDel key field) := by
  refine @speaks_of_op _ _ _ .hashDel (by decide) fun found logged => ?_
  unfold Spec.planHashDel
  cases Spec.hashOf found with
  | error code => exact nofun
  | ok fields =>
      simp only
      split
      · intro inside
        rw [List.mem_singleton.mp inside]
        rfl
      · exact nofun

/-- Only a key that was found is deleted. -/
theorem speaks_found {α : Type} {plan : Option Entry -> Spec.Plan α}
    (silent : (plan none).records = [])
    (named : forall entry logged, logged ∈ (plan (some entry)).records ->
      forall other, logged = Spec.record .del [other] -> other = key) : Speaks key plan := by
  intro found nonempty
  cases found with
  | none => exact absurd silent nonempty
  | some entry =>
      rcases List.exists_mem_of_ne_nil _ nonempty with ⟨logged, inside⟩
      exact ⟨logged, inside, fun other same =>
        ⟨named entry logged inside other same, Option.some_ne_none entry⟩⟩

theorem speaks_del : Speaks key (Spec.planDel key) := by
  refine speaks_found rfl fun entry logged inside other same => ?_
  rw [List.mem_singleton.mp inside] at same
  cases same
  rfl

theorem speaks_expire {seconds steady stamp : Int64} :
    Speaks key (Spec.planExpire key seconds steady stamp) := by
  refine speaks_found rfl fun entry logged inside other same => ?_
  unfold Spec.planExpire at inside
  simp only at inside
  split at inside
  · rw [List.mem_singleton.mp inside] at same
    cases same
    rfl
  · rw [List.mem_singleton.mp inside] at same
    exact absurd (congrArg Wal.Record.op same) (show WalOp.expireAt.code ≠ WalOp.del.code by decide)

theorem Call.speaks {call : Call} {moment : Moment} {tooLarge : Bool}
    {plan : Option Entry -> Spec.Plan (Except Exn Answer)}
    (formed : call.form moment = some (.writes key plan tooLarge)) : Speaks key plan := by
  cases call with
  | set name val =>
      simp only [Call.form] at formed
      split at formed
      · cases formed
      · exact speaks_set.writing formed
  | increment name => exact speaks_increment.writing formed
  | pushLeft | pushRight => exact speaks_push.writing formed
  | pushTexts name values front => exact speaks_pushTexts.writing formed
  | popLeft | popRight => exact speaks_pop.writing formed
  | hashSet name field value => exact speaks_hashAssign.writing formed
  | hashSetTexts name fields =>
      simp only [Call.form] at formed
      split at formed
      · cases formed
      · exact speaks_hashSetTexts.writing formed
  | hashDel name field => exact speaks_hashDel.writing formed
  | expire name seconds =>
      simp only [Call.form] at formed
      split at formed
      · cases formed
      · cases formed
        intro found nonempty
        unfold Form.expiring at nonempty ⊢
        split at nonempty
        · exact absurd rfl nonempty
        case isFalse fine =>
          rw [if_neg fine]
          exact speaks_expire found nonempty
  | del name => exact speaks_del.writing formed
  | _ => cases formed

/-! ## Returned calls -/

theorem entry_none {effect : Spec.Effect} {entry : Entry}
    (left : effect.entry key none = some entry) : entry.deadline = none := by
  cases effect with
  | keep | remove | schedule => cases left
  | store value keepTtl =>
      cases left
      cases keepTtl with
      | true => rfl
      | false => rfl

theorem seen_eq (ready : Ready world space) :
    seen now world key = (Spec.writable (some now) key space).result := by
  rw [seen, <- ready.rep.find_eq]
  exact Spec.result_writable.symm

theorem lapsed_of_lookup (ready : Ready world space)
    (logged : (Spec.writable (some now) key space).records ≠ []) :
    (Spec.writable (some now) key space).records = [Spec.record .del [key]] ∧
      Lapsed now world key := by
  unfold Lapsed
  rw [<- ready.rep.find_eq]
  unfold Spec.writable at logged ⊢
  cases found : space.find key with
  | none =>
      rw [found] at logged
      exact absurd rfl logged
  | some entry =>
      rw [found] at logged
      simp only at logged ⊢
      split at logged
      case isTrue expired => exact ⟨if_pos expired ▸ rfl, entry, rfl, expired⟩
      case isFalse => exact absurd rfl logged

theorem unchanged_lookup {later : Keyspace} {records : List Wal.Record} (ready : Ready world space)
    (done : Ready after later)
    (finds : later.find key = (Spec.writable (some now) key space).result)
    (others : forall probe, probe ≠ key -> later.find probe = space.find probe)
    (few : records = [] ∨ records = (Spec.writable (some now) key space).records)
    (logged : after.records = world.records ++ if world.logging then records else []) :
    Unchanged now world after where
  kept := by
    intro probe
    rw [<- done.rep.find_eq, <- ready.rep.find_eq]
    by_cases same : probe = key
    · rw [same, finds]
      unfold Lapsed
      rw [<- ready.rep.find_eq]
      unfold Spec.writable
      cases found : space.find key with
      | none => exact Or.inl rfl
      | some entry =>
          simp only
          split
          case isTrue expired => exact Or.inr ⟨rfl, entry, rfl, expired⟩
          case isFalse => exact Or.inl rfl
    · exact Or.inl (others probe same)
  logged := by
    by_cases nothing : (if world.logging then records else []) = []
    · refine ⟨[], ?_, nofun⟩
      rw [logged, nothing]
      rfl
    · rcases few with rfl | rfl
      · simp at nothing
      · have isLogging : world.logging = true := by
          by_contra off
          rw [if_neg off] at nothing
          exact nothing rfl
        rw [if_pos isLogging] at nothing
        rcases lapsed_of_lookup ready nothing with ⟨deletion, lapsed⟩
        refine ⟨[key], ?_, ?_⟩
        · rw [logged, if_pos isLogging, deletion]
          rfl
        · intro other inside
          rw [List.mem_singleton.mp inside]
          exact lapsed

theorem find_active {probe : Bytes} :
    (Spec.active (some now) key space).space.find probe = space.find probe := by
  unfold Spec.active
  cases space.find key with
  | none => rfl
  | some entry =>
      simp only
      split
      · rfl
      · exact Keyspace.find_touch

/-- An entry that is kept, or lost because it had expired, is the one that was
found. -/
theorem entry_of_kept {effect : Spec.Effect}
    (there : after.db.lookup key = effect.entry key (seen now world key))
    (unchanged : Unchanged now world after) : effect.entry key (seen now world key) =
      seen now world key := by
  cases found : seen now world key with
  | some entry =>
      rcases Option.filter_eq_some_iff.mp found with ⟨present, alive⟩
      rw [found] at there
      rw [<- there]
      rcases unchanged.kept key with same | ⟨-, other, known, expired⟩
      · exact same.trans present
      · rw [present] at known
        cases known
        rw [expired] at alive
        cases alive
  | none =>
      rw [found] at there
      rw [<- there]
      rcases unchanged.kept key with same | ⟨gone, -⟩
      · rw [same]
        cases present : world.db.lookup key with
        | none => rfl
        | some entry =>
            rw [same, present] at there
            have timeless := entry_none there.symm
            have expired : Spec.expired (some now) entry = false := by
              unfold Spec.expired
              rw [timeless]
            rw [seen, present] at found
            simp [expired] at found
      · exact gone

theorem Form.idle_writes {plan : Option Entry -> Spec.Plan (Except Exn Answer)} {tooLarge : Bool} :
    (Form.writes key plan tooLarge).Idle now world <->
      Quiet world.logging key (seen now world key) (plan (seen now world key)) :=
  Iff.rfl

theorem perform_writes {plan : Option Entry -> Spec.Plan (Except Exn Answer)} {tooLarge : Bool} :
    Spec.perform false now space (.writes key plan tooLarge) =
      (plan (Spec.writable (some now) key space).result).outcome key
        (Spec.writable (some now) key space) := by
  unfold Spec.perform
  exact if_neg fun impossible => Bool.false_ne_true impossible.1

/-- A form that was carried out changed nothing if there was nothing to do. -/
theorem unchanged_iff_idle {form : Form} (ready : Ready world space)
    (speaks : forall key plan tooLarge, form = .writes key plan tooLarge -> Speaks key plan)
    (reached : Reached world after [] (Spec.perform false now space form).space
      (Spec.perform false now space form).records) :
    Unchanged now world after <-> form.Idle now world := by
  cases form with
  | answers result =>
      refine iff_of_true ⟨fun probe => Or.inl ?_, [], ?_, ?_⟩ trivial
      · rw [<- reached.ready.rep.find_eq, <- ready.rep.find_eq]
        rfl
      · rw [reached.logged]
        simp [Spec.perform]
      · exact fun _ inside => absurd inside List.not_mem_nil
  | reads key answer =>
      refine iff_of_true ⟨fun probe => Or.inl ?_, [], ?_, ?_⟩ trivial
      · rw [<- reached.ready.rep.find_eq, <- ready.rep.find_eq]
        simp only [Spec.perform]
        exact find_active
      · rw [reached.logged]
        simp [Spec.perform]
      · exact fun _ inside => absurd inside List.not_mem_nil
  | writes key plan tooLarge =>
      rw [perform_writes, <- seen_eq ready] at reached
      rw [Form.idle_writes]
      have speaks := speaks key plan tooLarge rfl (seen now world key)
      have there : after.db.lookup key =
          (plan (seen now world key)).effect.entry key (seen now world key) := by
        rw [<- reached.ready.rep.find_eq, seen_eq ready]
        exact Spec.find_apply
      constructor
      · intro unchanged
        refine ⟨fun isLogging => ?_, entry_of_kept there unchanged⟩
        by_contra nonempty
        rcases speaks nonempty with ⟨logged, inside, named⟩
        rcases unchanged.logged with ⟨keys, records, lapsed⟩
        rw [reached.logged, if_pos isLogging] at records
        have same := List.append_cancel_left records
        have member : logged ∈ keys.map (fun key => Spec.record .del [key]) := by
          rw [<- same]
          exact List.mem_append_right _ inside
        rcases List.mem_map.mp member with ⟨other, isKey, isDeletion⟩
        rcases named other isDeletion.symm with ⟨rfl, present⟩
        rcases lapsed other isKey with ⟨entry, found, expired⟩
        rw [seen, found] at present
        simp [expired] at present
      · rintro ⟨silent, same⟩
        refine @unchanged_lookup now world after space key _
          (Spec.writable (some now) key space).records ready reached.ready ?_
          (fun probe other => Spec.find_apply_other other) (Or.inr rfl) ?_
        · rw [reached.ready.rep.find_eq, there, same, seen_eq ready]
        · rw [reached.logged]
          split
          case isTrue isLogging =>
            rw [Spec.Plan.outcome, silent isLogging, List.append_nil]
          case isFalse => rfl

variable {call : Call} {answer : Answer}

/-- A call that returned carried its form out, where the clock stands still. -/
theorem Call.carried (ready : Ready world space) (live : world.db.replaying = false)
    (still : forall n, world.steady.reading n = now) (named : call.key = some key)
    (ran : call.run world = (.ok answer, after)) :
    exists form, call.form (momentOf world now) = some form ∧
      (Spec.perform false now space form).result = .ok answer ∧
      Reached world after [] (Spec.perform false now space form).space
        (Spec.perform false now space form).records := by
  rcases Call.carries named with ⟨form, formed, carries⟩
  have carried := Cmd.of_wp_ok (carries world space ready live) ran
  rcases carried with ⟨instant, moment, ⟨n, isInstant⟩, dated, result, reached⟩
  have isNow : instant = now := isInstant.symm.trans (still n)
  have isMoment : moment = momentOf world now := by
    rcases dated with ⟨⟨m, steady⟩, wall, stamp⟩
    rcases moment with ⟨first, second, third⟩
    rw [momentOf, Moment.mk.injEq]
    exact ⟨steady.symm.trans (still m), wall, stamp⟩
  rw [isNow, isMoment] at result reached
  exact ⟨form (momentOf world now), formed _, result, reached⟩

theorem Call.unchanged_iff {form : Form} (ready : Ready world space)
    (live : world.db.replaying = false) (still : forall n, world.steady.reading n = now)
    (named : call.key = some key) (formed : call.form (momentOf world now) = some form)
    (ran : call.run world = (.ok answer, after)) :
    Unchanged now world after <-> form.Idle now world := by
  rcases Call.carried ready live still named ran with ⟨other, same, -, reached⟩
  cases Option.some.inj (same.symm.trans formed)
  refine unchanged_iff_idle ready ?_ reached
  rintro name plan tooLarge rfl
  exact Call.speaks formed

/-- A number of seconds that is out of range is refused after the lookup. -/
theorem Call.unchanged_refused (ready : Ready world space) (live : world.db.replaying = false)
    (still : forall n, world.steady.reading n = now) (named : call.key = some key)
    (ran : call.run world = (.error (.error .valueNotInteger), after)) :
    Unchanged now world after := by
  rcases Call.carries named with ⟨form, formed, carries⟩
  have abandoned := Cmd.of_wp_error (carries world space ready live) ran
  have logged : forall {records}, LoggedBefore world after records (.error .valueNotInteger) ->
      after.records = world.records ++ if world.logging then records else [] := by
    rintro records (logged | impossible)
    · exact logged
    · cases impossible
  rcases abandoned with ⟨done, before⟩ | ⟨instant, moment, ⟨n, isInstant⟩, -, done, before⟩
  · refine ⟨fun probe => Or.inl ?_, [], by simpa using logged before, by simp⟩
    rw [<- done.rep.find_eq, <- ready.rep.find_eq]
  · have isNow : instant = now := isInstant.symm.trans (still n)
    rw [isNow] at done before
    cases shape : form moment with
    | answers result =>
        rw [shape] at done before
        refine ⟨fun probe => Or.inl ?_, [], by simpa [Form.lookupRecords] using logged before, by simp⟩
        rw [<- done.rep.find_eq, <- ready.rep.find_eq]
        rfl
    | reads name answer =>
        rw [shape] at done before
        refine ⟨fun probe => Or.inl ?_, [], by simpa [Form.lookupRecords] using logged before, by simp⟩
        rw [<- done.rep.find_eq, <- ready.rep.find_eq]
        exact find_active
    | writes name plan tooLarge =>
        rw [shape] at done before
        exact unchanged_lookup ready done Spec.find_writable
          (fun probe other => Spec.find_writable_other other) (Or.inr rfl) (logged before)

/-! ## Deleting -/

/-- A deletion leaves the other keys alone. -/
theorem seen_del {removed : Bool} {probe : Bytes} (ready : Ready world space)
    (live : world.db.replaying = false) (still : forall n, world.steady.reading n = now)
    (ran : Database.del key world = (.ok removed, after)) :
    seen now after probe = if probe = key then none else seen now world probe := by
  have returned : (Call.del key).run world = (.ok (.flag removed), after) := answering_ok ran
  rcases Call.carried ready live still (show (Call.del key).key = some key from rfl) returned with
    ⟨form, formed, result, reached⟩
  rw [Call.form, Form.writing] at formed
  split at formed
  · cases formed
    cases result
  · cases formed
    rw [perform_writes] at reached
    rw [seen, <- reached.ready.rep.find_eq]
    split
    case isTrue same =>
      rw [same]
      change Option.filter _ (Keyspace.find key (Spec.Effect.apply key _ _)) = none
      rw [Spec.find_apply]
      cases (Spec.writable (some now) key space).result with
      | none => rfl
      | some entry => rfl
    case isFalse other =>
      rw [seen, <- ready.rep.find_eq]
      exact congrArg _ (Spec.find_apply_other other)

theorem unchanged_del {removed : Bool} (ready : Ready world space)
    (live : world.db.replaying = false) (still : forall n, world.steady.reading n = now)
    (ran : Database.del key world = (.ok removed, after)) (missing : seen now world key = none) :
    Unchanged now world after := by
  have returned : (Call.del key).run world = (.ok (.flag removed), after) := answering_ok ran
  refine (Call.unchanged_iff ready live still (show (Call.del key).key = some key from rfl) rfl
    returned).mpr ?_
  unfold Form.writing
  split
  · exact trivial
  · rw [Form.idle_writes, missing]
    exact ⟨fun _ => rfl, rfl⟩

end Database

namespace Resp

open Database (Call Answer Form Ready Unchanged seen timed)

variable {now : Int64} {world after : World} {space : Keyspace} {keys : List Bytes}
variable {command : Command} {report : Report} {id : CommandId} {reply : Outgoing} {output : Bytes}

/-! ## The loop of `DEL` -/

theorem delLoop_cons {key : Bytes} {deleted count : Nat}
    (ran : delLoop (key :: keys) deleted world = (.ok count, after)) :
    exists removed middle, Database.del key world = (.ok removed, middle) ∧
      delLoop keys (if removed then deleted + 1 else deleted) middle = (.ok count, after) := by
  change Cmd.bind (Database.del key) _ world = _ at ran
  unfold Cmd.bind at ran
  rcases outcome : Database.del key world with ⟨thrown | removed, middle⟩
  · rw [outcome] at ran
    cases ran
  · rw [outcome] at ran
    exact ⟨removed, middle, rfl, ran⟩

/-- The state behind a deletion is one from which the loop goes on. -/
theorem del_continues {key : Bytes} {removed : Bool} {middle : World} (ready : Ready world space)
    (live : world.db.replaying = false) (still : forall n, world.steady.reading n = now)
    (ran : Database.del key world = (.ok removed, middle)) :
    (exists later, Ready middle later) ∧ middle.db.replaying = false ∧
      forall n, middle.steady.reading n = now := by
  have returned : (Call.del key).run world = (.ok (.flag removed), middle) :=
    Database.answering_ok ran
  rcases Call.carried ready live still (show (Call.del key).key = some key from rfl) returned with
    ⟨form, -, -, reached⟩
  refine ⟨⟨_, reached.ready⟩, reached.evolves.replaying.trans live, fun n => ?_⟩
  rcases reached.evolves.steady with ⟨skipped, shift⟩
  rw [shift]
  exact still _

/-- None of the keys is seen afterwards, and no key that was not seen before. -/
theorem seen_delLoop {deleted count : Nat} (ready : Ready world space)
    (live : world.db.replaying = false) (still : forall n, world.steady.reading n = now)
    (ran : delLoop keys deleted world = (.ok count, after)) :
    forall probe, probe ∈ keys ∨ seen now world probe = none -> seen now after probe = none := by
  induction keys generalizing world space deleted with
  | nil =>
      cases ran
      rintro probe (impossible | missing)
      · exact absurd impossible List.not_mem_nil
      · exact missing
  | cons key keys ih =>
      rcases delLoop_cons ran with ⟨removed, middle, first, rest⟩
      rcases del_continues ready live still first with ⟨⟨later, middleReady⟩, middleLive, middleStill⟩
      intro probe missing
      refine ih middleReady middleLive middleStill rest probe ?_
      rw [Database.seen_del ready live still first]
      by_cases same : probe = key
      · exact Or.inr (if_pos same)
      · rw [if_neg same]
        rcases missing with inside | missing
        · exact Or.inl ((List.mem_cons.mp inside).resolve_left same)
        · exact Or.inr missing

theorem unchanged_delLoop {deleted count : Nat} (ready : Ready world space)
    (live : world.db.replaying = false) (still : forall n, world.steady.reading n = now)
    (missing : forall key, key ∈ keys -> seen now world key = none)
    (ran : delLoop keys deleted world = (.ok count, after)) : Unchanged now world after := by
  induction keys generalizing world space deleted with
  | nil =>
      cases ran
      exact .refl now after
  | cons key keys ih =>
      rcases delLoop_cons ran with ⟨removed, middle, first, rest⟩
      rcases del_continues ready live still first with ⟨⟨later, middleReady⟩, middleLive, middleStill⟩
      have step := Database.unchanged_del ready live still first (missing key List.mem_cons_self)
      refine step.trans (ih middleReady middleLive middleStill ?_ rest)
      intro other inside
      rw [Database.seen_del ready live still first]
      split
      · rfl
      · exact missing other (List.mem_cons_of_mem _ inside)

/-- A deletion of a short key returns where nothing fails. -/
theorem del_returns {key : Bytes} (ready : Ready world space) (healthy : world.Healthy)
    (live : world.db.replaying = false) (still : forall n, world.steady.reading n = now)
    (short : key.length ≤ Node.maxKeyLength) :
    exists removed after, Database.del key world = (.ok removed, after) ∧ after.Healthy := by
  have formed : (Call.del key).form (Database.momentOf world now) =
      some (.writing .flag key (Spec.planDel key) false) := rfl
  rcases Call.performs formed ready healthy live ⟨still, rfl, rfl⟩ with
    ⟨after, later, records, ran, well, -⟩
  change Database.answering .flag (Database.del key) world = _ at ran
  rcases outcome : Database.del key world with ⟨thrown | removed, last⟩
  · rw [Database.answering_error outcome, Database.Form.writing, if_neg (Nat.not_lt.mpr short)] at ran
    unfold Spec.perform at ran
    simp only at ran
    rw [if_neg (fun impossible => by cases impossible.2.1)] at ran
    cases ran
  · rw [Database.answering_ok outcome] at ran
    have same : last = after := congrArg Prod.snd ran
    exact ⟨removed, last, rfl, same ▸ well⟩

theorem delLoop_returns (deleted : Nat) (ready : Ready world space) (healthy : world.Healthy)
    (live : world.db.replaying = false) (still : forall n, world.steady.reading n = now)
    (short : forall key, key ∈ keys -> key.length ≤ Node.maxKeyLength) :
    exists count after, delLoop keys deleted world = (.ok count, after) := by
  induction keys generalizing world space deleted with
  | nil => exact ⟨deleted, world, rfl⟩
  | cons key keys ih =>
      rcases del_returns ready healthy live still (short key List.mem_cons_self) with
        ⟨removed, middle, first, well⟩
      rcases del_continues ready live still first with ⟨⟨later, middleReady⟩, middleLive, middleStill⟩
      rcases ih (if removed then deleted + 1 else deleted) middleReady well middleLive middleStill
        (fun other inside => short other (List.mem_cons_of_mem key inside)) with ⟨count, after, rest⟩
      exact ⟨count, after, (Cmd.bind_ok first).trans rest⟩

/-! ## Commands that lose their reply -/

/-- `execute_into` throws because the reply of the command, which has been
executed, cannot be appended. -/
structure LosesReply (command : Command) (report : Report) (id : CommandId) (world : World)
    (output : Bytes) (after : World) : Prop where
  answered : exists reply, handler command report id world = (.ok reply, after)
  thrown : executeInto command report id (world, output) =
    (.error (.error .requestTooLarge), (after, output))

theorem losesReply_iff (ran : handler command report id world = (.ok reply, after)) :
    LosesReply command report id world output after <-> ¬ Fits reply output := by
  constructor
  · rintro ⟨-, thrown⟩ fits
    rw [executeInto_answered ran, deliver_fits fits] at thrown
    cases thrown
  · intro lost
    refine ⟨⟨reply, ran⟩, ?_⟩
    rw [executeInto_answered ran, deliver_lost lost]

/-- What a command does with the entry of its key, if it makes one call.  Only
`DEL` makes more than one. -/
def Command.form (moment : Database.Moment) (command : Command) (id : CommandId) : Option Form :=
  (soleCall command id).bind (Call.form moment)

/-- There is room for the reply to what the plan makes of the entry.  The reply
is computed from the entry, without running the command. -/
def HasRoom (now : Int64) (world : World) (output : Bytes) : Form -> Prop
  | .writes key plan _ => forall answer, (plan (seen now world key)).result = .ok answer ->
      (answerReply answer).room + output.length ≤ maxReplyBytes
  | _ => True

/-- The log will refuse the records of the plan. -/
def LogRefuses (now : Int64) (world : World) : Form -> Prop
  | .writes key plan tooLarge =>
      world.logging = true ∧ tooLarge = true ∧ (plan (seen now world key)).records ≠ []
  | _ => False

/-- A command that has nothing to do in this state, or room for its reply.  This
is decided by the arguments, the entries of the keys and the length of the
output. -/
def Command.Safe (now : Int64) (world : World) (output : Bytes) (command : Command) :
    CommandId -> Prop
  | .del => (forall key, key ∈ command.texts -> seen now world key = none) ∨
      24 + output.length ≤ maxReplyBytes
  | id => forall form, command.form (Database.momentOf world now) id = some form ->
      form.Idle now world ∨ HasRoom now world output form

/-- A command that throws before it has a reply. -/
def Command.Refused (now : Int64) (world : World) (command : Command) : CommandId -> Prop
  | .del => exists key, key ∈ command.texts ∧ Node.maxKeyLength < key.length
  | id => exists form, command.form (Database.momentOf world now) id = some form ∧
      LogRefuses now world form

/-- Whatever a lost reply leaves behind is no change. -/
def Harmless (now : Int64) (world : World) (output : Bytes) (command : Command) (report : Report)
    (id : CommandId) : Prop :=
  forall after, LosesReply command report id world output after -> Unchanged now world after

theorem safe_iff (other : id ≠ .del) : command.Safe now world output id <->
    forall form, command.form (Database.momentOf world now) id = some form ->
      form.Idle now world ∨ HasRoom now world output form := by
  cases id with
  | del => exact absurd rfl other
  | _ => exact Iff.rfl

theorem refused_iff (other : id ≠ .del) : command.Refused now world id <->
    exists form, command.form (Database.momentOf world now) id = some form ∧
      LogRefuses now world form := by
  cases id with
  | del => exact absurd rfl other
  | _ => exact Iff.rfl

/-- `+PONG` is the only reply that is appended without asking for space. -/
theorem answerReply_ne_pong (answer : Answer) : answerReply answer ≠ .pong := by
  have spaced : 0 < (answerReply answer).room := by
    cases answer with
    | done | flag | seconds => exact Nat.succ_pos _
    | text result | view result =>
        change 0 < (viewReply _).room
        unfold viewReply
        split <;> exact Nat.succ_pos _
    | number result =>
        change 0 < (numberReply _).room
        unfold numberReply
        split <;> exact Nat.succ_pos _
    | count result =>
        change 0 < (countReply _).room
        unfold countReply
        split <;> exact Nat.succ_pos _
    | value result =>
        change 0 < (valueReply _).room
        unfold valueReply
        split <;> exact Nat.succ_pos _
    | removed result =>
        change 0 < (removedReply _).room
        unfold removedReply
        split <;> exact Nat.succ_pos _
  intro pong
  rw [pong] at spaced
  cases spaced

/-! ## Losing the reply of `DEL` -/

theorem executeDel_ok (ran : executeDel command world = (.ok reply, after)) :
    command.texts = [] ∧ after = world ∨
      exists count, delLoop command.texts 0 world = (.ok count, after) ∧
        reply = .integer (Int64.ofNat count) := by
  unfold executeDel at ran
  split at ran
  case isTrue empty =>
    cases ran
    exact Or.inl ⟨empty, rfl⟩
  case isFalse =>
    rw [replying_eq] at ran
    rcases looped : delLoop command.texts 0 world with ⟨thrown | count, last⟩
    · rw [looped] at ran
      cases ran
    · rw [looped] at ran
      cases ran
      exact Or.inr ⟨count, rfl, rfl⟩

theorem delLoop_long {key : Bytes} (long : Node.maxKeyLength < key.length) {count : Nat} :
    forall {world deleted}, key ∈ keys -> delLoop keys deleted world ≠ (.ok count, after) := by
  induction keys with
  | nil => exact nofun
  | cons first keys ih =>
      intro world deleted inside ran
      rcases delLoop_cons ran with ⟨removed, middle, returned, rest⟩
      rcases List.mem_cons.mp inside with rfl | later
      · have turned : Database.del key world = (.error (.error .requestTooLarge), world) :=
          Database.findWritable_long long
        rw [turned] at returned
        cases returned
      · exact ih later rest

open Classical in
theorem performed_writes {name : Bytes} {plan : Option Entry -> Spec.Plan (Except Exn Answer)}
    {tooLarge : Bool} (ready : Ready world space) :
    (Spec.perform world.logging (Database.momentOf world now).steady space
      (.writes name plan tooLarge)).result =
      if LogRefuses now world (.writes name plan tooLarge) then .error (.error .requestTooLarge)
      else (plan (seen now world name)).result := by
  change (Spec.perform world.logging now space _).result = _
  unfold Spec.perform LogRefuses
  simp only [Database.seen_eq ready]
  split
  · rfl
  · rfl

section Still

variable (ready : Ready world space) (live : world.db.replaying = false)
  (still : forall n, world.steady.reading n = now)

include ready live still

theorem safe_del (safe : command.Safe now world output .del) :
    Harmless now world output command report .del := by
  intro after lost
  rcases lost.answered with ⟨reply, ran⟩
  rcases executeDel_ok ran with ⟨-, rfl⟩ | ⟨count, looped, rfl⟩
  · exact .refl now after
  · rcases safe with missing | room
    · exact unchanged_delLoop ready live still missing looped
    · exact absurd (Or.inr room) ((losesReply_iff ran).mp lost)

/-- `DEL` with a key that is there loses its reply where none has room, unless a
key is too long. -/
theorem harmless_del (healthy : world.Healthy) :
    Harmless now world output command report .del <->
      command.Safe now world output .del ∨ command.Refused now world .del := by
  constructor
  · intro harmless
    by_contra neither
    rcases not_or.mp neither with ⟨danger, refused⟩
    rcases not_or.mp danger with ⟨present, full⟩
    have short : forall key, key ∈ command.texts -> key.length ≤ Node.maxKeyLength :=
      fun key inside => Nat.not_lt.mp fun long => refused ⟨key, inside, long⟩
    rcases delLoop_returns 0 ready healthy live still short with ⟨count, after, looped⟩
    have named : command.texts ≠ [] := by
      intro empty
      rw [empty] at present
      exact present nofun
    have ran : handler command report .del world = (.ok (.integer (Int64.ofNat count)), after) := by
      change executeDel command world = _
      rw [executeDel, if_neg named, replying_eq, looped]
      rfl
    have lost := (losesReply_iff ran).mpr fun fits => full (fits.resolve_left nofun)
    refine present fun key inside => ?_
    rw [<- (harmless after lost).seen]
    exact seen_delLoop ready live still looped key (Or.inl inside)
  · rintro (safe | ⟨key, inside, long⟩) after lost
    · exact safe_del ready live still safe after lost
    · rcases lost.answered with ⟨reply, ran⟩
      rcases executeDel_ok ran with ⟨empty, -⟩ | ⟨count, looped, -⟩
      · rw [empty] at inside
        cases inside
      · exact absurd looped (delLoop_long long inside)

/-! ## Losing the reply of another command -/

/-- A command that lost its reply made its call, which returned an answer without
room for a reply, or changed nothing. -/
theorem lost_call (other : id ≠ .del) (lost : LosesReply command report id world output after) :
    Unchanged now world after ∨
      exists call key form answer, soleCall command id = some call ∧ call.key = some key ∧
        call.form (Database.momentOf world now) = some form ∧
        call.run world = (.ok answer, after) ∧ ¬ Fits (answerReply answer) output := by
  rcases lost.answered with ⟨reply, ran⟩
  rcases @handler_oneCall command report id other with
    ⟨-, abstains⟩ | ⟨call, key, sole, named, makes⟩
  · have same : after = world := by rw [<- abstains world, ran]
    rw [same]
    exact Or.inl (.refl now world)
  · rcases makes world with same | refused
    · rw [ran] at same
      rcases returned : call.run world with ⟨thrown | answer, last⟩
      · rw [returned] at same
        cases same
      · rw [returned] at same
        cases same
        rcases Call.carried ready live still named returned with ⟨form, formed, -, -⟩
        exact Or.inr ⟨call, key, form, answer, sole, named, formed, returned,
          (losesReply_iff ran).mp lost⟩
    · rw [ran] at refused
      exact Or.inl (Call.unchanged_refused ready live still named refused)

theorem safe_form (other : id ≠ .del) (safe : command.Safe now world output id) :
    Harmless now world output command report id := by
  intro after lost
  rcases lost_call ready live still other lost with
    unchanged | ⟨call, key, form, answer, sole, named, formed, returned, large⟩
  · exact unchanged
  have formedHere : command.form (Database.momentOf world now) id = some form := by
    rw [Command.form, sole]
    exact formed
  rcases (safe_iff other).mp safe form formedHere with idle | room
  · exact (Call.unchanged_iff ready live still named formed returned).mpr idle
  · rcases Call.carried ready live still named returned with ⟨again, same, result, -⟩
    cases Option.some.inj (same.symm.trans formed)
    cases form with
    | answers | reads =>
        exact (Call.unchanged_iff ready live still named formed returned).mpr trivial
    | writes name plan tooLarge =>
        rw [Database.perform_writes, <- Database.seen_eq ready] at result
        exact absurd (Or.inr (room answer result)) large

/-- A command whose plan has an answer without room for the reply loses the reply,
unless the log refuses the records. -/
theorem harmless_form (healthy : world.Healthy) (other : id ≠ .del) :
    Harmless now world output command report id <->
      command.Safe now world output id ∨ command.Refused now world id := by
  constructor
  · intro harmless
    refine or_iff_not_imp_right.mpr fun accepted => (safe_iff other).mpr fun form formed => ?_
    refine or_iff_not_imp_right.mpr fun full => ?_
    cases form with
    | answers | reads => exact trivial
    | writes name plan tooLarge =>
        simp only [HasRoom, not_forall] at full
        rcases full with ⟨answer, result, large⟩
        have takes : ¬ LogRefuses now world (.writes name plan tooLarge) :=
          fun refuses => accepted ((refused_iff other).mpr ⟨_, formed, refuses⟩)
        rcases Option.bind_eq_some_iff.mp formed with ⟨call, sole, formed⟩
        rcases @handler_oneCall command report id other with
          ⟨none, -⟩ | ⟨made, key, same, named, makes⟩
        · rw [none] at sole
          cases sole
        cases Option.some.inj (same.symm.trans sole)
        rcases Call.performs formed ready healthy live ⟨still, rfl, rfl⟩ with ⟨after, -, -, ran, -⟩
        have returned : call.run world = (.ok answer, after) := by
          rw [ran, performed_writes ready, if_neg takes, result]
        have handled : handler command report id world = (.ok (answerReply answer), after) := by
          rcases makes world with equal | refused
          · rw [equal, returned]
            rfl
          · rw [returned] at refused
            cases refused
        have lost := (losesReply_iff handled).mpr fun fits =>
          large (fits.resolve_left (answerReply_ne_pong answer))
        exact (Call.unchanged_iff ready live still named formed returned).mp (harmless after lost)
  · rintro (safe | refused) after lost
    · exact safe_form ready live still other safe after lost
    · rcases (refused_iff other).mp refused with ⟨form, formed, refuses⟩
      rcases lost_call ready live still other lost with
        unchanged | ⟨call, key, again, answer, sole, -, here, returned, -⟩
      · exact unchanged
      rw [Command.form, sole] at formed
      rcases Call.performs formed ready healthy live ⟨still, rfl, rfl⟩ with ⟨last, -, -, ran, -⟩
      cases form with
      | answers | reads => exact refuses.elim
      | writes name plan tooLarge =>
          rw [performed_writes ready, if_pos refuses, returned] at ran
          cases ran

end Still

/-- When a command has nothing to do or its reply has room, losing the reply does
no harm.  Where neither memory nor the log fail this is exact, apart from commands
that throw before they have a reply. -/
theorem lost_reply_harmless_iff (reachable : Database.Reachable world)
    (still : forall n, world.steady.reading n = now) (command : Command) (report : Report)
    (id : CommandId) (output : Bytes) :
    (command.Safe now world output id -> Harmless now world output command report id) ∧
      (world.Healthy -> (Harmless now world output command report id <->
        command.Safe now world output id ∨ command.Refused now world id)) := by
  rcases reachable.idle with ⟨space, ready⟩
  by_cases isDel : id = .del
  · subst isDel
    exact ⟨safe_del ready reachable.live still, harmless_del ready reachable.live still⟩
  · exact ⟨safe_form ready reachable.live still isDel,
      fun healthy => harmless_form ready reachable.live still healthy isDel⟩

/-- An output to which nothing can be appended. -/
def fullOutput : Bytes :=
  List.replicate maxReplyBytes 0

theorem losesReply_full (answered : (handler command report id world).1 = .ok reply)
    (some_ : 0 < reply.room) :
    LosesReply command report id world fullOutput (handler command report id world).2 := by
  have full : fullOutput.length = maxReplyBytes := List.length_replicate
  refine (losesReply_iff (Prod.ext answered rfl)).mpr ?_
  rintro (rfl | room)
  · exact absurd some_ (by decide)
  · omega

def getCommand (key : Bytes) : Command :=
  commandOn (ascii "get") key .get

def popCommand (key : Bytes) : Command :=
  commandOn (ascii "lpop") key .listPopLeft

/-- A value cannot be returned, and neither can the news that there is no list.  In the
second case an expired key has been removed. -/
theorem lost_replies_harmless :
    (seen 5000 timed [97]).isSome = true ∧ timed.db.findNode [98] = some 1 ∧
      seen 5000 timed [98] = none ∧
      (exists after, LosesReply (getCommand [97]) emptyReport .get timed fullOutput after ∧
        Unchanged 5000 timed after) ∧
      exists after, LosesReply (popCommand [98]) emptyReport .listPopLeft timed fullOutput after ∧
        after.db.findNode [98] = none ∧ Unchanged 5000 timed after := by
  have value : (handler (getCommand [97]) emptyReport .get timed).1 = .ok (.bulk [55]) := by
    decide +kernel
  have nothing : (handler (popCommand [98]) emptyReport .listPopLeft timed).1 = .ok .null := by
    decide +kernel
  have unseen : seen 5000 timed [98] = none := by decide +kernel
  have lostValue := losesReply_full value (by decide)
  have lostNothing := losesReply_full nothing (by decide)
  have harmless := fun command id => (lost_reply_harmless_iff Database.reachable_timed
    Database.steady_timed command emptyReport id fullOutput).1
  refine ⟨by decide +kernel, by decide +kernel, unseen, ⟨_, lostValue, ?_⟩, _, lostNothing,
    by decide +kernel, ?_⟩
  · refine harmless _ .get (fun form formed => ?_) _ lostValue
    cases formed
    exact Or.inl trivial
  · refine harmless _ .listPopLeft (fun form formed => Or.inl ?_) _ lostNothing
    cases formed
    change (Form.writing Answer.value [98] (Spec.planPop [98] true) false).Idle 5000 timed
    rw [Form.writing, if_neg (by decide), Database.Form.idle_writes, unseen]
    exact ⟨fun _ => rfl, rfl⟩

def oneElement : World :=
  ((Call.pushLeft [97] (.text [98])).run Database.calm).2

/-- `LPOP` takes the element off the list and then has no room for it. -/
theorem lost_pop :
    exists after, LosesReply (commandOn (ascii "lpop") [97] .listPopLeft) emptyReport .listPopLeft
        oneElement fullOutput after ∧
      (seen 0 oneElement [97]).isSome = true ∧ seen 0 after [97] = none ∧
      ¬ Unchanged 0 oneElement after := by
  have answered : (handler (popCommand [97]) emptyReport .listPopLeft oneElement).1 =
      .ok (.bulk [98]) := by decide +kernel
  have before : (seen 0 oneElement [97]).isSome = true := by decide +kernel
  have gone : seen 0 (handler (popCommand [97]) emptyReport .listPopLeft oneElement).2 [97] =
      none := by decide +kernel
  refine ⟨(handler (popCommand [97]) emptyReport .listPopLeft oneElement).2,
    losesReply_full answered (by decide), before, gone, fun unchanged => ?_⟩
  rw [<- unchanged.seen, gone] at before
  cases before

end Resp

end Reddish
