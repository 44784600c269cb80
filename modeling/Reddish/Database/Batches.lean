import Reddish.Database.Maintenance
import Reddish.Database.Transparency

namespace Reddish

open Library Numeral

/-!
# Many values in one call

`push_texts` and `hash_set_texts` write many values in one call, through code
of their own.  They are compared with the single calls they stand for, made one
after another at the same instant.
-/

/-! ## Calls one after another -/

namespace Spec

open Database (Form Answer)

/-- What a call with a form may leave behind where nothing fails: what the form
says, or nothing at all after an exception. -/
def Performed (logging : Bool) (now : Int64) (space : Keyspace) (form : Form)
    (result : Except Exn Answer) (later : Keyspace) (records : List Wal.Record) : Prop :=
  result = (perform logging now space form).result ∧
    (later = (perform logging now space form).space ∧
        records = (perform logging now space form).records ∨
      (exists thrown, result = .error thrown) ∧ later = space ∧ records = [])

/-- Calls made one after another, whatever their results. -/
inductive PerformedAll (logging : Bool) (now : Int64) :
    Keyspace -> List Form -> List (Except Exn Answer) -> Keyspace -> List Wal.Record -> Prop where
  | nil (space : Keyspace) : PerformedAll logging now space [] [] space []
  | cons {space middle last : Keyspace} {form : Form} {forms : List Form}
      {result : Except Exn Answer} {results : List (Except Exn Answer)}
      {records more : List Wal.Record}
      (first : Performed logging now space form result middle records)
      (rest : PerformedAll logging now middle forms results last more) :
      PerformedAll logging now space (form :: forms) (result :: results) last (records ++ more)

end Spec

namespace Database

open World (Healthy)

/-- Calls made one after another, whatever their results. -/
def performAll : List Call -> World -> List (Except Exn Answer) × World
  | [], world => ([], world)
  | call :: calls, world =>
      ((call.run world).1 :: (performAll calls (call.run world).2).1,
        (performAll calls (call.run world).2).2)

/-- A state at an instant, in an environment in which nothing fails. -/
structure Calm (now : Int64) (world : World) (space : Keyspace) : Prop where
  ready : Ready world space
  healthy : Healthy world
  live : world.db.replaying = false
  still : forall n, world.steady.reading n = now

variable {now : Int64} {world : World} {space : Keyspace} {call : Call} {form : Form}

theorem Calm.run (calm : Calm now world space)
    (formed : forall moment, call.form moment = some form) :
    exists later records,
      Spec.Performed world.logging now space form (call.run world).1 later records ∧
      Calm now (call.run world).2 later ∧ (call.run world).2.logging = world.logging ∧
      (call.run world).2.records = world.records ++ if world.logging then records else [] := by
  have stands : At world ⟨now, world.wall.reading 0, world.wall.reading 1⟩ := ⟨calm.still, rfl, rfl⟩
  rcases Call.performs (formed _) calm.ready calm.healthy calm.live stands with
    ⟨after, later, records, ran, healthy, reached, same⟩
  have live : after.db.replaying = false := reached.evolves.replaying.trans calm.live
  refine ⟨later, records, ?_⟩
  rw [ran]
  refine ⟨⟨rfl, same⟩, ⟨reached.ready, healthy, live, ?_⟩, ?_, reached.logged⟩
  · intro n
    rcases reached.evolves.steady with ⟨skipped, shift⟩
    rw [shift]
    exact calm.still _
  · exact reached.evolves.logging

theorem Calm.performAll {calls : List Call} {forms : List Form} (calm : Calm now world space)
    (formed : List.Forall₂ (fun call form => forall moment, Call.form moment call = some form)
      calls forms) :
    exists later records,
      Spec.PerformedAll world.logging now space forms (performAll calls world).1 later records ∧
      Calm now (performAll calls world).2 later ∧
      (performAll calls world).2.records =
        world.records ++ if world.logging then records else [] := by
  induction formed generalizing world space with
  | nil => exact ⟨space, [], .nil space, calm, by simp [Database.performAll]⟩
  | @cons call form calls forms isForm formed ih =>
      rcases calm.run isForm with ⟨middle, records, first, calm, logging, logged⟩
      rcases ih calm with ⟨last, more, rest, calm, loggedMore⟩
      rw [logging] at rest loggedMore
      refine ⟨last, records ++ more, .cons first rest, calm, ?_⟩
      change (Database.performAll calls (call.run world).2).2.records = _
      rw [loggedMore, logged]
      split
      · exact List.append_assoc ..
      · simp

end Database

/-! ## After the first lookup -/

namespace Spec

open Database (Form Answer)

variable {now : Int64} {key : Bytes} {found : Option Entry} {space later : Keyspace}
variable {records : List Wal.Record} {logging tooLarge : Bool} {result : Except Exn Answer}

/-- A key that has just been looked up: looking it up again changes nothing. -/
def Settled (now : Int64) (key : Bytes) (found : Option Entry) (space : Keyspace) : Prop :=
  writable (some now) key space = ⟨found, space, []⟩

theorem settled_missing (missing : space.find key = none) : Settled now key none space := by
  unfold Settled writable
  rw [missing]

theorem settled_put {entry : Entry} (fresh : expired (some now) entry = false) :
    Settled now entry.key (some entry) (space.put entry) := by
  unfold Settled writable
  rw [Keyspace.find_put, if_pos rfl]
  simp only
  rw [if_neg (Bool.eq_false_iff.mp fresh), Keyspace.touch_put]

/-- What a lookup returns has not expired. -/
theorem fresh_of_writable {entry : Entry}
    (result : (writable (some now) key space).result = some entry) :
    expired (some now) entry = false := by
  unfold writable at result
  cases known : space.find key with
  | none =>
      rw [known] at result
      cases result
  | some other =>
      rw [known] at result
      simp only at result
      split at result
      case isTrue => cases result
      case isFalse fresh =>
        cases result
        exact Bool.eq_false_iff.mpr fresh

theorem settled_writable : Settled now key (writable (some now) key space).result
    (writable (some now) key space).space := by
  cases result : (writable (some now) key space).result with
  | none => exact settled_missing (writable_none result)
  | some entry =>
      rw [writable_some result, <- key_of_writable result]
      exact settled_put (fresh_of_writable result)

/-- The entry with another value and the same deadline. -/
def restored (key : Bytes) (value : Stored) (found : Option Entry) : Entry :=
  ⟨key, value, found.bind Entry.deadline⟩

theorem fresh_restored (settled : Settled now key found space) (value : Stored) :
    expired (some now) (restored key value found) = false := by
  cases found with
  | none => rfl
  | some entry =>
      have fresh := @fresh_of_writable now key space entry (by rw [settled])
      exact fresh

theorem Settled.restore (settled : Settled now key found space) (value : Stored) :
    Settled now key (some (restored key value found)) (space.put (restored key value found)) :=
  settled_put (fresh_restored settled value)

theorem put_restored {first second : Stored} :
    (space.put (restored key first found)).put
        (restored key second (some (restored key first found))) =
      space.put (restored key second found) :=
  Keyspace.put_put rfl

/-- A call on a settled key follows its plan. -/
theorem perform_settled {plan : Option Entry -> Plan (Except Exn Answer)}
    (settled : Settled now key found space) :
    perform logging now space (.writes key plan tooLarge) =
      if logging = true ∧ tooLarge = true ∧ (plan found).records ≠ [] then
        ⟨.error (.error .requestTooLarge), space, []⟩
      else ⟨(plan found).result, (plan found).effect.apply key ⟨found, space, []⟩,
        (plan found).records⟩ := by
  unfold perform
  simp only
  rw [settled]
  rfl

/-- The first of several calls on a key looks it up for all of them. -/
theorem perform_start {plan : Option Entry -> Plan (Except Exn Answer)} :
    perform logging now space (.writes key plan tooLarge) =
      ⟨(perform logging now (writable (some now) key space).space
          (.writes key plan tooLarge)).result,
        (perform logging now (writable (some now) key space).space
          (.writes key plan tooLarge)).space,
        (writable (some now) key space).records ++
          (perform logging now (writable (some now) key space).space
            (.writes key plan tooLarge)).records⟩ := by
  rw [perform_settled settled_writable]
  have alike : forall effect : Effect, effect.apply key
      ⟨(writable (some now) key space).result, (writable (some now) key space).space, []⟩ =
        effect.apply key (writable (some now) key space) := by
    intro effect
    cases effect <;> rfl
  unfold perform
  simp only [alike]
  split
  · simp
  · rfl

/-! ## Pushes -/

def pushForm (key : Bytes) (front : Bool) (value : Value) : Form :=
  .writes key (fun found => (planPush key value front found).map fun result => .ok (.count result))
    false

def pushTextsForm (key : Bytes) (front : Bool) (values : List Bytes) : Form :=
  .writes key
    (fun found => (planPushTexts key values front found).map fun result => .ok (.count result)) false

variable {items : List Value} {value : Value} {front : Bool} {code : ErrorCode}

/-- The bytes that the elements of a list take. -/
def packedSize (items : List Value) : Nat :=
  (Node.encodeItems items).length

theorem packedSize_eq : packedSize items = (items.map Pack.encodedSize).sum := by
  unfold packedSize
  induction items with
  | nil => rfl
  | cons value items ih =>
      rw [Node.encodeItems_cons, List.length_append, Pack.length_encode, ih]
      rfl

theorem packedSize_extend {values : List Value} :
    packedSize (extend front values items) = packedSize items + packedSize values := by
  rw [packedSize_eq, packedSize_eq, packedSize_eq]
  unfold extend
  split
  · rw [List.map_append, List.sum_append, List.map_reverse, List.sum_reverse, Nat.add_comm]
  · rw [List.map_append, List.sum_append]

theorem packedSize_cons {values : List Value} :
    packedSize (value :: values) = packedSize [value] + packedSize values := by
  rw [packedSize_eq, packedSize_eq, packedSize_eq]
  simp

theorem packedSize_single : packedSize [value] = Pack.encodedSize value := by
  rw [packedSize_eq]
  simp

theorem extend_extend {first second : List Value} :
    extend front second (extend front first items) = extend front (first ++ second) items := by
  unfold extend
  split
  · rw [List.reverse_append, List.append_assoc]
  · rw [List.append_assoc]

theorem perform_push {plan : Plan (Except ErrorCode Nat)} (settled : Settled now key found space)
    (planned : planPush key value front found = plan) :
    perform logging now space (pushForm key front value) =
      ⟨.ok (.count plan.result), plan.effect.apply key ⟨found, space, []⟩, plan.records⟩ := by
  rw [pushForm, perform_settled settled, if_neg (fun impossible => by cases impossible.2.1), planned]
  rfl

theorem push_wrong (settled : Settled now key found space) (wrong : listOf found = .error code) :
    perform logging now space (pushForm key front value) =
      ⟨.ok (.count (.error code)), space, []⟩ := by
  have planned : planPush key value front found = .answer (.error code) := by
    unfold planPush
    rw [wrong]
  exact perform_push settled planned

theorem push_full (settled : Settled now key found space) (isList : listOf found = .ok items)
    (full : Node.listLimit < packedSize items + packedSize [value]) :
    perform logging now space (pushForm key front value) =
      ⟨.ok (.count (.error .requestTooLarge)), space, []⟩ := by
  rw [packedSize_single] at full
  have planned : planPush key value front found = .answer (.error .requestTooLarge) := by
    unfold planPush
    rw [isList]
    exact if_pos full
  exact perform_push settled planned

theorem push_fits (settled : Settled now key found space) (isList : listOf found = .ok items)
    (fits : packedSize items + packedSize [value] ≤ Node.listLimit) :
    perform logging now space (pushForm key front value) =
      ⟨.ok (.count (.ok (items.length + 1))),
        space.put (restored key (.list (extend front [value] items)) found),
        [record (.push front) (key :: value.logged)]⟩ := by
  rw [packedSize_single] at fits
  have planned : planPush key value front found = ⟨.ok (items.length + 1),
      .store (.list (extend front [value] items)) true,
      [record (.push front) (key :: value.logged)]⟩ := by
    unfold planPush
    rw [isList]
    exact if_neg (Nat.not_lt.mpr fits)
  exact perform_push settled planned

/-- A call that counts elements succeeded. -/
def Succeeded (result : Except Exn Answer) : Prop :=
  exists count, result = .ok (.count (.ok count))

theorem not_succeeded : ¬ Succeeded (.ok (.count (.error code))) := by
  rintro ⟨count, impossible⟩
  cases impossible

/-- A call that returned left the outcome of its form behind. -/
theorem Performed.returned {form : Form} {answer : Answer}
    (performed : Performed logging now space form result later records)
    (returns : (perform logging now space form).result = .ok answer) :
    result = .ok answer ∧ later = (perform logging now space form).space ∧
      records = (perform logging now space form).records := by
  rcases performed with ⟨equal, same | ⟨⟨thrown, failed⟩, -⟩⟩
  · exact ⟨equal.trans returns, same⟩
  · rw [failed, returns] at equal
    cases equal

def pushForms (key : Bytes) (front : Bool) (values : List Bytes) : List Form :=
  values.map fun value => pushForm key front (.text value)

/-- Calls that all refuse give the same answer and change nothing. -/
theorem PerformedAll.refused {forms : List Form} {results : List (Except Exn Answer)}
    {answer : Answer}
    (refuses : forall form, form ∈ forms -> perform logging now space form = ⟨.ok answer, space, []⟩)
    (all : PerformedAll logging now space forms results later records) :
    forall result, result ∈ results -> result = .ok answer := by
  induction forms generalizing results records with
  | nil =>
      cases all
      exact fun _ inside => absurd inside List.not_mem_nil
  | cons form forms ih =>
      cases all with
      | cons first rest =>
          have refused := refuses form List.mem_cons_self
          rcases first.returned (by rw [refused]) with ⟨rfl, rfl, -⟩
          rw [refused] at rest
          intro result inside
          rcases List.mem_cons.mp inside with rfl | inside
          · rfl
          · exact ih (fun form inside => refuses form (List.mem_cons_of_mem _ inside)) rest
              result inside

/-- Pushes on a key that holds something else all fail. -/
theorem pushes_wrong {values : List Bytes} {results : List (Except Exn Answer)}
    (settled : Settled now key found space) (wrong : listOf found = .error code)
    (all : PerformedAll logging now space (pushForms key front values) results later records) :
    forall result, result ∈ results -> result = .ok (.count (.error code)) := by
  refine PerformedAll.refused (fun form inside => ?_) all
  rcases List.mem_map.mp inside with ⟨value, -, rfl⟩
  exact push_wrong settled wrong

structure Pushed (key : Bytes) (front : Bool) (values : List Bytes) (items : List Value)
    (found : Option Entry) (space later : Keyspace) (results : List (Except Exn Answer))
    (records : List Wal.Record) : Prop where
  count : results.getLast? = some (.ok (.count (.ok (items.length + values.length))))
  list : later =
    space.put (restored key (.list (extend front (values.map Value.text) items)) found)
  logged : records = values.map fun value => record (.push front) [key, ascii "s", value]

/-- A push on a list fails for its size only. -/
theorem pushes_codes {values : List Bytes} {results : List (Except Exn Answer)}
    (settled : Settled now key found space) (isList : listOf found = .ok items)
    (all : PerformedAll logging now space (pushForms key front values) results later records) :
    forall result, result ∈ results -> ¬ Succeeded result ->
      result = .ok (.count (.error .requestTooLarge)) := by
  induction values generalizing space found items results records with
  | nil =>
      cases all
      exact nofun
  | cons value values ih =>
      cases all with
      | cons first rest =>
          intro result inside failed
          by_cases fits : packedSize items + packedSize [.text value] ≤ Node.listLimit
          · have done := @push_fits now key found space logging items (.text value) front settled
              isList fits
            rcases first.returned (by rw [done]) with ⟨rfl, rfl, -⟩
            rw [done] at rest
            rcases List.mem_cons.mp inside with rfl | inside
            · exact absurd ⟨_, rfl⟩ failed
            · exact ih (settled.restore _) rfl rest result inside failed
          · have refused := @push_full now key found space logging items (.text value) front settled
              isList (Nat.not_le.mp fits)
            rcases first.returned (by rw [refused]) with ⟨rfl, rfl, -⟩
            rw [refused] at rest
            rcases List.mem_cons.mp inside with rfl | inside
            · rfl
            · exact ih settled isList rest result inside failed

theorem Pushed.cons {value : Bytes} {values : List Bytes} {results : List (Except Exn Answer)}
    {more : List Wal.Record}
    (pushed : Pushed key front values (extend front [.text value] items)
      (restored key (.list (extend front [.text value] items)) found)
      (space.put (restored key (.list (extend front [.text value] items)) found)) later results more) :
    Pushed key front (value :: values) items found space later (result :: results)
      ([record (.push front) [key, ascii "s", value]] ++ more) where
  count := by
    rw [List.getLast?_cons, pushed.count]
    have length : (extend front [Value.text value] items).length = items.length + 1 := by
      unfold extend
      split
      · simp
      · simp
    rw [length, List.length_cons, Nat.add_assoc, Nat.add_comm 1]
    rfl
  list := by
    rw [pushed.list, put_restored, extend_extend]
    rfl
  logged := by
    rw [pushed.logged]
    rfl

/-- Single pushes succeed if there is room for all of them, and then they build
the list. -/
theorem pushes {values : List Bytes} {results : List (Except Exn Answer)}
    (settled : Settled now key found space) (isList : listOf found = .ok items)
    (within : values = [] -> packedSize items ≤ Node.listLimit)
    (all : PerformedAll logging now space (pushForms key front values) results later records) :
    ((forall result, result ∈ results -> Succeeded result) <->
      packedSize items + packedSize (values.map Value.text) ≤ Node.listLimit) ∧
    (packedSize items + packedSize (values.map Value.text) ≤ Node.listLimit -> values ≠ [] ->
      Pushed key front values items found space later results records) := by
  induction values generalizing space found items results records with
  | nil =>
      cases all
      refine ⟨?_, fun _ never => absurd rfl never⟩
      exact ⟨fun _ => within rfl, nofun⟩
  | cons value values ih =>
      rw [List.map_cons, packedSize_cons]
      cases all with
      | @cons _ middle _ _ _ result results records more first rest =>
          by_cases fits : packedSize items + packedSize [.text value] ≤ Node.listLimit
          · have done := @push_fits now key found space logging items (.text value) front settled
              isList fits
            rcases first.returned (by rw [done]) with ⟨rfl, rfl, rfl⟩
            rw [done] at rest ⊢
            have grown : packedSize (extend front [.text value] items) =
                packedSize items + packedSize [.text value] := packedSize_extend
            rcases ih (settled.restore _) rfl
              (fun _ => by rw [grown]; exact fits) rest with ⟨success, pushed⟩
            rw [grown] at success pushed
            refine ⟨?_, ?_⟩
            · rw [List.forall_mem_cons, success, Nat.add_assoc]
              exact ⟨And.right, fun total => ⟨⟨_, rfl⟩, total⟩⟩
            · intro total _
              cases values with
              | nil =>
                  cases rest
                  exact ⟨rfl, rfl, rfl⟩
              | cons other others =>
                  exact (pushed (by rw [Nat.add_assoc]; exact total) (by simp)).cons
          · have refused := @push_full now key found space logging items (.text value) front settled
              isList (Nat.not_le.mp fits)
            rcases first.returned (by rw [refused]) with ⟨rfl, rfl, rfl⟩
            refine ⟨⟨?_, ?_⟩, ?_⟩
            · intro success
              exact absurd (success _ List.mem_cons_self) not_succeeded
            · intro total
              omega
            · intro total
              omega

theorem perform_pushTexts {values : List Bytes} {plan : Plan (Except ErrorCode Nat)}
    (settled : Settled now key found space)
    (planned : planPushTexts key values front found = plan) :
    perform logging now space (pushTextsForm key front values) =
      ⟨.ok (.count plan.result), plan.effect.apply key ⟨found, space, []⟩, plan.records⟩ := by
  rw [pushTextsForm, perform_settled settled, if_neg (fun impossible => by cases impossible.2.1),
    planned]
  rfl

theorem pushTexts_wrong {values : List Bytes} (settled : Settled now key found space)
    (wrong : listOf found = .error code) :
    perform logging now space (pushTextsForm key front values) =
      ⟨.ok (.count (.error code)), space, []⟩ := by
  have planned : planPushTexts key values front found = .answer (.error code) := by
    unfold planPushTexts
    rw [wrong]
  exact perform_pushTexts settled planned

theorem pushTexts_full {values : List Bytes} (settled : Settled now key found space)
    (isList : listOf found = .ok items) (nonempty : values ≠ [])
    (full : Node.listLimit < packedSize items + packedSize (values.map Value.text)) :
    perform logging now space (pushTextsForm key front values) =
      ⟨.ok (.count (.error .requestTooLarge)), space, []⟩ := by
  have planned : planPushTexts key values front found = .answer (.error .requestTooLarge) := by
    unfold planPushTexts
    rw [isList]
    simp only
    rw [if_neg nonempty]
    exact if_pos full
  exact perform_pushTexts settled planned

theorem pushTexts_fits {values : List Bytes} (settled : Settled now key found space)
    (isList : listOf found = .ok items) (nonempty : values ≠ [])
    (fits : packedSize items + packedSize (values.map Value.text) ≤ Node.listLimit) :
    perform logging now space (pushTextsForm key front values) =
      ⟨.ok (.count (.ok (items.length + values.length))),
        space.put (restored key (.list (extend front (values.map Value.text) items)) found),
        values.map fun value => record (.push front) [key, ascii "s", value]⟩ := by
  have planned : planPushTexts key values front found = ⟨.ok (items.length + values.length),
      .store (.list (extend front (values.map Value.text) items)) true,
      values.map fun value => record (.push front) [key, ascii "s", value]⟩ := by
    unfold planPushTexts
    rw [isList]
    simp only
    rw [if_neg nonempty]
    exact if_neg (Nat.not_lt.mpr fits)
  exact perform_pushTexts settled planned

/-- The first of several calls on a key looks it up for all of them. -/
theorem PerformedAll.start {forms : List Form} {results : List (Except Exn Answer)}
    {plan : Option Entry -> Plan (Except Exn Answer)} {answer : Answer}
    (returns : (perform logging now (writable (some now) key space).space
      (.writes key plan tooLarge)).result = .ok answer)
    (all : PerformedAll logging now space (.writes key plan tooLarge :: forms) results later
      records) :
    exists more, records = (writable (some now) key space).records ++ more ∧
      PerformedAll logging now (writable (some now) key space).space
        (.writes key plan tooLarge :: forms) results later more := by
  cases all with
  | @cons _ middle _ _ _ result results first more performed rest =>
      have whole := @perform_start now key space logging tooLarge plan
      rcases performed.returned (by rw [whole]; exact returns) with ⟨isResult, isSpace, isRecords⟩
      rw [whole] at isSpace isRecords
      refine ⟨_, ?_, .cons ⟨isResult.trans returns.symm, Or.inl ⟨isSpace, rfl⟩⟩ rest⟩
      rw [isRecords, List.append_assoc]

end Spec

namespace Database

variable {now : Int64} {world after : World} {space later : Keyspace} {call : Call} {key : Bytes}
variable {front : Bool} {values : List Bytes} {records : List Wal.Record}

def Call.push (front : Bool) (key value : Bytes) : Call :=
  if front then .pushLeft key (.text value) else .pushRight key (.text value)

theorem Call.form_push {value : Bytes} {moment : Moment}
    (short : key.length ≤ Node.maxKeyLength) :
    (Call.push front key value).form moment = some (Spec.pushForm key front (.text value)) := by
  unfold Call.push
  cases front with
  | true =>
      rw [if_pos rfl, Call.form, Form.writing, if_neg (Nat.not_lt.mpr short)]
      rfl
  | false =>
      rw [if_neg Bool.false_ne_true, Call.form, Form.writing, if_neg (Nat.not_lt.mpr short)]
      rfl

/-- Two states that hold the same entries in the same order and have logged the
same records. -/
structure SameState (left right : World) : Prop where
  entries : left.db.entries = right.db.entries
  total : left.db.keyTotal = right.db.keyTotal
  records : left.records = right.records

/-- A call on a key had no effect, except that the key may have been found to
have expired. -/
structure NoEffect (now : Int64) (key : Bytes) (world after : World) : Prop where
  visible : forall probe, seen now after probe = seen now world probe
  logged : after.records = world.records ∨
    after.records = world.records ++ [Spec.record .del [key]] ∧ seen now world key = none ∧
      world.db.lookup key ≠ none

theorem NoEffect.of_lookup (calm : Calm now world space) (done : Calm now after later)
    (lookup : later = space ∧ records = [] ∨ later = (Spec.writable (some now) key space).space ∧
      records = (Spec.writable (some now) key space).records)
    (logged : after.records = world.records ++ if world.logging then records else []) :
    NoEffect now key world after := by
  have visible : Spec.LooksLike now later space := by
    rcases lookup with ⟨rfl, -⟩ | ⟨rfl, -⟩
    · exact fun _ => rfl
    · exact Spec.looksLike_writable
  have removed : records = [] ∨ records = [Spec.record .del [key]] ∧
      (Spec.writable (some now) key space).result = none ∧ space.find key ≠ none := by
    rcases lookup with ⟨-, rfl⟩ | ⟨-, rfl⟩
    · exact Or.inl rfl
    · unfold Spec.writable
      cases space.find key with
      | none => exact Or.inl rfl
      | some entry =>
          simp only
          split
          · exact Or.inr ⟨rfl, rfl, Option.some_ne_none entry⟩
          · exact Or.inl rfl
  refine ⟨?_, ?_⟩
  · intro probe
    rw [seen, seen, <- done.ready.rep.find_eq, <- calm.ready.rep.find_eq]
    exact visible probe
  · rw [logged]
    rcases removed with rfl | ⟨rfl, result, known⟩
    · exact Or.inl (by simp)
    · split
      · refine Or.inr ⟨rfl, ?_, ?_⟩
        · rw [seen, <- calm.ready.rep.find_eq]
          exact Spec.result_writable.symm.trans result
        · rw [<- calm.ready.rep.find_eq]
          exact known
      · exact Or.inl (List.append_nil _)

/-- Single pushes, one after another. -/
def pushSingly (key : Bytes) (front : Bool) (values : List Bytes) (world : World) :
    List (Except Exn Answer) × World :=
  performAll (values.map (Call.push front key)) world

theorem length_performAll (calls : List Call) (world : World) :
    (performAll calls world).1.length = calls.length := by
  induction calls generalizing world with
  | nil => rfl
  | cons call calls ih => exact congrArg Nat.succ (ih _)

/-- Of several calls one is the first. -/
theorem exists_performed {calls : List Call} (nonempty : calls ≠ []) :
    exists result, result ∈ (performAll calls world).1 := by
  refine List.exists_mem_of_ne_nil _ fun none => nonempty ?_
  rw [<- List.length_eq_zero_iff, <- length_performAll calls world, none]
  rfl

/-- Calls that are all refused for the same reason. -/
theorem performAll_refused {calls : List Call} {thrown : Exn} (calm : Calm now world space)
    (refused : forall call, call ∈ calls -> forall moment,
      call.form moment = some (.answers (.error thrown))) :
    forall result, result ∈ (performAll calls world).1 -> result = .error thrown := by
  induction calls generalizing world space with
  | nil => exact nofun
  | cons call calls ih =>
      intro result inside
      rcases calm.run (refused call List.mem_cons_self) with ⟨later, records, ⟨result', -⟩, calm, -⟩
      rcases List.mem_cons.mp inside with rfl | inside
      · exact result'
      · exact ih calm
          (fun call inside => refused call (List.mem_cons_of_mem _ inside)) result inside

theorem Call.form_push_long {value : Bytes} {moment : Moment}
    (long : Node.maxKeyLength < key.length) :
    (Call.push front key value).form moment = some (.answers (.error (.error .requestTooLarge))) := by
  unfold Call.push
  cases front with
  | true => rw [if_pos rfl, Call.form, Form.writing, if_pos long]
  | false => rw [if_neg Bool.false_ne_true, Call.form, Form.writing, if_pos long]

theorem Calm.refused {result : Except Exn Answer} (calm : Calm now world space)
    (formed : forall moment, call.form moment = some (.answers result)) :
    (call.run world).1 = result ∧ NoEffect now key world (call.run world).2 := by
  rcases calm.run formed with ⟨later, records, ⟨equal, same⟩, done, -, logged⟩
  refine ⟨equal, NoEffect.of_lookup calm done (Or.inl ?_) logged⟩
  rcases same with same | ⟨-, same⟩
  · exact same
  · exact same

/-- A key that is too long is refused by all calls. -/
theorem push_texts_long (calm : Calm now world space) (long : Node.maxKeyLength < key.length) :
    ((Call.pushTexts key values front).run world).1 = .error (.error .requestTooLarge) ∧
      NoEffect now key world ((Call.pushTexts key values front).run world).2 ∧
      forall result, result ∈ (pushSingly key front values world).1 ->
        result = .error (.error .requestTooLarge) := by
  have formed : forall moment, (Call.pushTexts key values front).form moment =
      some (.answers (.error (.error .requestTooLarge))) := by
    intro moment
    rw [Call.form, Form.writing, if_pos long]
  rcases @Calm.refused now world space _ key _ calm formed with ⟨result, unchanged⟩
  refine ⟨result, unchanged, performAll_refused calm fun call inside moment => ?_⟩
  rcases List.mem_map.mp inside with ⟨value, -, rfl⟩
  exact Call.form_push_long long

theorem forms_pushSingly (short : key.length ≤ Node.maxKeyLength) (values : List Bytes) :
    List.Forall₂ (fun call form => forall moment, Call.form moment call = some form)
      (values.map (Call.push front key)) (Spec.pushForms key front values) := by
  unfold Spec.pushForms
  induction values with
  | nil => exact .nil
  | cons value values ih =>
      exact .cons (fun _ => Call.form_push short) ih

theorem Calm.pushSingly (calm : Calm now world space) (short : key.length ≤ Node.maxKeyLength) :
    exists later records,
      Spec.PerformedAll world.logging now space (Spec.pushForms key front values)
        (pushSingly key front values world).1 later records ∧
      Calm now (pushSingly key front values world).2 later ∧
      (pushSingly key front values world).2.records =
        world.records ++ if world.logging then records else [] :=
  calm.performAll (forms_pushSingly short values)

/-- What `push_texts` and single pushes have in common. -/
structure PushesAgree (now : Int64) (key : Bytes) (front : Bool) (values : List Bytes)
    (world : World) (result : Except Exn Answer) (after : World) : Prop where
  success : Spec.Succeeded result <->
    forall single, single ∈ (pushSingly key front values world).1 -> Spec.Succeeded single
  same : Spec.Succeeded result ->
    (pushSingly key front values world).1.getLast? = some result ∧
      SameState after (pushSingly key front values world).2
  failure : ¬ Spec.Succeeded result ->
    (forall single, single ∈ (pushSingly key front values world).1 -> ¬ Spec.Succeeded single ->
      single = result) ∧ NoEffect now key world after

/-- All calls fail in the same way. -/
theorem PushesAgree.failed {result : Except Exn Answer}
    (failed : ¬ Spec.Succeeded result)
    (singles : exists single, single ∈ (pushSingly key front values world).1 ∧
      ¬ Spec.Succeeded single)
    (codes : forall single, single ∈ (pushSingly key front values world).1 ->
      ¬ Spec.Succeeded single -> single = result)
    (unchanged : NoEffect now key world after) :
    PushesAgree now key front values world result after where
  success := by
    rcases singles with ⟨single, inside, fails⟩
    exact ⟨fun succeeded => absurd succeeded failed, fun all => absurd (all single inside) fails⟩
  same := fun succeeded => absurd succeeded failed
  failure := fun _ => ⟨codes, unchanged⟩

theorem pushTexts_form (short : key.length ≤ Node.maxKeyLength) (moment : Moment) :
    (Call.pushTexts key values front).form moment = some (Spec.pushTextsForm key front values) := by
  rw [Call.form, Form.writing, if_neg (Nat.not_lt.mpr short)]
  rfl

theorem Calm.returns {plan : Option Entry -> Spec.Plan (Except Exn Answer)} {tooLarge : Bool}
    {answer : Answer} {left : Keyspace} {more : List Wal.Record} (calm : Calm now world space)
    (formed : forall moment, call.form moment = some (.writes key plan tooLarge))
    (outcome : Spec.perform world.logging now (Spec.writable (some now) key space).space
      (.writes key plan tooLarge) = ⟨.ok answer, left, more⟩) :
    (call.run world).1 = .ok answer ∧ Calm now (call.run world).2 left ∧
      (call.run world).2.records = world.records ++
        if world.logging then (Spec.writable (some now) key space).records ++ more else [] := by
  rcases calm.run formed with ⟨later, records, performed, done, -, logged⟩
  have whole := @Spec.perform_start now key space world.logging tooLarge plan
  rw [outcome] at whole
  have returned := performed.returned (congrArg Spec.Outcome.result whole)
  rw [whole] at returned
  rcases returned with ⟨result, rfl, rfl⟩
  exact ⟨result, done, logged⟩

/-- A failing call that leaves the key as the lookup found it. -/
theorem Calm.fails {plan : Option Entry -> Spec.Plan (Except Exn Answer)} {tooLarge : Bool}
    {result : Except Exn Answer} (calm : Calm now world space)
    (formed : forall moment, call.form moment = some (.writes key plan tooLarge))
    (outcome : Spec.perform world.logging now (Spec.writable (some now) key space).space
      (.writes key plan tooLarge) =
        ⟨result, (Spec.writable (some now) key space).space, []⟩) :
    (call.run world).1 = result ∧ NoEffect now key world (call.run world).2 := by
  rcases calm.run formed with ⟨later, records, ⟨equal, same⟩, done, -, logged⟩
  have whole := @Spec.perform_start now key space world.logging tooLarge plan
  rw [outcome, List.append_nil] at whole
  rw [whole] at equal same
  refine ⟨equal, NoEffect.of_lookup calm done ?_ logged⟩
  rcases same with same | ⟨-, same⟩
  · exact Or.inr same
  · exact Or.inl same

/-- `push_texts` does what single pushes at the same instant do. -/
theorem push_texts_agrees (reachable : Reachable world) (healthy : World.Healthy world)
    (still : forall n, world.steady.reading n = now) (nonempty : values ≠ []) :
    PushesAgree now key front values world ((Call.pushTexts key values front).run world).1
      ((Call.pushTexts key values front).run world).2 := by
  rcases reachable.idle with ⟨space, ready⟩
  have calm : Calm now world space := ⟨ready, healthy, reachable.live, still⟩
  have first : exists single, single ∈ (pushSingly key front values world).1 :=
    exists_performed (by simpa using nonempty)
  by_cases long : Node.maxKeyLength < key.length
  · rcases @push_texts_long now world space key front values calm long with
      ⟨result, unchanged, singles⟩
    have failed : ¬ Spec.Succeeded (.error (.error .requestTooLarge)) := by
      rintro ⟨count, impossible⟩
      cases impossible
    rw [result]
    rcases first with ⟨single, inside⟩
    refine .failed failed ⟨single, inside, ?_⟩
      (fun single inside _ => singles single inside) unchanged
    rw [singles single inside]
    exact failed
  have short := Nat.not_lt.mp long
  have formed := @pushTexts_form key front values short
  have settled := @Spec.settled_writable now key space
  rcases @Calm.pushSingly now world space key front values calm short with
    ⟨laterS, recordsS, each, calmS, loggedS⟩
  have begun : exists more, recordsS = (Spec.writable (some now) key space).records ++ more ∧
      Spec.PerformedAll world.logging now (Spec.writable (some now) key space).space
        (Spec.pushForms key front values) (pushSingly key front values world).1 laterS more := by
    cases values with
    | nil => exact absurd rfl nonempty
    | cons value values =>
        exact each.start (congrArg Spec.Outcome.result (Spec.perform_push settled rfl))
  rcases begun with ⟨more, rfl, all⟩
  cases isList : Spec.listOf (Spec.writable (some now) key space).result with
  | error code =>
      rcases calm.fails formed (Spec.pushTexts_wrong settled isList) with ⟨result, unchanged⟩
      have singles := Spec.pushes_wrong settled isList all
      rw [result]
      rcases first with ⟨single, inside⟩
      refine .failed Spec.not_succeeded ⟨single, inside, ?_⟩
        (fun single inside _ => singles single inside) unchanged
      rw [singles single inside]
      exact Spec.not_succeeded
  | ok items =>
      have success := Spec.pushes settled isList (fun none => absurd none nonempty) all
      have codes := Spec.pushes_codes settled isList all
      by_cases fits : Spec.packedSize items + Spec.packedSize (values.map Value.text) ≤ Node.listLimit
      · rcases calm.returns formed (Spec.pushTexts_fits settled isList nonempty fits) with
          ⟨result, done, logged⟩
        have pushed := success.2 fits nonempty
        rw [result]
        refine ⟨⟨fun _ => success.1.mpr fits, fun _ => ⟨_, rfl⟩⟩, fun _ => ⟨pushed.count, ?_⟩,
          fun failed => absurd ⟨_, rfl⟩ failed⟩
        refine ⟨?_, ?_, ?_⟩
        · rw [done.ready.rep.entries, calmS.ready.rep.entries, pushed.list]
        · rw [done.ready.rep.length, calmS.ready.rep.length, pushed.list]
        · rw [logged, loggedS, pushed.logged]
      · rcases calm.fails formed (Spec.pushTexts_full settled isList nonempty (Nat.not_le.mp fits))
          with ⟨result, unchanged⟩
        rw [result]
        refine .failed Spec.not_succeeded ?_ codes unchanged
        by_contra none
        refine fits (success.1.mp fun single inside => ?_)
        by_contra failed
        exact none ⟨single, inside, failed⟩

theorem push_texts_agrees_calm :
    ((Call.pushTexts [97] [[98], [99]] true).run calm).1 = .ok (.count (.ok 2)) ∧
      PushesAgree 0 [97] true [[98], [99]] calm ((Call.pushTexts [97] [[98], [99]] true).run calm).1
        ((Call.pushTexts [97] [[98], [99]] true).run calm).2 :=
  ⟨by decide +kernel, push_texts_agrees (Reachable.start ..) healthy_calm (fun _ => rfl)
    (List.cons_ne_nil _ _)⟩

end Database

end Reddish
