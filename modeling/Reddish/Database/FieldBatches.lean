import Reddish.Database.Batches
import Reddish.Database.Replay

namespace Reddish

open Library Numeral

/-!
# Many fields in one call

`hash_set_texts` measures its texts as they are given, while `hash_set_text`
measures the value as it would be packed, and it asks the log for room for its
largest record with a margin, while `hash_set_text` asks for its own record.
Between these bounds the two disagree, and nowhere else.
-/

namespace Spec

open Database (Form Answer)

variable {now : Int64} {key : Bytes} {found : Option Entry} {space later : Keyspace}
variable {records : List Wal.Record} {logging : Bool} {result : Except Exn Answer}
variable {fields : FieldMap} {pair : Bytes × Bytes} {pairs : List (Bytes × Bytes)}
variable {texts : List Bytes} {code : ErrorCode}

/-! ## What the calls accept -/

def fieldRecord (key : Bytes) (pair : Bytes × Bytes) : Wal.Record :=
  record .hashSet [key, pair.1, ascii "s", pair.2]

/-- A pair that `hash_set_text` accepts for a hash.  The value counts with its
header, and the log has to take the record. -/
def FitsSingly (logging : Bool) (key : Bytes) (pair : Bytes × Bytes) : Prop :=
  (pair.1.length ≤ Node.fieldLimit ∧ Pack.bodySize (.text pair.2) ≤ Node.fieldLimit) ∧
    (logging = true -> Wal.Accepted (fieldRecord key pair))

/-- Pairs that `hash_set_texts` accepts for a hash.  Here the value counts
without a header, and room for the largest record has to be reserved. -/
def FitTogether (logging : Bool) (key : Bytes) (pairs : List (Bytes × Bytes)) : Prop :=
  pairs.any tooLong = false ∧ (logging = true -> ¬ Database.TooLarge key pairs)

/-- Pairs that only one of the two ways accepts: a value is too long once its
header is counted, or the margin of the reservation exceeds what a record may
take. -/
def Divided (logging : Bool) (key : Bytes) (pairs : List (Bytes × Bytes)) : Prop :=
  FitTogether logging key pairs ∧
      (exists pair, pair ∈ pairs ∧ Node.fieldLimit < Pack.maxStringHeader + pair.2.length) ∨
    (forall pair, pair ∈ pairs -> FitsSingly logging key pair) ∧
      logging = true ∧ Database.TooLarge key pairs

theorem accepted_fieldRecord : Wal.Accepted (fieldRecord key pair) <->
    key.length + pair.1.length + pair.2.length + 19 ≤ Wal.maxRecord := by
  have text : (ascii "s").length = 1 := rfl
  rw [Wal.accepted_iff, Wal.length_payload]
  simp only [fieldRecord, record, List.map_cons, List.map_nil, List.sum_cons, List.sum_nil, text,
    List.length_cons, List.length_nil]
  omega

theorem bodySize_fits {bytes : Bytes} : Pack.bodySize (.text bytes) ≤ Node.fieldLimit <->
    Pack.maxStringHeader + bytes.length ≤ Node.fieldLimit := by
  have header : Pack.maxStringHeader = 5 := rfl
  have limit : Node.fieldLimit = 67108864 := rfl
  rw [Pack.bodySize]
  split_ifs
  · omega
  · omega

theorem any_tooLong : pairs.any tooLong = false <->
    forall pair, pair ∈ pairs ->
      pair.1.length ≤ Node.fieldLimit ∧ pair.2.length ≤ Node.fieldLimit := by
  rw [List.any_eq_false]
  refine forall_congr' fun pair => imp_congr_right fun _ => ?_
  simp [tooLong, not_or]

/-- The two ways disagree about pairs in the gaps and about no others. -/
theorem not_divided : ¬ Divided logging key pairs <->
    (FitTogether logging key pairs <-> forall pair, pair ∈ pairs -> FitsSingly logging key pair) := by
  have header : Pack.maxStringHeader = 5 := rfl
  constructor
  · intro agree
    refine ⟨fun together pair inside => ?_, fun singly => ?_⟩
    · have lengths := any_tooLong.mp together.1 pair inside
      refine ⟨⟨lengths.1, bodySize_fits.mpr ?_⟩, fun isLogging => accepted_fieldRecord.mpr ?_⟩
      · by_contra long
        exact agree (Or.inl ⟨together, pair, inside, Nat.not_le.mp long⟩)
      · by_contra long
        exact together.2 isLogging ⟨pair, inside, by omega⟩
    · refine ⟨any_tooLong.mpr fun pair inside => ?_, fun isLogging large => ?_⟩
      · have fits := singly pair inside
        have value := bodySize_fits.mp fits.1.2
        exact ⟨fits.1.1, by omega⟩
      · exact agree (Or.inr ⟨singly, isLogging, large⟩)
  · rintro agree (⟨together, pair, inside, long⟩ | ⟨singly, isLogging, large⟩)
    · have fits := agree.mp together pair inside
      have value := bodySize_fits.mp fits.1.2
      omega
    · exact (agree.mpr singly).2 isLogging large

/-! ## Single fields -/

/-- The form of `hash_set_text`. -/
def fieldForm (key : Bytes) (pair : Bytes × Bytes) : Form :=
  .writes key
    (fun found => (planHashAssign key pair.1 (.text pair.2) found).map fun result =>
      .ok (.count result))
    (!decide (Wal.Accepted (fieldRecord key pair)))

def fieldForms (key : Bytes) (pairs : List (Bytes × Bytes)) : List Form :=
  pairs.map (fieldForm key)

theorem field_wrong (settled : Settled now key found space) (wrong : hashOf found = .error code) :
    perform logging now space (fieldForm key pair) =
      ⟨.ok (.count (.error code)), space, []⟩ := by
  have planned : planHashAssign key pair.1 (.text pair.2) found = .answer (.error code) := by
    unfold planHashAssign
    rw [wrong]
  rw [fieldForm, perform_settled settled, planned, if_neg (fun refused => refused.2.2 rfl)]
  rfl

/-- What an assignment that is accepted does. -/
theorem field_fits (settled : Settled now key found space) (isHash : hashOf found = .ok fields)
    (fits : FitsSingly logging key pair) :
    perform logging now space (fieldForm key pair) =
      ⟨.ok (.count (.ok (if (fields.lookup pair.1).isSome then 0 else 1))),
        space.put (restored key (.hash (fields.insert pair.1 (.text pair.2))) found),
        [fieldRecord key pair]⟩ := by
  have planned : planHashAssign key pair.1 (.text pair.2) found =
      ⟨.ok (if (fields.lookup pair.1).isSome then 0 else 1),
        .store (.hash (fields.insert pair.1 (.text pair.2))) true, [fieldRecord key pair]⟩ := by
    unfold planHashAssign
    rw [isHash]
    refine if_neg ?_
    rw [not_or]
    exact ⟨Nat.not_lt.mpr fits.1.1, Nat.not_lt.mpr fits.1.2⟩
  rw [fieldForm, perform_settled settled, planned, if_neg]
  · rfl
  · rintro ⟨isLogging, refused, -⟩
    rw [decide_eq_true (fits.2 isLogging)] at refused
    cases refused

/-- An assignment that is not accepted leaves the database alone. -/
theorem field_refused (settled : Settled now key found space) (isHash : hashOf found = .ok fields)
    (large : ¬ FitsSingly logging key pair) :
    exists result, perform logging now space (fieldForm key pair) = ⟨result, space, []⟩ ∧
      ¬ Succeeded result := by
  by_cases sizes : pair.1.length > Node.fieldLimit ∨
      Pack.bodySize (.text pair.2) > Node.fieldLimit
  · have planned : planHashAssign key pair.1 (.text pair.2) found =
        .answer (.error .requestTooLarge) := by
      unfold planHashAssign
      rw [isHash]
      exact if_pos sizes
    refine ⟨.ok (.count (.error .requestTooLarge)), ?_, not_succeeded⟩
    rw [fieldForm, perform_settled settled, planned, if_neg (fun refused => refused.2.2 rfl)]
    rfl
  · have lengths := not_or.mp sizes
    have refused : logging = true ∧ ¬ Wal.Accepted (fieldRecord key pair) := by
      by_contra accepted
      refine large ⟨⟨Nat.not_lt.mp lengths.1, Nat.not_lt.mp lengths.2⟩, fun isLogging => ?_⟩
      by_contra rejected
      exact accepted ⟨isLogging, rejected⟩
    have planned : (planHashAssign key pair.1 (.text pair.2) found).records ≠ [] := by
      unfold planHashAssign
      rw [isHash]
      simp only
      rw [if_neg sizes]
      exact List.cons_ne_nil _ _
    refine ⟨.error (.error .requestTooLarge), ?_, ?_⟩
    · rw [fieldForm, perform_settled settled]
      refine if_pos ⟨refused.1, ?_, planned⟩
      rw [decide_eq_false refused.2]
      rfl
    · rintro ⟨count, impossible⟩
      cases impossible

/-- The number of new fields that a result reports. -/
def gained : Except Exn Answer -> Nat
  | .ok (.count (.ok count)) => count
  | _ => 0

/-- What assignments to a hash achieve. -/
structure Assigned (key : Bytes) (pairs : List (Bytes × Bytes)) (fields : FieldMap)
    (found : Option Entry) (space later : Keyspace) (results : List (Except Exn Answer))
    (records : List Wal.Record) : Prop where
  count : (results.map gained).sum + fields.keys.card = (insertTexts fields pairs).keys.card
  hash : later = space.put (restored key (.hash (insertTexts fields pairs)) found)
  logged : records = pairs.map (fieldRecord key)

theorem card_insert (fields : FieldMap) (field : Bytes) (value : Value) :
    (fields.insert field value).keys.card =
      (if (fields.lookup field).isSome then 0 else 1) + fields.keys.card := by
  have keys : (fields.insert field value).keys = insert field fields.keys := by
    ext probe
    rw [Finset.mem_insert, Finmap.mem_keys, Finmap.mem_keys, Finmap.mem_insert]
  rw [keys]
  split
  case isTrue known =>
    rw [Finset.insert_eq_of_mem (Finmap.mem_keys.mpr (Finmap.lookup_isSome.mp known)), Nat.zero_add]
  case isFalse new =>
    rw [Finset.card_insert_of_notMem (fun inside => new (Finmap.lookup_isSome.mpr
      (Finmap.mem_keys.mp inside))), Nat.add_comm]

theorem Assigned.cons {results : List (Except Exn Answer)} {more : List Wal.Record}
    (assigned : Assigned key pairs (fields.insert pair.1 (.text pair.2))
      (restored key (.hash (fields.insert pair.1 (.text pair.2))) found)
      (space.put (restored key (.hash (fields.insert pair.1 (.text pair.2))) found)) later results
      more) :
    Assigned key (pair :: pairs) fields found space later
      (.ok (.count (.ok (if (fields.lookup pair.1).isSome then 0 else 1))) :: results)
      ([fieldRecord key pair] ++ more) where
  count := by
    have step := card_insert fields pair.1 (.text pair.2)
    have rest := assigned.count
    rw [List.map_cons, List.sum_cons, gained]
    change _ = (insertTexts (fields.insert pair.1 (.text pair.2)) pairs).keys.card
    omega
  hash := by
    rw [assigned.hash, put_restored]
    rfl
  logged := by
    rw [assigned.logged]
    rfl

theorem Assigned.one {middle : Keyspace}
    (stored : middle = space.put (restored key (.hash (fields.insert pair.1 (.text pair.2))) found)) :
    Assigned key [pair] fields found space middle
      [.ok (.count (.ok (if (fields.lookup pair.1).isSome then 0 else 1)))] [fieldRecord key pair] where
  count := by
    have step := card_insert fields pair.1 (.text pair.2)
    rw [List.map_cons, List.map_nil, List.sum_cons, List.sum_nil, gained]
    exact step.symm
  hash := stored
  logged := rfl

/-- Assignments to a key that holds something else all fail. -/
theorem fields_wrong {results : List (Except Exn Answer)}
    (settled : Settled now key found space) (wrong : hashOf found = .error code)
    (all : PerformedAll logging now space (fieldForms key pairs) results later records) :
    forall result, result ∈ results -> result = .ok (.count (.error code)) := by
  refine PerformedAll.refused (fun form inside => ?_) all
  rcases List.mem_map.mp inside with ⟨pair, -, rfl⟩
  exact field_wrong settled wrong

/-- Single assignments succeed if each of them is accepted, and then they build
the hash. -/
theorem fields_assigned {results : List (Except Exn Answer)}
    (settled : Settled now key found space) (isHash : hashOf found = .ok fields)
    (all : PerformedAll logging now space (fieldForms key pairs) results later records) :
    ((forall result, result ∈ results -> Succeeded result) <->
      forall pair, pair ∈ pairs -> FitsSingly logging key pair) ∧
    ((forall pair, pair ∈ pairs -> FitsSingly logging key pair) -> pairs ≠ [] ->
      Assigned key pairs fields found space later results records) := by
  induction pairs generalizing space found fields results records with
  | nil =>
      cases all
      refine ⟨⟨?_, ?_⟩, fun _ never => absurd rfl never⟩
      · exact nofun
      · exact nofun
  | cons pair pairs ih =>
      rw [List.forall_mem_cons]
      cases all with
      | @cons _ middle _ _ _ result results records more first rest =>
          rw [List.forall_mem_cons]
          by_cases fits : FitsSingly logging key pair
          · have done := field_fits settled isHash fits
            rcases first.returned (by rw [done]) with ⟨rfl, rfl, rfl⟩
            rw [done] at rest ⊢
            rcases ih (settled.restore _) rfl rest with ⟨success, assigned⟩
            refine ⟨?_, ?_⟩
            · rw [success]
              exact ⟨fun both => ⟨fits, both.2⟩, fun both => ⟨⟨_, rfl⟩, both.2⟩⟩
            · intro all _
              cases pairs with
              | nil =>
                  cases rest
                  exact .one rfl
              | cons other others => exact (assigned all.2 (List.cons_ne_nil _ _)).cons
          · rcases field_refused settled isHash fits with ⟨refusal, outcome, failed⟩
            have isRefusal : result = refusal := by
              rw [first.1, outcome]
            rw [isRefusal]
            refine ⟨?_, ?_⟩
            · exact ⟨fun both => absurd both.1 failed, fun both => absurd both.1 fits⟩
            · exact fun both => absurd both.1 fits

/-- The first assignment looks the key up for all of them. -/
theorem fields_begun {results : List (Except Exn Answer)}
    (isHash : hashOf (writable (some now) key space).result = .ok fields)
    (all : PerformedAll logging now space (fieldForms key pairs) results later records)
    (nonempty : pairs ≠ []) :
    ((forall result, result ∈ results -> Succeeded result) <->
      forall pair, pair ∈ pairs -> FitsSingly logging key pair) ∧
    ((forall pair, pair ∈ pairs -> FitsSingly logging key pair) ->
      exists more, records = (writable (some now) key space).records ++ more ∧
        Assigned key pairs fields (writable (some now) key space).result
          (writable (some now) key space).space later results more) := by
  cases pairs with
  | nil => exact absurd rfl nonempty
  | cons pair pairs =>
      by_cases fits : FitsSingly logging key pair
      · have done := @field_fits now key _ _ logging fields pair settled_writable isHash fits
        rcases all.start (congrArg Outcome.result done) with ⟨more, equal, begun⟩
        have ways := @fields_assigned now key _ _ later _ logging fields (pair :: pairs) _
          settled_writable isHash begun
        exact ⟨ways.1, fun singly => ⟨more, equal, ways.2 singly nonempty⟩⟩
      · rcases @field_refused now key _ _ logging fields pair settled_writable isHash fits with
          ⟨refusal, outcome, failed⟩
        rw [List.forall_mem_cons]
        cases all with
        | @cons _ middle _ _ _ result results records more first rest =>
            have isRefusal : result = refusal := by
              rw [first.1, fieldForm, perform_start]
              exact congrArg Outcome.result outcome
            rw [isRefusal]
            refine ⟨⟨?_, fun both => absurd both.1 fits⟩, fun both => absurd both.1 fits⟩
            exact fun succeeded => absurd (succeeded refusal List.mem_cons_self) failed

/-! ## All fields at once -/

/-- The form of `hash_set_texts`. -/
def fieldTextsForm (key : Bytes) (texts : List Bytes) : Form :=
  .writes key (fun found => (planHashSetTexts key texts found).map fun result => .ok (.count result))
    (decide (Database.TooLarge key (Database.textPairs texts)))

theorem fieldTexts_wrong (settled : Settled now key found space)
    (wrong : hashOf found = .error code) :
    perform logging now space (fieldTextsForm key texts) =
      ⟨.ok (.count (.error code)), space, []⟩ := by
  have planned : planHashSetTexts key texts found = .answer (.error code) := by
    unfold planHashSetTexts
    rw [wrong]
  rw [fieldTextsForm, perform_settled settled, planned, if_neg (fun refused => refused.2.2 rfl)]
  rfl

/-- The plan for texts that are not too long. -/
theorem planHashSetTexts_short (isHash : hashOf found = .ok fields) (nonempty : texts ≠ [])
    (short : (Database.textPairs texts).any tooLong = false) :
    planHashSetTexts key texts found =
      ⟨.ok ((insertTexts fields (Database.textPairs texts)).keys.card - fields.keys.card),
        .store (.hash (insertTexts fields (Database.textPairs texts))) true,
        (Database.textPairs texts).map (fieldRecord key)⟩ := by
  unfold planHashSetTexts
  rw [isHash]
  simp only
  rw [if_neg nonempty, short, if_neg Bool.false_ne_true]
  rfl

theorem fieldTexts_fit (settled : Settled now key found space) (isHash : hashOf found = .ok fields)
    (nonempty : texts ≠ []) (fits : FitTogether logging key (Database.textPairs texts)) :
    perform logging now space (fieldTextsForm key texts) =
      ⟨.ok (.count (.ok ((insertTexts fields (Database.textPairs texts)).keys.card -
          fields.keys.card))),
        space.put (restored key (.hash (insertTexts fields (Database.textPairs texts))) found),
        (Database.textPairs texts).map (fieldRecord key)⟩ := by
  rw [fieldTextsForm, perform_settled settled, planHashSetTexts_short isHash nonempty fits.1, if_neg]
  · rfl
  · rintro ⟨isLogging, refused, -⟩
    exact fits.2 isLogging (of_decide_eq_true refused)

theorem fieldTexts_refused (settled : Settled now key found space)
    (isHash : hashOf found = .ok fields) (nonempty : texts ≠ []) (even : texts.length % 2 = 0)
    (large : ¬ FitTogether logging key (Database.textPairs texts)) :
    exists result, perform logging now space (fieldTextsForm key texts) = ⟨result, space, []⟩ ∧
      ¬ Succeeded result := by
  cases short : (Database.textPairs texts).any tooLong with
  | true =>
      have planned : planHashSetTexts key texts found = .answer (.error .requestTooLarge) := by
        unfold planHashSetTexts
        rw [isHash]
        simp only
        rw [if_neg nonempty, if_pos short]
      refine ⟨.ok (.count (.error .requestTooLarge)), ?_, not_succeeded⟩
      rw [fieldTextsForm, perform_settled settled, planned, if_neg (fun refused => refused.2.2 rfl)]
      rfl
  | false =>
      have refused : logging = true ∧ Database.TooLarge key (Database.textPairs texts) := by
        by_contra accepted
        exact large ⟨short, fun isLogging tooLarge => accepted ⟨isLogging, tooLarge⟩⟩
      refine ⟨.error (.error .requestTooLarge), ?_, ?_⟩
      · rw [fieldTextsForm, perform_settled settled,
          planHashSetTexts_short isHash nonempty short]
        refine if_pos ⟨refused.1, decide_eq_true refused.2, ?_⟩
        intro none
        exact Database.textPairs_ne_nil even nonempty (List.map_eq_nil_iff.mp none)
      · rintro ⟨count, impossible⟩
        cases impossible

/-! ## Replaying a field -/

theorem result_writable_none : (writable none key space).result = space.find key := by
  unfold writable
  cases space.find key with
  | none => rfl
  | some entry => rfl

/-- The record of a pair is replayed by the code of `hash_set_text`. -/
theorem replay_fieldRecord {restamp : Int64 -> Int64} (short : key.length ≤ Node.maxKeyLength) :
    replay restamp (fieldRecord key pair) space =
      replayPlan key (planHashAssign key pair.1 (.text pair.2)) space := by
  have formed : (fieldRecord key pair).args.length =
      WalOp.expected (WalOp.ofCode (fieldRecord key pair).op) ∧ (fieldRecord key pair).args ≠ [] ∧
      ((fieldRecord key pair).args.getD 0 []).length ≤ Node.maxKeyLength :=
    ⟨rfl, List.cons_ne_nil _ _, short⟩
  rw [replay, if_pos formed]
  rfl

theorem replay_fits {restamp : Int64 -> Int64} (short : key.length ≤ Node.maxKeyLength)
    (isHash : hashOf (space.find key) = .ok fields) (fits : FitsSingly logging key pair) :
    exists later, replay restamp (fieldRecord key pair) space = some later := by
  refine ⟨((planHashAssign key pair.1 (.text pair.2) (space.find key)).outcome key
    (writable none key space)).space, ?_⟩
  rw [replay_fieldRecord short]
  unfold replayPlan planHashAssign
  rw [result_writable_none, isHash]
  simp only
  rw [if_neg (not_or.mpr ⟨Nat.not_lt.mpr fits.1.1, Nat.not_lt.mpr fits.1.2⟩)]

theorem replay_long {restamp : Int64 -> Int64} (short : key.length ≤ Node.maxKeyLength)
    (isHash : hashOf (space.find key) = .ok fields)
    (long : Node.fieldLimit < Pack.bodySize (.text pair.2)) :
    replay restamp (fieldRecord key pair) space = none := by
  rw [replay_fieldRecord short]
  unfold replayPlan planHashAssign
  rw [result_writable_none, isHash]
  simp only
  rw [if_pos (Or.inr long)]
  rfl

end Spec

namespace Database

variable {now : Int64} {world after : World} {space : Keyspace} {key : Bytes}
variable {texts : List Bytes} {pair : Bytes × Bytes}

def Call.assign (key : Bytes) (pair : Bytes × Bytes) : Call :=
  .hashSet key pair.1 (.text pair.2)

/-- Single assignments, one after another. -/
def assignSingly (key : Bytes) (texts : List Bytes) (world : World) :
    List (Except Exn Answer) × World :=
  performAll ((textPairs texts).map (Call.assign key)) world

/-- A record can be replayed wherever its key is missing or holds a hash. -/
def Replayable (key : Bytes) (record : Wal.Record) : Prop :=
  forall world space fields, Ready world space -> world.db.replaying = true -> world.Plentiful ->
    Spec.hashOf (space.find key) = .ok fields -> (replay record world).1 = .ok ()

/-- What `hash_set_texts` and single assignments are meant to have in common. -/
structure AssignmentsAgree (now : Int64) (key : Bytes) (texts : List Bytes) (world : World)
    (result : Except Exn Answer) (after : World) : Prop where
  success : Spec.Succeeded result <->
    forall single, single ∈ (assignSingly key texts world).1 -> Spec.Succeeded single
  same : Spec.Succeeded result ->
    result = .ok (.count (.ok (((assignSingly key texts world).1.map Spec.gained).sum))) ∧
      SameState after (assignSingly key texts world).2
  failure : ¬ Spec.Succeeded result -> NoEffect now key world after
  replayable : Spec.Succeeded result -> forall pair, pair ∈ textPairs texts ->
    Replayable key (Spec.fieldRecord key pair)

theorem AssignmentsAgree.failed {result : Except Exn Answer} (failed : ¬ Spec.Succeeded result)
    (singles : ¬ forall single, single ∈ (assignSingly key texts world).1 -> Spec.Succeeded single)
    (unchanged : NoEffect now key world after) :
    AssignmentsAgree now key texts world result after where
  success := ⟨fun succeeded => absurd succeeded failed, fun all => absurd all singles⟩
  same := fun succeeded => absurd succeeded failed
  failure := fun _ => unchanged
  replayable := fun succeeded => absurd succeeded failed

theorem replayable_fieldRecord {logging : Bool} (short : key.length ≤ Node.maxKeyLength)
    (fits : Spec.FitsSingly logging key pair) : Replayable key (Spec.fieldRecord key pair) := by
  intro world space fields ready replaying plentiful isHash
  have replays := replays_replay (Spec.fieldRecord key pair) ready replaying
  rcases @Spec.replay_fits key space logging fields pair (restamp world) short isHash fits with
    ⟨later, meaning⟩
  unfold Replays at replays
  rw [meaning] at replays
  rcases ran : replay (Spec.fieldRecord key pair) world with ⟨thrown | value, left⟩
  · have impossible := Cmd.of_wp_error replays ran plentiful
    cases impossible
  · rfl

theorem Call.form_assign {moment : Moment} (short : key.length ≤ Node.maxKeyLength) :
    (Call.assign key pair).form moment = some (Spec.fieldForm key pair) := by
  rw [Call.assign, Call.form, Form.writing, if_neg (Nat.not_lt.mpr short)]
  rfl

theorem Call.form_hashSetTexts {moment : Moment} (short : key.length ≤ Node.maxKeyLength)
    (even : texts.length % 2 = 0) :
    (Call.hashSetTexts key texts).form moment = some (Spec.fieldTextsForm key texts) := by
  rw [Call.form, if_neg (not_not.mpr even), Form.writing, if_neg (Nat.not_lt.mpr short)]
  rfl

theorem forms_assignSingly (short : key.length ≤ Node.maxKeyLength)
    (pairs : List (Bytes × Bytes)) :
    List.Forall₂ (fun call form => forall moment, Call.form moment call = some form)
      (pairs.map (Call.assign key)) (Spec.fieldForms key pairs) := by
  unfold Spec.fieldForms
  induction pairs with
  | nil => exact .nil
  | cons pair pairs ih =>
      exact .cons (fun _ => Call.form_assign short) ih

theorem exists_assigned (nonempty : texts ≠ []) (even : texts.length % 2 = 0) :
    exists single, single ∈ (assignSingly key texts world).1 := by
  refine exists_performed fun none => ?_
  exact textPairs_ne_nil even nonempty (List.map_eq_nil_iff.mp none)

/-- A key that is too long is refused by all calls. -/
theorem hash_set_texts_long (calm : Calm now world space) (nonempty : texts ≠ [])
    (even : texts.length % 2 = 0) (long : Node.maxKeyLength < key.length) :
    AssignmentsAgree now key texts world ((Call.hashSetTexts key texts).run world).1
      ((Call.hashSetTexts key texts).run world).2 := by
  have formed : forall moment, (Call.hashSetTexts key texts).form moment =
      some (.answers (.error (.error .requestTooLarge))) := by
    intro moment
    rw [Call.form, if_neg (not_not.mpr even), Form.writing, if_pos long]
  have failed : ¬ Spec.Succeeded (.error (.error .requestTooLarge)) := by
    rintro ⟨count, impossible⟩
    cases impossible
  rcases @Calm.refused now world space _ key _ calm formed with ⟨result, unchanged⟩
  have singles : forall single, single ∈ (assignSingly key texts world).1 ->
      single = .error (.error .requestTooLarge) := by
    refine performAll_refused calm fun call inside moment => ?_
    rcases List.mem_map.mp inside with ⟨pair, -, rfl⟩
    rw [Call.assign, Call.form, Form.writing, if_pos long]
  rw [result]
  refine .failed failed (fun all => ?_) unchanged
  rcases @exists_assigned world key texts nonempty even with ⟨single, inside⟩
  have succeeded := all single inside
  rw [singles single inside] at succeeded
  exact failed succeeded

theorem Calm.assignSingly (calm : Calm now world space) (short : key.length ≤ Node.maxKeyLength) :
    exists later records,
      Spec.PerformedAll world.logging now space (Spec.fieldForms key (textPairs texts))
        (assignSingly key texts world).1 later records ∧
      Calm now (assignSingly key texts world).2 later ∧
      (assignSingly key texts world).2.records =
        world.records ++ if world.logging then records else [] :=
  calm.performAll (forms_assignSingly short (textPairs texts))

/-- A key that holds something else is refused by all calls. -/
theorem hash_set_texts_wrong {code : ErrorCode} (calm : Calm now world space)
    (short : key.length ≤ Node.maxKeyLength) (nonempty : texts ≠ []) (even : texts.length % 2 = 0)
    (wrong : Spec.hashOf (Spec.writable (some now) key space).result = .error code) :
    AssignmentsAgree now key texts world ((Call.hashSetTexts key texts).run world).1
      ((Call.hashSetTexts key texts).run world).2 := by
  have formed := fun moment => @Call.form_hashSetTexts key texts moment short even
  have settled := @Spec.settled_writable now key space
  rcases @Calm.assignSingly now world space key texts calm short with ⟨laterS, recordsS, each, -, -⟩
  rcases calm.fails formed (Spec.fieldTexts_wrong settled wrong) with ⟨result, unchanged⟩
  have singles : forall single, single ∈ (Database.assignSingly key texts world).1 ->
      single = .ok (.count (.error code)) := by
    cases pairs : textPairs texts with
    | nil => exact absurd pairs (textPairs_ne_nil even nonempty)
    | cons pair rest =>
        rw [pairs] at each
        have refused := @Spec.field_wrong now key _ _ world.logging pair code settled wrong
        rcases each.start (congrArg Spec.Outcome.result refused) with ⟨more, -, begun⟩
        exact @Spec.fields_wrong now key _ _ _ more world.logging (pair :: rest) code _ settled wrong
          begun
  rw [result]
  refine .failed Spec.not_succeeded (fun all => ?_) unchanged
  rcases @exists_assigned world key texts nonempty even with ⟨single, inside⟩
  have succeeded := all single inside
  rw [singles single inside] at succeeded
  exact Spec.not_succeeded succeeded

/-- What becomes of texts for a hash, in both ways. -/
theorem hash_set_texts_hash {fields : FieldMap} (calm : Calm now world space)
    (short : key.length ≤ Node.maxKeyLength) (nonempty : texts ≠ []) (even : texts.length % 2 = 0)
    (isHash : Spec.hashOf (Spec.writable (some now) key space).result = .ok fields) :
    (Spec.Succeeded ((Call.hashSetTexts key texts).run world).1 <->
        Spec.FitTogether world.logging key (textPairs texts)) ∧
      ((forall single, single ∈ (assignSingly key texts world).1 -> Spec.Succeeded single) <->
        forall pair, pair ∈ textPairs texts -> Spec.FitsSingly world.logging key pair) ∧
      (¬ Spec.Divided world.logging key (textPairs texts) ->
        AssignmentsAgree now key texts world ((Call.hashSetTexts key texts).run world).1
          ((Call.hashSetTexts key texts).run world).2) := by
  have formed := fun moment => @Call.form_hashSetTexts key texts moment short even
  have settled := @Spec.settled_writable now key space
  have pairs := textPairs_ne_nil even nonempty
  rcases @Calm.assignSingly now world space key texts calm short with
    ⟨laterS, recordsS, each, calmS, loggedS⟩
  rcases Spec.fields_begun isHash each pairs with ⟨success, assigned⟩
  by_cases fits : Spec.FitTogether world.logging key (textPairs texts)
  · rcases calm.returns formed (Spec.fieldTexts_fit settled isHash nonempty fits) with
      ⟨result, done, logged⟩
    rw [result]
    refine ⟨⟨fun _ => fits, fun _ => ⟨_, rfl⟩⟩, success, fun agree => ?_⟩
    have singly := (Spec.not_divided.mp agree).mp fits
    rcases assigned singly with ⟨more, isRecords, assigned⟩
    refine ⟨⟨fun _ => success.mpr singly, fun _ => ⟨_, rfl⟩⟩, fun _ => ⟨?_, ?_, ?_, ?_⟩,
      fun failed => absurd ⟨_, rfl⟩ failed, fun _ pair inside => ?_⟩
    · rw [<- assigned.count, Nat.add_sub_cancel]
    · rw [done.ready.rep.entries, calmS.ready.rep.entries, assigned.hash]
    · rw [done.ready.rep.length, calmS.ready.rep.length, assigned.hash]
    · rw [logged, loggedS, isRecords, assigned.logged]
    · exact replayable_fieldRecord short (singly pair inside)
  · rcases Spec.fieldTexts_refused settled isHash nonempty even fits with ⟨refusal, outcome, failed⟩
    rcases calm.fails formed outcome with ⟨result, unchanged⟩
    rw [result]
    refine ⟨⟨fun succeeded => absurd succeeded failed, fun fit => absurd fit fits⟩, success, ?_⟩
    intro agree
    refine .failed failed (fun all => ?_) unchanged
    exact fits ((Spec.not_divided.mp agree).mpr (success.mp all))

/-- `hash_set_texts` does what single assignments at the same instant do, unless
the texts lie in the gap between what the two accept. -/
theorem hash_set_texts_agrees (reachable : Reachable world) (healthy : World.Healthy world)
    (still : forall n, world.steady.reading n = now) (nonempty : texts ≠ [])
    (even : texts.length % 2 = 0) :
    AssignmentsAgree now key texts world ((Call.hashSetTexts key texts).run world).1
        ((Call.hashSetTexts key texts).run world).2 <->
      Node.maxKeyLength < key.length ∨
        (exists code, Spec.hashOf (seen now world key) = .error code) ∨
        ¬ Spec.Divided world.logging key (textPairs texts) := by
  rcases reachable.idle with ⟨space, ready⟩
  have calm : Calm now world space := ⟨ready, healthy, reachable.live, still⟩
  by_cases long : Node.maxKeyLength < key.length
  · exact iff_of_true (hash_set_texts_long calm nonempty even long) (Or.inl long)
  have short := Nat.not_lt.mp long
  have found : seen now world key = (Spec.writable (some now) key space).result := by
    rw [seen, <- ready.rep.find_eq]
    exact Spec.result_writable.symm
  rw [found]
  cases isHash : Spec.hashOf (Spec.writable (some now) key space).result with
  | error code =>
      refine iff_of_true ?_ (Or.inr (Or.inl ⟨code, rfl⟩))
      exact hash_set_texts_wrong calm short nonempty even isHash
  | ok fields =>
      rcases hash_set_texts_hash calm short nonempty even isHash with ⟨together, singly, agree⟩
      constructor
      · intro agrees
        refine Or.inr (Or.inr (Spec.not_divided.mpr ?_))
        rw [<- together, <- singly]
        exact agrees.success
      · rintro (impossible | ⟨code, impossible⟩ | undivided)
        · exact absurd impossible long
        · cases impossible
        · exact agree undivided

/-- A field that is assigned twice. -/
theorem hash_set_texts_agrees_twice :
    AssignmentsAgree 0 [97] [[98], [99], [98], [100]] calm
      ((Call.hashSetTexts [97] [[98], [99], [98], [100]]).run calm).1
      ((Call.hashSetTexts [97] [[98], [99], [98], [100]]).run calm).2 := by
  have agrees := @hash_set_texts_agrees 0 calm [97] [[98], [99], [98], [100]] (Reachable.start ..)
    healthy_calm (fun _ => rfl) (List.cons_ne_nil _ _) rfl
  refine agrees.mpr (Or.inr (Or.inr ?_))
  rintro (⟨-, pair, inside, long⟩ | ⟨-, impossible, -⟩)
  · fin_cases inside <;> exact absurd long (by decide)
  · cases impossible

/-- The longest value that `hash_set_texts` accepts. -/
def longest : Bytes :=
  List.replicate Node.fieldLimit 0

theorem long_longest : Node.fieldLimit < Pack.bodySize (.text longest) := by
  have length : longest.length = Node.fieldLimit := List.length_replicate
  have header : Pack.maxStringHeader = 5 := rfl
  by_contra short
  have fits := Spec.bodySize_fits.mp (Nat.not_lt.mp short)
  omega

/-- A value that `hash_set_texts` stores and logs, that `hash_set_text` refuses,
and whose record cannot be replayed. -/
theorem hash_set_texts_gap :
    Spec.Succeeded ((Call.hashSetTexts [97] [[98], longest]).run calm).1 ∧
      ¬ (forall single, single ∈ (assignSingly [97] [[98], longest] calm).1 ->
        Spec.Succeeded single) ∧
      (forall restamp, Spec.replay restamp (Spec.fieldRecord [97] ([98], longest)) [] = none) ∧
      ¬ AssignmentsAgree 0 [97] [[98], longest] calm
        ((Call.hashSetTexts [97] [[98], longest]).run calm).1
        ((Call.hashSetTexts [97] [[98], longest]).run calm).2 := by
  have reachable : Reachable calm := Reachable.start ..
  rcases reachable.idle with ⟨space, ready⟩
  have calmed : Calm 0 calm space := ⟨ready, healthy_calm, reachable.live, fun _ => rfl⟩
  have missing : (Spec.writable (some 0) [97] space).result = none := by
    have found : seen 0 calm [97] = (Spec.writable (some 0) [97] space).result := by
      rw [seen, <- ready.rep.find_eq]
      exact Spec.result_writable.symm
    exact found.symm.trans (by decide)
  have isHash : Spec.hashOf (Spec.writable (some 0) [97] space).result = .ok ∅ := by
    rw [missing]
    rfl
  rcases @hash_set_texts_hash 0 calm space [97] [[98], longest] ∅ calmed (by decide)
    (List.cons_ne_nil _ _) rfl isHash with ⟨together, singly, -⟩
  have whole : Spec.Succeeded ((Call.hashSetTexts [97] [[98], longest]).run calm).1 := by
    refine together.mpr ⟨Spec.any_tooLong.mpr ?_, fun logging => by cases logging⟩
    intro pair inside
    rw [List.mem_singleton.mp inside]
    exact ⟨by decide, Nat.le_of_eq List.length_replicate⟩
  have refused : ¬ forall single, single ∈ (assignSingly [97] [[98], longest] calm).1 ->
      Spec.Succeeded single := by
    intro all
    have fits := singly.mp all ([98], longest) List.mem_cons_self
    exact absurd long_longest (Nat.not_lt.mpr fits.1.2)
  refine ⟨whole, refused, ?_, fun agrees => refused (agrees.success.mp whole)⟩
  intro restamp
  exact @Spec.replay_long [97] [] ∅ ([98], longest) restamp (by decide) rfl long_longest

end Database

end Reddish
