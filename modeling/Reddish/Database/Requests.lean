import Reddish.Database.Plans

namespace Reddish

open Library Numeral

/-!
# What requests do in an environment without failures

With enough memory and a working log every call on a key returns exactly what
its form says, and throws only what the form says.
-/

/-- An exception that is no failure of the disk left keyspace and log in step. -/
theorem Thrown.reached {world after : World} {space : Keyspace} {records : List Wal.Record}
    {oversize : Prop} {thrown : Exn} (failed : Thrown world after [] space records oversize thrown)
    (kind : thrown ≠ .error .diskWriteFailed) : Reached world after [] space records := by
  refine ⟨failed.rep, failed.sound, failed.evolves, ?_⟩
  rcases failed.logged with same | ⟨impossible, -⟩
  · exact same
  · exact absurd impossible kind

namespace Database

open World (Healthy)

variable {α : Type} {op : Op α} {key : Bytes} {world after : World} {space : Keyspace}
variable {oversize refusal : Prop} {spec : Option Int64 -> Keyspace -> Spec.Outcome α}
variable {plan : Option Entry -> Spec.Plan α} {wrap : α -> Answer} {moment : Moment}

theorem Ready.unlogged (ready : Ready world space) : Ready world.unlogged space :=
  ⟨ready.rep, nofun⟩

/-- Nothing but its size makes a request fail without a log. -/
theorem Aborted.tooLarge {thrown : Exn}
    (aborted : Aborted world after key space oversize thrown) (plentiful : world.Plentiful)
    (silent : world.logging = false) : oversize := by
  have cause : world.logging = true ∨ (exists n, world.allocations n = none) ∨ oversize := by
    rcases aborted with failed | ⟨now, -, failed⟩
    · exact failed.cause
    · exact failed.cause
  rcases cause with logging | ⟨n, fails⟩ | large
  · rw [silent] at logging
    cases logging
  · exact absurd fails (plentiful n)
  · exact large

theorem Aborted.logging {thrown : Exn} (aborted : Aborted world after key space oversize thrown)
    (plentiful : world.Plentiful) (small : ¬ oversize) : world.logging = true := by
  cases silent : world.logging with
  | true => rfl
  | false => exact absurd (aborted.tooLarge plentiful silent) small

/-- An operation of acceptable size returns, unless the log refuses it. -/
theorem Implements.total (implements : Implements op key oversize spec)
    (free : LogFree refusal op) (small : ¬ oversize) (ready : Ready world space)
    (healthy : Healthy world) :
    (exists now after, world.Reads now ∧
      op world = (.ok (spec (world.time now) space).result, after) ∧ Healthy after ∧
      World.Extends world after ∧
      Reached world after [] (spec (world.time now) space).space
        (spec (world.time now) space).records) ∨
    refusal ∧ exists after, op world = (.error (.error .requestTooLarge), after) ∧ Healthy after ∧
      Aborted world after key space oversize (.error .requestTooLarge) := by
  rcases free world healthy with ⟨later, extend, same⟩
  have post := implements world space ready
  rcases ran : op world with ⟨thrown | value, after⟩
  · rw [ran] at later same
    have aborted := Cmd.of_wp_error post ran
    rcases same with same | ⟨refused, equal⟩
    · unfold InStep at same
      rw [ran] at same
      have bare := Cmd.of_wp_error (implements _ _ ready.unlogged) same
      exact absurd (bare.tooLarge healthy.unlogged.memory rfl) small
    · cases Except.error.inj equal
      exact Or.inr ⟨refused, after, rfl, later, aborted⟩
  · rw [ran] at later extend
    rcases Cmd.of_wp_ok post ran with ⟨now, reads, rfl, reached⟩
    exact Or.inl ⟨now, after, reads, rfl, later, extend, reached⟩

theorem findWritable_total (ready : Ready world space) (healthy : Healthy world)
    (short : key.length ≤ Node.maxKeyLength) :
    exists now found after, findWritable key world = (.ok found, after) ∧ Healthy after ∧
      Opened world after key space now found := by
  have looked : forall {start : World}, Ready start space -> (findWritable key).wp
      (fun found after => exists now, Opened start after key space now found)
      (fun thrown after => Thrown start after [] space [] (Node.maxKeyLength < key.length) thrown)
      start := by
    intro start ready
    refine Cmd.wp_mono (findWritable_spec ready.reached key) ?_ (fun _ _ failed => failed)
    rintro found after ⟨⟨now, reads, reached, result⟩, short, located, wall⟩
    exact ⟨now, reads, reached, result, short, located, wall⟩
  rcases @logFree_findWritable False key world healthy with ⟨later, -, same | ⟨never, -⟩⟩
  · unfold InStep at same
    rcases ran : findWritable key world with ⟨thrown | found, after⟩
    · rw [ran] at same
      have failed := Cmd.of_wp_error (looked ready.unlogged) same
      have aborted : Aborted world.unlogged _ key space _ thrown := Or.inl failed
      exact absurd (aborted.tooLarge healthy.unlogged.memory rfl) (Nat.not_lt.mpr short)
    · rw [ran] at later
      rcases Cmd.of_wp_ok (looked ready) ran with ⟨now, opened⟩
      exact ⟨now, found, after, rfl, later, opened⟩
  · exact never.elim

/-- An operation that looks its key up first goes on from there. -/
theorem wp_findWritable_total {rest : Option Addr -> Op α} {Q : α -> World -> Prop}
    {E : Exn -> World -> Prop} (ready : Ready world space) (healthy : Healthy world)
    (short : key.length ≤ Node.maxKeyLength)
    (next : forall now found after, Opened world after key space now found -> Healthy after ->
      (rest found).wp Q E after) : (findWritable key >>= rest).wp Q E world := by
  rcases findWritable_total ready healthy short with ⟨now, found, after, ran, later, opened⟩
  rw [Cmd.wp_bind]
  unfold Cmd.wp
  rw [ran]
  exact next now found after opened later

/-- A key that is too long is turned away. -/
theorem findWritable_long {rest : Option Addr -> Op α} (long : Node.maxKeyLength < key.length) :
    (findWritable key >>= rest) world = (.error (.error .requestTooLarge), world) := by
  change Cmd.bind (findWritable key) rest world = _
  rw [Cmd.bind, findWritable, if_pos long]
  rfl

theorem long_findWritable {rest : Option Addr -> Op α} (long : Node.maxKeyLength < key.length)
    (world : World) : ((findWritable key >>= rest) world).1 = .error (.error .requestTooLarge) := by
  rw [findWritable_long long]

/-! ## Performing a form -/

/-- The clocks stand still. -/
structure At (world : World) (moment : Moment) : Prop where
  steady : forall n, world.steady.reading n = moment.steady
  wall : world.wall.reading 0 = moment.wall
  stamp : world.wall.reading 1 = moment.stamp

theorem At.reads {now : Int64} (still : At world moment) (reads : world.Reads now) :
    now = moment.steady := by
  rcases reads with ⟨n, reading⟩
  exact reading.symm.trans (still.steady n)

theorem time_of_live (live : world.db.replaying = false) (now : Int64) :
    world.time now = some now := by
  rw [World.time, live, if_neg Bool.false_ne_true]

/-- Code has an outcome: its result is returned or thrown.  Code that throws may
have left the keyspace as it was. -/
def Performs (op : Op Answer) (world : World) (space : Keyspace)
    (outcome : Spec.Outcome (Except Exn Answer)) : Prop :=
  exists after later records, op world = (outcome.result, after) ∧ Healthy after ∧
    Reached world after [] later records ∧
    (later = outcome.space ∧ records = outcome.records ∨
      (exists thrown, outcome.result = .error thrown) ∧ later = space ∧ records = [])

theorem performs_answers (result : Except Exn α) (ready : Ready world space)
    (healthy : Healthy world) (ran : op world = (result, world)) :
    Performs (answering wrap op) world space
      (Spec.perform world.logging moment.steady space (.answers (result.map wrap))) := by
  refine ⟨world, space, [], ?_, healthy, ready.reached, Or.inl ⟨rfl, rfl⟩⟩
  cases result with
  | error thrown => exact answering_error ran
  | ok value => exact answering_ok ran

theorem performs_reads {answer : Option Entry -> α} (implements : Implements op key False spec)
    (reads : spec = Spec.reading answer key) (free : LogFree False op)
    (ready : Ready world space) (healthy : Healthy world) (live : world.db.replaying = false)
    (still : At world moment) :
    Performs (answering wrap op) world space
      (Spec.perform world.logging moment.steady space
        (.reads key fun found => wrap (answer found))) := by
  rw [reads] at implements
  rcases implements.total free id ready healthy with
    ⟨now, after, reads, ran, later, -, reached⟩ | ⟨never, -⟩
  · rw [still.reads reads, time_of_live live] at ran reached
    exact ⟨after, _, _, answering_ok ran, later, reached, Or.inl ⟨rfl, rfl⟩⟩
  · exact never.elim

/-- Writing follows the plan, unless the log refuses its records. -/
theorem performs_writes (implements : Implements op key oversize spec)
    (follows : forall time, spec time space =
      (plan (Spec.writable time key space).result).outcome key (Spec.writable time key space))
    (free : LogFree refusal op) (small : ¬ oversize) (tooLarge : Bool)
    (ready : Ready world space) (healthy : Healthy world) (live : world.db.replaying = false)
    (still : At world moment)
    (throws : refusal -> forall after, op world = (.error (.error .requestTooLarge), after) ->
      tooLarge = true ∧
        (plan (Spec.writable (some moment.steady) key space).result).records ≠ [])
    (returns : tooLarge = true -> world.logging = true -> forall value after,
      op world = (.ok value, after) ->
      (forall record,
        record ∈ (plan (Spec.writable (some moment.steady) key space).result).records ->
          Wal.Accepted record) ->
      (plan (Spec.writable (some moment.steady) key space).result).records = []) :
    Performs (answering wrap op) world space
      (Spec.perform world.logging moment.steady space
        (.writes key (fun found => (plan found).map fun result => .ok (wrap result)) tooLarge)) := by
  unfold Spec.perform
  simp only
  rcases implements.total free small ready healthy with
    ⟨now, after, reads, ran, later, extend, reached⟩ | ⟨refused, after, ran, later, aborted⟩
  · rw [still.reads reads, time_of_live live, follows] at ran reached
    rw [if_neg]
    · exact ⟨after, _, _, answering_ok ran, later, reached, Or.inl ⟨rfl, rfl⟩⟩
    rintro ⟨logging, large, nonempty⟩
    refine nonempty (returns large logging _ after ran ?_)
    intro record inside
    rcases extend with ⟨more, grown, accepted⟩
    have same := reached.logged
    rw [logging, if_pos rfl, grown] at same
    refine accepted record ?_
    rw [List.append_cancel_left same]
    exact List.mem_append_right _ inside
  · rcases throws refused after ran with ⟨large, nonempty⟩
    rw [if_pos ⟨aborted.logging healthy.memory small, large, nonempty⟩]
    rcases aborted with failed | ⟨now, reads, failed⟩
    · exact ⟨after, _, _, answering_error ran, later, failed.reached (by decide),
        Or.inr ⟨⟨_, rfl⟩, rfl, rfl⟩⟩
    · rw [still.reads reads, time_of_live live] at failed
      exact ⟨after, _, _, answering_error ran, later, failed.reached (by decide),
        Or.inl ⟨rfl, rfl⟩⟩

/-- The form of an operation that starts with the lookup. -/
theorem performs_writing {rest : Option Addr -> Op α} (starts : op = findWritable key >>= rest)
    (implements : Implements op key (Node.maxKeyLength < key.length) spec)
    (follows : forall time, spec time space =
      (plan (Spec.writable time key space).result).outcome key (Spec.writable time key space))
    (free : key.length ≤ Node.maxKeyLength -> LogFree refusal op) (tooLarge : Bool)
    (ready : Ready world space) (healthy : Healthy world) (live : world.db.replaying = false)
    (still : At world moment)
    (throws : key.length ≤ Node.maxKeyLength -> refusal -> forall after,
      op world = (.error (.error .requestTooLarge), after) -> tooLarge = true ∧
        (plan (Spec.writable (some moment.steady) key space).result).records ≠ [])
    (returns : key.length ≤ Node.maxKeyLength -> tooLarge = true -> world.logging = true ->
      forall value after, op world = (.ok value, after) ->
      (forall record,
        record ∈ (plan (Spec.writable (some moment.steady) key space).result).records ->
          Wal.Accepted record) ->
      (plan (Spec.writable (some moment.steady) key space).result).records = []) :
    Performs (answering wrap op) world space
      (Spec.perform world.logging moment.steady space (.writing wrap key plan tooLarge)) := by
  unfold Form.writing
  split
  case isTrue long =>
    refine performs_answers (.error (.error .requestTooLarge)) ready healthy ?_
    rw [starts]
    exact findWritable_long long
  case isFalse short =>
    have fits := Nat.not_lt.mp short
    exact performs_writes implements follows (free fits) short tooLarge ready healthy live still
      (throws fits) (returns fits)

theorem performs_plain {rest : Option Addr -> Op α} (starts : op = findWritable key >>= rest)
    (implements : Implements op key (Node.maxKeyLength < key.length) spec)
    (follows : Spec.Follows key spec plan)
    (free : key.length ≤ Node.maxKeyLength -> LogFree False op)
    (ready : Ready world space) (healthy : Healthy world) (live : world.db.replaying = false)
    (still : At world moment) :
    Performs (answering wrap op) world space
      (Spec.perform world.logging moment.steady space (.writing wrap key plan false)) :=
  performs_writing starts implements (fun time => follows time space) free false ready healthy live
    still (fun _ never => never.elim) nofun

/-! ## Requests that the log may refuse -/

section Refused

variable {field : Bytes} {value : Value} {fields : List Bytes}

/-- Setting a field throws only when it gets as far as the log. -/
theorem hashAssign_throws (ready : Ready world space) (healthy : Healthy world)
    (live : world.db.replaying = false) (still : At world moment)
    (short : key.length ≤ Node.maxKeyLength) :
    (hashAssign key field value).wp (fun _ _ => True)
      (fun _ _ => (Spec.planHashAssign key field value
        (Spec.writable (some moment.steady) key space).result).records ≠ []) world := by
  unfold hashAssign
  refine wp_findWritable_total ready healthy short ?_
  intro now found after opened later
  have hash := opened.hash
  rw [still.reads opened.reads, time_of_live live] at hash
  rw [Cmd.wp_bind, Cmd.wp_read, refuseAssign_eq hash]
  unfold Spec.planHashAssign
  cases Spec.hashOf (Spec.writable (some moment.steady) key space).result with
  | error code => exact trivial
  | ok fields =>
      simp only [Spec.refusesAssign]
      by_cases large : field.length > Node.fieldLimit ∨ Pack.bodySize value > Node.fieldLimit
      · rw [if_pos large]
        exact trivial
      · rw [if_neg large, if_neg large]
        exact Cmd.wp_of_forall (fun _ _ => trivial) (fun _ _ => List.cons_ne_nil _ _)

/-- Removing a field throws only when it gets as far as the log. -/
theorem hashDel_throws (ready : Ready world space) (healthy : Healthy world)
    (live : world.db.replaying = false) (still : At world moment)
    (short : key.length ≤ Node.maxKeyLength) :
    (hashDel key field).wp (fun _ _ => True)
      (fun _ _ => (Spec.planHashDel key field
        (Spec.writable (some moment.steady) key space).result).records ≠ []) world := by
  unfold hashDel
  refine wp_findWritable_total ready healthy short ?_
  intro now found after opened later
  have hash := opened.hash
  rw [still.reads opened.reads, time_of_live live] at hash
  unfold Spec.planHashDel
  generalize Spec.hashOf (Spec.writable (some moment.steady) key space).result = result
    at hash ⊢
  cases hash with
  | absent => exact trivial
  | other type =>
      simp only [Cmd.wp_bind, Cmd.wp_read, if_pos type]
      exact trivial
  | @promoted addr nonempty promoted =>
      simp only [Cmd.wp_bind, Cmd.wp_read, promoted.type, ne_eq, not_true_eq_false, if_false,
        promoted.promoted, if_true, Assoc.lookup_toMap]
      split
      · exact Cmd.wp_of_forall (fun _ _ => trivial) (fun _ _ => List.cons_ne_nil _ _)
      · exact trivial
  | @packed addr pairs nonempty packed =>
      simp only [Cmd.wp_bind, Cmd.wp_read, packed.type, ne_eq, not_true_eq_false, if_false,
        packed.packed, Bool.false_eq_true, Assoc.lookup_toMap]
      cases known : Assoc.find field pairs with
      | none =>
          rw [packed.hashFind_absent known]
          exact trivial
      | some old => exact Cmd.wp_of_forall (fun _ _ => trivial) (fun _ _ => List.cons_ne_nil _ _)

/-- A batch with a field that is too long never reaches the log. -/
theorem logFree_hashSetTexts_long (long : (textPairs fields).any Spec.tooLong = true) :
    LogFree False (hashSetTexts key fields) := by
  refine logFree_ite (fun _ => logFree_pure _) fun _ => ?_
  refine LogFree.bind logFree_findWritable fun found => logFree_read (fun _ => rfl) fun world => ?_
  refine logFree_ite (fun _ => logFree_pure _) fun _ =>
    logFree_ite (fun _ => logFree_pure _) fun _ => ?_
  refine LogFree.bind logFree_allocate fun _ =>
    LogFree.bind routine_emplaceAll.logFree fun table => ?_
  refine logFree_mergeTexts.bind_post (fun merged => merged = none) ?_ ?_
  · intro world merged later ran
    rcases Cmd.of_wp_ok (mergeTexts_result _ _ world) ran with ⟨-, refused, -⟩
    exact refused.mpr long
  · rintro merged rfl
    exact logFree_pure _

theorem logging_rehashFor {found : Option Addr} :
    (rehashFor found).wp (fun _ after => after.logging = world.logging) (fun _ _ => True)
      world := by
  unfold rehashFor maybeRehash
  refine Cmd.wp_onlyIf (fun _ => ?_) (fun _ => rfl)
  rw [Cmd.wp_bind, Cmd.wp_read]
  refine Cmd.wp_onlyIf (fun _ => ?_) (fun _ => rfl)
  rw [Cmd.wp_bind]
  exact wp_allocate (fun _ => trivial) (fun _ _ => rfl)

/-- A node is not entered when its records are refused. -/
theorem install_refused {found : Option Addr} {type : NodeType} {capacity : Nat}
    {fill : Node -> Node} {body : Op Unit} {keepTtl : Bool} (logging : world.logging = true)
    (refuses : forall later : World, later.logging = true ->
      body.wp (fun _ _ => False) (fun _ _ => True) later) :
    (install found key type capacity fill body keepTtl).wp (fun _ _ => False) (fun _ _ => True)
      world := by
  unfold install createNode modifyDb guarded
  rw [Cmd.wp_bind]
  refine Cmd.wp_ite (fun _ => trivial) fun _ => ?_
  rw [Cmd.wp_bind]
  refine wp_allocate (fun _ => trivial) fun garbage _ => ?_
  simp only [Cmd.wp_bind, Cmd.wp_read, Cmd.wp_update, Cmd.wp_pure, Cmd.wp_handle]
  refine Cmd.wp_mono (refuses _ ?_) (fun _ _ never => never.elim) ?_
  · exact logging
  · exact fun _ _ _ => Cmd.wp_of_forall (fun _ _ => trivial) (fun _ _ => trivial)

theorem logBatch_refused {size : Nat} {kind : WalOp} {batch : List (List Bytes)}
    (logging : world.logging = true) (large : Wal.maxRecord + 8 < size) :
    (logBatch size kind batch).wp (fun _ _ => False) (fun _ _ => True) world := by
  rw [World.logging, Bool.and_eq_true, Bool.not_eq_true'] at logging
  have reserve : forall wal, (Wal.reserveRecord size).wp (fun _ _ => False) (fun _ _ => True)
      wal := by
    intro wal
    unfold Wal.reserveRecord
    rw [Cmd.wp_bind, if_pos large]
    exact Cmd.wp_of_forall (fun _ _ => trivial) (fun _ _ => trivial)
  unfold logBatch whenLogging
  rw [Cmd.wp_bind, Cmd.wp_bind, Cmd.wp_read]
  refine Cmd.wp_onlyIf (fun _ => ?_) (fun replaying => absurd logging.2 replaying)
  refine wp_onWal ?_ ?_
  · intro absent
    rw [absent] at logging
    cases logging.1
  · intro wal _
    exact Cmd.wp_mono (reserve wal) (fun _ _ never => never.elim) (fun _ _ _ => trivial)

/-- A batch of fields that is too large for the log returns only if nothing had
to be logged. -/
theorem hashSetTexts_returns (ready : Ready world space) (healthy : Healthy world)
    (live : world.db.replaying = false) (still : At world moment)
    (short : key.length ≤ Node.maxKeyLength) (even : fields.length % 2 = 0)
    (large : TooLarge key (textPairs fields)) (logging : world.logging = true) :
    (hashSetTexts key fields).wp
      (fun _ _ => (Spec.planHashSetTexts key fields
        (Spec.writable (some moment.steady) key space).result).records = [])
      (fun _ _ => True) world := by
  unfold hashSetTexts
  rw [if_neg (not_not_intro even)]
  refine wp_findWritable_total ready healthy short ?_
  intro now found after opened later
  have hash := opened.hash
  have same : after.logging = true := opened.reached.evolves.logging.trans logging
  unfold Spec.planHashSetTexts
  rw [still.reads opened.reads, time_of_live live] at hash
  rw [Cmd.wp_bind, Cmd.wp_read]
  generalize Spec.hashOf (Spec.writable (some moment.steady) key space).result = result
    at hash ⊢
  cases result with
  | error code =>
      cases hash with
      | other type =>
          simp only [Option.map_some, Option.getD_some, if_pos type]
          rfl
  | ok map =>
      simp only [hash.type, ne_eq, not_true_eq_false, if_false]
      by_cases nothing : fields = []
      · rw [if_pos nothing, if_pos nothing]
        rfl
      rw [if_neg nothing, if_neg nothing, Cmd.wp_bind]
      refine wp_allocate (fun _ => trivial) fun _ _ => ?_
      refine Cmd.wp_step logging_emplaceAll ?_ (fun _ _ _ => trivial)
      intro table built builtLogging
      refine Cmd.wp_step (mergeTexts_result _ _ built) ?_ (fun _ _ _ => trivial)
      rintro merged filled ⟨filledLogging, refused, holds⟩
      cases merged with
      | none =>
          rw [refused.mp rfl]
          rfl
      | some merge =>
          rcases large with ⟨pair, inside, large⟩
          have bound := (holds merge rfl).1 pair inside
          have refuses : forall later : World, later.logging = true ->
              (logBatch (key.length + merge.largest + 64) .hashSet
                ((textPairs fields).map fun pair => [key, pair.1, ascii "s", pair.2])).wp
                (fun _ _ => False) (fun _ _ => True) later :=
            fun later logging => logBatch_refused logging (by omega)
          have there : filled.logging = true := by
            rw [filledLogging, builtLogging]
            exact same
          rw [Cmd.wp_bind, installTable, Cmd.wp_bind]
          refine Cmd.wp_mono logging_rehashFor ?_ (fun _ _ _ => trivial)
          intro _ rehashed rehashedLogging
          have logs := @install_refused key rehashed found .hash
          refine Cmd.wp_ite (fun _ => ?_) fun _ => ?_
          · exact Cmd.wp_step (logs (rehashedLogging.trans there) refuses)
              (fun _ _ never => never.elim) (fun _ _ _ => trivial)
          · exact Cmd.wp_step (logs (rehashedLogging.trans there) refuses)
              (fun _ _ never => never.elim) (fun _ _ _ => trivial)

/-- A batch of fields is refused only when it gets as far as the log. -/
theorem hashSetTexts_throws (ready : Ready world space) (healthy : Healthy world)
    (live : world.db.replaying = false) (still : At world moment)
    (short : key.length ≤ Node.maxKeyLength) (even : fields.length % 2 = 0) :
    (hashSetTexts key fields).wp (fun _ _ => True)
      (fun thrown _ => thrown = .error .requestTooLarge ->
        (Spec.planHashSetTexts key fields
          (Spec.writable (some moment.steady) key space).result).records ≠ []) world := by
  cases long : (textPairs fields).any Spec.tooLong with
  | true =>
      rcases (hashSetTexts_spec key fields).total (logFree_hashSetTexts_long long)
        (Nat.not_lt.mpr short) ready healthy with ⟨now, after, -, ran, -⟩ | ⟨never, -⟩
      · unfold Cmd.wp
        rw [ran]
        exact trivial
      · exact never.elim
  | false =>
      unfold hashSetTexts
      rw [if_neg (not_not_intro even)]
      refine wp_findWritable_total ready healthy short ?_
      intro now found after opened later
      have hash := opened.hash
      rw [still.reads opened.reads, time_of_live live] at hash
      rw [Cmd.wp_bind, Cmd.wp_read]
      unfold Spec.planHashSetTexts
      generalize Spec.hashOf (Spec.writable (some moment.steady) key space).result = result
        at hash ⊢
      cases result with
      | error code =>
          cases hash with
          | other type =>
              simp only [Option.map_some, Option.getD_some, if_pos type]
              exact trivial
      | ok map =>
          simp only [hash.type, ne_eq, not_true_eq_false, if_false, long, Bool.false_eq_true]
          by_cases nothing : fields = []
          · rw [if_pos nothing]
            exact trivial
          · rw [if_neg nothing, if_neg nothing]
            refine Cmd.wp_of_forall (fun _ _ => trivial) fun _ _ _ => ?_
            exact fun empty => textPairs_ne_nil even nothing (List.map_eq_nil_iff.mp empty)

end Refused

/-! ## Deadlines -/

theorem log_total {kind : WalOp} {args : List Bytes} (healthy : Healthy world)
    (accepted : Wal.Accepted (Spec.record kind args)) :
    (log kind args).wp (fun _ after => Healthy after) (fun _ _ => False) world := by
  refine (logFree_accepted accepted).returns healthy ?_
  unfold log whenLogging
  rw [Cmd.wp_bind, Cmd.wp_read]
  exact Cmd.wp_onlyIf (fun _ => trivial) (fun _ => trivial)

/-- A deadline that has not passed is not negative. -/
theorem deadline_nonneg {now instant : Int64} (nonneg : 0 ≤ now)
    (found : (Spec.writable (some now) key space).result.bind Entry.deadline = some instant) :
    0 ≤ instant := by
  rw [Option.bind_eq_some_iff] at found
  rcases found with ⟨entry, result, deadline⟩
  unfold Spec.writable at result
  cases known : space.find key with
  | none =>
      rw [known] at result
      cases result
  | some other =>
      rw [known] at result
      dsimp only at result
      split at result
      · cases result
      case isFalse alive =>
        cases result
        have later : ¬ instant ≤ now := by
          simpa [Spec.expired, deadline] using alive
        exact Int64.le_of_lt (Int64.lt_of_le_of_lt nonneg (Int64.not_le.mp later))

/-- `expire` refuses a deadline only for a key that is there. -/
theorem expire_throws {seconds : Int64} (ready : Ready world space) (healthy : Healthy world)
    (live : world.db.replaying = false) (still : At world moment)
    (short : key.length ≤ Node.maxKeyLength) :
    (expire key seconds).wp (fun _ _ => True)
      (fun _ _ => (Spec.writable (some moment.steady) key space).result.isSome = true ∧
        0 < seconds) world := by
  unfold expire
  refine wp_findWritable_total ready healthy short ?_
  intro now found after opened later
  have result := opened.result
  rw [still.reads opened.reads, time_of_live live] at result
  rw [result]
  cases found with
  | none => exact trivial
  | some addr =>
      refine Cmd.wp_ite (fun _ => ?_) fun positive => ?_
      · unfold eraseLogged
        exact Cmd.wp_step (log_total later (accepted_key short)) (fun _ _ _ => trivial)
          (fun _ _ never => never.elim)
      · exact Cmd.wp_of_forall (fun _ _ => trivial) (fun _ _ => ⟨rfl, Int64.not_le.mp positive⟩)

theorem perform_expiring {logging : Bool} {seconds : Int64}
    (fine : ¬ ((Spec.writable (some moment.steady) key space).result.isSome = true ∧ 0 < seconds ∧
      maxSeconds moment.steady moment.wall < seconds)) :
    Spec.perform logging moment.steady space (.writes key (Form.expiring moment key seconds) false) =
      ⟨.ok (.flag (Spec.expire key seconds moment.steady moment.stamp (some moment.steady)
          space).result),
        (Spec.expire key seconds moment.steady moment.stamp (some moment.steady) space).space,
        (Spec.expire key seconds moment.steady moment.stamp (some moment.steady) space).records⟩ := by
  unfold Spec.perform Form.expiring
  simp only
  rw [if_neg (fun impossible => by cases impossible.2.1), if_neg fine, Spec.follows_expire]
  rfl

theorem perform_expiring_far {logging : Bool} {seconds : Int64}
    (far : (Spec.writable (some moment.steady) key space).result.isSome = true ∧ 0 < seconds ∧
      maxSeconds moment.steady moment.wall < seconds) :
    Spec.perform logging moment.steady space (.writes key (Form.expiring moment key seconds) false) =
      ⟨.error (.error .valueNotInteger), (Spec.writable (some moment.steady) key space).space,
        (Spec.writable (some moment.steady) key space).records⟩ := by
  unfold Spec.perform Form.expiring
  simp only
  rw [if_neg (fun impossible => by cases impossible.2.1), if_pos far, Spec.Plan.outcome_answer]

/-- A key that is there gets its deadline or is removed. -/
theorem expire_found {seconds now stamp : Int64} {time : Option Int64}
    (present : (Spec.writable time key space).result.isSome = true) :
    (Spec.expire key seconds now stamp time space).result = true := by
  unfold Spec.expire
  cases found : (Spec.writable time key space).result with
  | none =>
      rw [found] at present
      cases present
  | some entry =>
      simp only [found]
      split
      · rfl
      · rfl

theorem ExpireAborted.cause {thrown : Exn}
    (aborted : ExpireAborted world after key space oversize thrown) :
    world.logging = true ∨ (exists n, world.allocations n = none) ∨ oversize := by
  rcases aborted with (failed | ⟨now, -, failed⟩) | ⟨now, instant, -, -, -, failed⟩
  · exact failed.cause
  · exact failed.cause
  · exact failed.cause

theorem performs_expire {seconds : Int64} (ready : Ready world space) (healthy : Healthy world)
    (live : world.db.replaying = false) (still : At world moment) :
    Performs (answering .flag (expire key seconds)) world space
      (Spec.perform world.logging moment.steady space
        (if Node.maxKeyLength < key.length then .answers (.error (.error .requestTooLarge))
          else .writes key (Form.expiring moment key seconds) false)) := by
  split
  case isTrue long =>
    exact performs_answers (.error (.error .requestTooLarge)) ready healthy (findWritable_long long)
  case isFalse short =>
    have fits := Nat.not_lt.mp short
    have nonneg : 0 ≤ moment.steady := still.steady 0 ▸ world.steady.nonneg 0
    rcases @logFree_expire key seconds fits world healthy with ⟨later, -, same | ⟨never, -⟩⟩
    · rcases ran : expire key seconds world with ⟨thrown | value, after⟩
      · unfold InStep at same
        rw [ran] at same later
        have blame : thrown = .error .valueNotInteger ∧
            maxSeconds moment.steady moment.wall < seconds := by
          have cause := (Cmd.of_wp_error (expire_spec ready.unlogged key seconds) same).cause
          rcases cause with logging | ⟨n, fails⟩ | long | ⟨equal, instant, reads, far⟩
          · cases logging
          · exact absurd fails (healthy.memory n)
          · exact absurd long short
          · rw [still.reads reads, show world.unlogged.wall.reading 0 = moment.wall from still.wall]
              at far
            exact ⟨equal, far⟩
        have present := Cmd.of_wp_error (expire_throws ready healthy live still fits) ran
        rw [perform_expiring_far ⟨present.1, present.2, blame.2⟩]
        rcases blame with ⟨rfl, -⟩
        rcases Cmd.of_wp_error (expire_spec ready key seconds) ran with
          (failed | ⟨now, reads, failed⟩) | ⟨now, instant, reads, negative, deadline, -⟩
        · exact ⟨after, space, [], answering_error ran, later, failed.reached (by decide),
            Or.inr ⟨⟨_, rfl⟩, rfl, rfl⟩⟩
        · rw [still.reads reads, time_of_live live] at failed
          exact ⟨after, _, _, answering_error ran, later, failed.reached (by decide),
            Or.inl ⟨rfl, rfl⟩⟩
        · rw [still.reads reads, time_of_live live] at deadline
          exact absurd (deadline_nonneg nonneg deadline) (Int64.not_le.mpr negative)
      · rw [ran] at later
        rcases Cmd.of_wp_ok (expire_spec ready key seconds) ran with
          ⟨now, instant, reads, again, limit, rfl, reached⟩
        rw [still.reads reads, still.reads again, time_of_live live, still.stamp] at reached ran limit
        rw [still.wall] at limit
        rw [perform_expiring]
        · exact ⟨after, _, _, answering_ok ran, later, reached, Or.inl ⟨rfl, rfl⟩⟩
        rintro ⟨present, positive, far⟩
        exact Int64.not_lt.mpr (limit (expire_found present) positive) far
    · exact never.elim

theorem performs_ttl (ready : Ready world space) (healthy : Healthy world)
    (live : world.db.replaying = false) (still : At world moment) :
    Performs (answering .seconds (ttl key)) world space
      (Spec.perform world.logging moment.steady space
        (.reads key fun found => .seconds (Spec.ttl moment.steady found))) := by
  have later := (@logFree_ttl False key world healthy).1
  have post := ttl_spec ready key
  rcases ran : ttl key world with ⟨thrown | value, after⟩
  · exact (Cmd.of_wp_error post ran).elim
  · rcases Cmd.of_wp_ok post ran with ⟨now, instant, reads, again, rfl, reached⟩
    rw [still.reads reads, still.reads again, time_of_live live] at ran
    rw [still.reads reads, time_of_live live] at reached
    rw [ran] at later
    exact ⟨after, _, _, answering_ok ran, later, reached, Or.inl ⟨rfl, rfl⟩⟩

/-! ## All requests -/

/-- Operations with one record, which the log may refuse. -/
theorem performs_record {rest : Option Addr -> Op α} {record : Wal.Record}
    (starts : op = findWritable key >>= rest)
    (implements : Implements op key (Node.maxKeyLength < key.length) spec)
    (follows : Spec.Follows key spec plan) (free : LogFree (¬ Wal.Accepted record) op)
    (ready : Ready world space) (healthy : Healthy world) (live : world.db.replaying = false)
    (still : At world moment)
    (shape : forall found, (plan found).records = [] ∨ (plan found).records = [record])
    (throws : key.length ≤ Node.maxKeyLength -> op.wp (fun _ _ => True) (fun _ _ =>
      (plan (Spec.writable (some moment.steady) key space).result).records ≠ []) world) :
    Performs (answering wrap op) world space (Spec.perform world.logging moment.steady space
      (.writing wrap key plan (!decide (Wal.Accepted record)))) := by
  refine performs_writing starts implements (fun time => follows time space) (fun _ => free) _
    ready healthy live still ?_ ?_
  · intro short refused after ran
    have something := Cmd.of_wp_error (throws short) ran
    exact ⟨by rw [decide_eq_false refused]; rfl, something⟩
  · intro _ large _ _ _ _ accepted
    -- A record that was accepted is not too large, so that there is none.
    rcases shape (Spec.writable (some moment.steady) key space).result with none | one
    · exact none
    · have fits := accepted record (by rw [one]; exact List.mem_singleton_self record)
      rw [decide_eq_true fits] at large
      cases large

theorem planHashAssign_records {field : Bytes} {value : Value} {found : Option Entry} :
    (Spec.planHashAssign key field value found).records = [] ∨
      (Spec.planHashAssign key field value found).records =
        [Spec.record .hashSet (key :: field :: value.logged)] := by
  unfold Spec.planHashAssign
  split
  · exact Or.inl rfl
  · split
    · exact Or.inl rfl
    · exact Or.inr rfl

theorem planHashDel_records {field : Bytes} {found : Option Entry} :
    (Spec.planHashDel key field found).records = [] ∨
      (Spec.planHashDel key field found).records = [Spec.record .hashDel [key, field]] := by
  unfold Spec.planHashDel
  split
  · exact Or.inl rfl
  · split
    · exact Or.inr rfl
    · exact Or.inl rfl

theorem hashSetTexts_starts {fields : List Bytes} (even : ¬ fields.length % 2 ≠ 0) :
    exists rest, hashSetTexts key fields = findWritable key >>= rest := by
  unfold hashSetTexts
  rw [if_neg even]
  exact ⟨_, rfl⟩

theorem performs_hashSetTexts {fields : List Bytes} (ready : Ready world space)
    (healthy : Healthy world) (live : world.db.replaying = false) (still : At world moment) :
    Performs (answering .count (hashSetTexts key fields)) world space
      (Spec.perform world.logging moment.steady space
        (if fields.length % 2 ≠ 0 then .answers (.ok (.count (.error .wrongArgumentCount)))
          else .writing .count key (Spec.planHashSetTexts key fields)
            (decide (TooLarge key (textPairs fields))))) := by
  split
  case isTrue odd =>
    refine performs_answers (.ok (Except.error ErrorCode.wrongArgumentCount)) ready healthy ?_
    unfold hashSetTexts
    rw [if_pos odd]
    rfl
  case isFalse even =>
    rcases @hashSetTexts_starts key fields even with ⟨rest, starts⟩
    have follows : forall time, Spec.hashSetTexts key fields time space =
        (Spec.planHashSetTexts key fields (Spec.writable time key space).result).outcome key
          (Spec.writable time key space) := by
      intro time
      rw [Spec.hashSetTexts_eq, if_neg even]
    refine performs_writing starts (hashSetTexts_spec key fields) follows logFree_hashSetTexts
      (decide (TooLarge key (textPairs fields))) ready healthy live still ?_ ?_
    · intro short large after ran
      refine ⟨decide_eq_true large, ?_⟩
      have something := Cmd.of_wp_error (hashSetTexts_throws ready healthy live still short
        (Decidable.not_not.mp even)) ran
      exact something rfl
    · intro short large logging value after ran _
      have nothing := Cmd.of_wp_ok (hashSetTexts_returns ready healthy live still short
        (Decidable.not_not.mp even) (of_decide_eq_true large) logging) ran
      exact nothing

theorem set_starts {val : Bytes} (small : ¬ maxValueLength < val.length) :
    exists rest, set key val = findWritable key >>= rest := by
  unfold set
  rw [if_neg small]
  exact ⟨_, rfl⟩

theorem performs_set {val : Bytes} (small : val.length ≤ maxValueLength) (ready : Ready world space)
    (healthy : Healthy world) (live : world.db.replaying = false) (still : At world moment) :
    Performs (answering (fun _ => .done) (set key val)) world space
      (Spec.perform world.logging moment.steady space
        (.writing (fun _ => .done) key (Spec.planSet key val) false)) := by
  rcases @set_starts key val (Nat.not_lt.mpr small) with ⟨rest, starts⟩
  refine performs_plain starts ?_ (Spec.follows_set val) logFree_set ready healthy live still
  intro world space ready
  refine Cmd.wp_mono (set_spec key val world space ready) (fun _ _ post => post) ?_
  have weaken : Node.maxKeyLength < key.length ∨ maxValueLength < val.length ->
      Node.maxKeyLength < key.length :=
    fun large => large.resolve_right (Nat.not_lt.mpr small)
  rintro thrown after (failed | ⟨now, reads, failed⟩)
  · exact Or.inl (failed.weaken weaken)
  · exact Or.inr ⟨now, reads, failed.weaken weaken⟩

/-- Every call on a key does what its form says, where nothing fails and the
clocks stand still: the form determines the result, the keyspace and the
records. -/
theorem Call.performs {call : Call} {form : Form} (formed : call.form moment = some form)
    (ready : Ready world space) (healthy : Healthy world) (live : world.db.replaying = false)
    (still : At world moment) :
    Performs call.run world space (Spec.perform world.logging moment.steady space form) := by
  cases call <;> first | (cases formed; done) | cases Option.some.inj formed
  case set.refl key val =>
    split
    case isTrue long =>
      refine performs_answers (.error (.error .requestTooLarge)) ready healthy ?_
      rw [Database.set, if_pos long]
      rfl
    case isFalse small =>
      exact performs_set (Nat.not_lt.mp small) ready healthy live still
  case get.refl key =>
    exact performs_reads (get_spec key) rfl logFree_get ready healthy live still
  case valueView.refl key =>
    exact performs_reads (valueView_spec key) rfl logFree_valueView ready healthy live still
  case increment.refl key =>
    exact performs_plain rfl (increment_spec key) Spec.follows_increment logFree_increment ready
      healthy live still
  case pushLeft.refl key value =>
    exact performs_plain rfl (listPush_spec key value true) (Spec.follows_listPush value true)
      logFree_listPush ready healthy live still
  case pushRight.refl key value =>
    exact performs_plain rfl (listPush_spec key value false) (Spec.follows_listPush value false)
      logFree_listPush ready healthy live still
  case pushTexts.refl key values front =>
    exact performs_plain rfl (pushTexts_spec key values front)
      (Spec.follows_pushTexts values front) logFree_pushTexts ready healthy live still
  case popLeft.refl key =>
    exact performs_plain rfl (listPop_spec key true) (Spec.follows_listPop true) logFree_listPop
      ready healthy live still
  case popRight.refl key =>
    exact performs_plain rfl (listPop_spec key false) (Spec.follows_listPop false) logFree_listPop
      ready healthy live still
  case listLength.refl key =>
    exact performs_reads (listLength_spec key) Spec.listLength_eq logFree_listLength ready healthy live still
  case hashSet.refl key field value =>
    exact performs_record rfl (hashAssign_spec key field value) (Spec.follows_hashAssign field value)
      (routine_hashAssign id).logFree ready healthy live still (fun _ => planHashAssign_records)
      (hashAssign_throws ready healthy live still)
  case hashSetTexts.refl key fields =>
    exact performs_hashSetTexts ready healthy live still
  case hashGet.refl key field =>
    exact performs_reads (hashGet_spec key field) Spec.hashField_eq logFree_hashGet ready healthy live still
  case hashField.refl key field =>
    exact performs_reads (hashField_spec key field) Spec.hashField_eq logFree_hashField ready
      healthy live still
  case hashDel.refl key field =>
    exact performs_record rfl (hashDel_spec key field) (Spec.follows_hashDel field)
      (routine_hashDel id).logFree ready healthy live still (fun _ => planHashDel_records)
      (hashDel_throws ready healthy live still)
  case hashLength.refl key =>
    exact performs_reads (hashLength_spec key) Spec.hashLength_eq logFree_hashLength ready healthy live still
  case expire.refl key seconds =>
    exact performs_expire ready healthy live still
  case ttl.refl key =>
    exact performs_ttl ready healthy live still
  case del.refl key =>
    exact performs_plain rfl (del_spec key) Spec.follows_del logFree_del ready healthy live still

end Database

end Reddish
