import Reddish.Database.Locality

namespace Reddish

open Library Numeral

/-!
# An environment without failures

When memory and disk do what they are asked for, an operation with a log ends
as it ends without one, unless the log refuses a record for its size.  Without
a log nothing but an oversized request makes an operation throw, so that the
specifications become total: each call returns what they say.
-/

/-! ## The log -/

namespace Wal

variable {wal last : Wal} {record : Record} {size : Nat}

/-- A log that works and whose calls will all succeed. -/
structure Healthy (wal : Wal) : Prop where
  sound : Sound wal
  working : wal.failed = false
  io : forall n progress, wal.io n ≠ .failed progress
  reserve : forall n, wal.reserveFails n = false

theorem Healthy.evolves (healthy : Healthy wal) (sound : Sound last) (evolves : Evolves wal last) :
    Healthy last where
  sound := sound
  working := by
    cases broken : last.failed with
    | false => rfl
    | true =>
        rcases evolves.blame broken with failed | ⟨n, progress, failed⟩
        · rw [healthy.working] at failed
          cases failed
        · exact absurd failed (healthy.io n progress)
  io := by
    intro n progress failed
    rcases evolves.io with ⟨skipped, shift, -⟩
    exact healthy.io (n + skipped) progress ((shift n).symm.trans failed)
  reserve := by
    intro n
    rcases evolves.reserveFails with ⟨skipped, shift⟩
    exact (shift n).trans (healthy.reserve (n + skipped))

/-- The effect of a call on a healthy log: it appends some records, all of them
acceptable, and throws nothing but a refusal. -/
def Responds (body : Cmd Exn Wal Unit) (refusal : Prop) : Prop :=
  forall wal, Healthy wal ->
    body.wp
      (fun _ last => Healthy last ∧
        exists more, last.appended = wal.appended ++ more ∧ forall record, record ∈ more ->
          Accepted record)
      (fun thrown last => Healthy last ∧ last.appended = wal.appended ∧ refusal ∧
        thrown = .error .requestTooLarge) wal

theorem responds_append : Responds (append record) (¬ Accepted record) := by
  intro wal healthy
  refine Cmd.wp_mono (append_spec healthy.sound record) ?_ ?_
  · rintro _ last ⟨sound, evolves, -, appended, -, accepted⟩
    refine ⟨healthy.evolves sound evolves, [record], appended, ?_⟩
    intro other inside
    rw [List.mem_singleton.mp inside]
    exact accepted
  · rintro thrown last ⟨sound, evolves, reason⟩
    have still := healthy.evolves sound evolves
    rcases reason with ⟨-, failed⟩ | ⟨same, ⟨refused, rejected⟩ | ⟨-, -, n, fails⟩⟩
    · rw [still.working] at failed
      cases failed
    · exact ⟨still, same, rejected, refused⟩
    · rw [healthy.reserve n] at fails
      cases fails

theorem responds_quiet {last : Wal} (healthy : Healthy wal) (sound : Sound last)
    (evolves : Evolves wal last) (same : last.appended = wal.appended) :
    Healthy last ∧ exists more, last.appended = wal.appended ++ more ∧
      forall record, record ∈ more -> Accepted record :=
  ⟨healthy.evolves sound evolves, [], by rw [same, List.append_nil],
    nofun⟩

theorem responds_reserveRecord : Responds (reserveRecord size) (maxRecord + 8 < size) := by
  intro wal healthy
  refine Cmd.wp_mono (reserveRecord_spec healthy.sound size) ?_ ?_
  · rintro _ last ⟨sound, quiet, -⟩
    exact responds_quiet healthy sound quiet.toEvolves quiet.sameAppended
  · rintro thrown last ⟨sound, quiet, ⟨refused, large⟩ | ⟨-, n, fails⟩⟩
    · exact ⟨healthy.evolves sound quiet.toEvolves, quiet.sameAppended, large, refused⟩
    · rw [healthy.reserve n] at fails
      cases fails

theorem responds_beginBatch : Responds beginBatch False := by
  intro wal healthy
  refine Cmd.wp_mono (beginBatch_spec healthy.sound) ?_ (fun _ _ never => never.elim)
  rintro _ last ⟨sound, evolves, same⟩
  exact responds_quiet healthy sound evolves same

theorem responds_endBatch : Responds endBatch False := by
  intro wal healthy
  refine Cmd.wp_mono (endBatch_spec healthy.sound) ?_ ?_
  · rintro _ last ⟨sound, evolves, same, -⟩
    exact responds_quiet healthy sound evolves same
  · rintro thrown last ⟨sound, evolves, -, -, failed⟩
    rw [(healthy.evolves sound evolves).working] at failed
    cases failed

end Wal

/-! ## The world -/

namespace World

variable {world : World}

/-- The same database without its log. -/
def unlogged (world : World) : World :=
  { world with wal := none }

/-- No allocation will fail. -/
def Plentiful (world : World) : Prop :=
  forall n, world.allocations n ≠ none

theorem Evolves.plentiful {after : World} (evolves : Evolves world after)
    (plentiful : Plentiful world) : Plentiful after := by
  intro n
  rcases evolves.allocations with ⟨skipped, shift⟩
  rw [shift]
  exact plentiful _

/-- No allocation will fail, and neither will a call on the log.  A record may still be
refused because it is too large. -/
structure Healthy (world : World) : Prop where
  memory : forall n, world.allocations n ≠ none
  log : forall wal, world.wal = some wal -> Wal.Healthy wal

theorem Healthy.unlogged (healthy : Healthy world) : Healthy world.unlogged :=
  ⟨healthy.memory, nofun⟩

/-- The environment does not get worse. -/
theorem Healthy.evolves {after : World} (healthy : Healthy world) (evolves : Evolves world after)
    (sound : forall wal, after.wal = some wal -> Wal.Sound wal) : Healthy after := by
  refine ⟨evolves.plentiful healthy.memory, fun last there => ?_⟩
  have related := evolves.wal
  rw [there] at related
  cases here : world.wal with
  | none =>
      rw [here] at related
      cases related
  | some wal =>
      rw [here] at related
      cases related with
      | some later => exact (healthy.log wal here).evolves (sound last there) later

/-- The log has grown by records that it accepts. -/
def Extends (world after : World) : Prop :=
  exists more, after.records = world.records ++ more ∧ forall record, record ∈ more ->
    Wal.Accepted record

theorem Extends.of_eq {after : World} (same : after.wal = world.wal) : Extends world after := by
  refine ⟨[], ?_, nofun⟩
  rw [records, records, same, List.append_nil]

theorem Extends.trans {first second third : World} (left : Extends first second)
    (right : Extends second third) : Extends first third := by
  rcases left with ⟨some, one, accepted⟩
  rcases right with ⟨more, two, acceptedLater⟩
  refine ⟨some ++ more, by rw [two, one, List.append_assoc], ?_⟩
  intro record inside
  rcases List.mem_append.mp inside with early | late
  · exact accepted record early
  · exact acceptedLater record late

end World

/-! ## Code that does not depend on the log -/

namespace Database

open World (Healthy Extends)
open Cmd (onlyIf)

variable {α β ι : Type} {op : Op α} {rest : α -> Op β} {refusal other : Prop} {world : World}
variable {key : Bytes} {addr : Addr}

/-- The run with the log and the run without it end in the same way, and in the
same state apart from the log. -/
def InStep (op : Op α) (world : World) : Prop :=
  op world.unlogged = ((op world).1, (op world).2.unlogged)

/-- In a healthy environment the log makes no difference, unless it refuses a
record; the operation then throws the refusal. -/
def LogFree (refusal : Prop) (op : Op α) : Prop :=
  forall world, Healthy world -> Healthy (op world).2 ∧ Extends world (op world).2 ∧
    (InStep op world ∨ refusal ∧ (op world).1 = .error (.error .requestTooLarge))

theorem LogFree.weaken (free : LogFree refusal op) (implies : refusal -> other) :
    LogFree other op := by
  intro world healthy
  rcases free world healthy with ⟨later, extend, same⟩
  exact ⟨later, extend, same.imp_right (And.imp_left implies)⟩

/-- Code that touches neither the log nor, beyond using some of it up, the
memory to come. -/
theorem logFree_silent (same : forall world, InStep op world)
    (wal : forall world, (op world).2.wal = world.wal)
    (memory : forall world n, exists m, (op world).2.allocations n = world.allocations m) :
    LogFree refusal op := by
  intro world healthy
  refine ⟨⟨?_, ?_⟩, Extends.of_eq (wal world), Or.inl (same world)⟩
  · intro n fails
    rcases memory world n with ⟨m, shift⟩
    exact healthy.memory m (shift.symm.trans fails)
  · rw [wal world]
    exact healthy.log

theorem logFree_pure (value : α) : LogFree refusal (pure value : Op α) :=
  logFree_silent (fun _ => rfl) (fun _ => rfl) (fun _ n => ⟨n, rfl⟩)

theorem logFree_raise (thrown : Exn) : LogFree refusal (Cmd.raise thrown : Op α) :=
  logFree_silent (fun _ => rfl) (fun _ => rfl) (fun _ n => ⟨n, rfl⟩)

theorem logFree_modifyDb (change : Db -> Db) : LogFree refusal (modifyDb change) :=
  logFree_silent (fun _ => rfl) (fun _ => rfl) (fun _ n => ⟨n, rfl⟩)

theorem logFree_nowMs : LogFree refusal nowMs :=
  logFree_silent (fun _ => rfl) (fun _ => rfl) (fun _ n => ⟨n, rfl⟩)

theorem logFree_currentUnixMs : LogFree refusal currentUnixMs :=
  logFree_silent (fun _ => rfl) (fun _ => rfl) (fun _ n => ⟨n, rfl⟩)

theorem logFree_nextOrder : LogFree refusal nextOrder :=
  logFree_silent (fun _ => rfl) (fun _ => rfl) (fun _ n => ⟨n, rfl⟩)

theorem logFree_allocate : LogFree refusal allocate := by
  intro world healthy
  cases outcome : world.allocations 0 with
  | none => exact absurd outcome (healthy.memory 0)
  | some garbage =>
      have ran : allocate world =
          (.ok garbage, { world with allocations := fun n => world.allocations (n + 1) }) := by
        unfold allocate
        rw [outcome]
      have silent : InStep allocate world := by
        unfold InStep
        rw [ran]
        unfold allocate
        rw [show world.unlogged.allocations 0 = some garbage from outcome]
        rfl
      rw [ran]
      exact ⟨⟨fun n => healthy.memory (n + 1), healthy.log⟩, Extends.of_eq rfl, Or.inl silent⟩

/-- What follows may depend on what the first part can return. -/
theorem LogFree.bind_post (post : α -> Prop) (first : LogFree refusal op)
    (returns : forall world value later, op world = (.ok value, later) -> post value)
    (second : forall value, post value -> LogFree refusal (rest value)) :
    LogFree refusal (op >>= rest) := by
  intro world healthy
  rcases first world healthy with ⟨later, extend, same⟩
  unfold InStep at same ⊢
  change Healthy (Cmd.bind op rest world).2 ∧ Extends world (Cmd.bind op rest world).2 ∧
    (Cmd.bind op rest world.unlogged =
      ((Cmd.bind op rest world).1, (Cmd.bind op rest world).2.unlogged) ∨
      refusal ∧ (Cmd.bind op rest world).1 = _)
  unfold Cmd.bind
  rcases ran : op world with ⟨thrown | value, middle⟩
  · rw [ran] at later extend same
    rcases same with same | refused
    · rw [same]
      exact ⟨later, extend, Or.inl rfl⟩
    · exact ⟨later, extend, Or.inr ⟨refused.1, congrArg _ (Except.error.inj refused.2)⟩⟩
  · rw [ran] at later extend same
    rcases second value (returns world value middle ran) middle later with
      ⟨last, more, sameLater⟩
    rcases same with same | ⟨-, impossible⟩
    · rw [same]
      exact ⟨last, extend.trans more, sameLater⟩
    · cases impossible

theorem LogFree.bind (first : LogFree refusal op)
    (second : forall value, LogFree refusal (rest value)) : LogFree refusal (op >>= rest) :=
  first.bind_post (fun _ => True) (fun _ _ _ _ => trivial) (fun value _ => second value)

/-- Code that returns without a log also returns with a healthy one. -/
theorem LogFree.returns {world : World} (free : LogFree False op) (healthy : Healthy world)
    (quiet : op.wp (fun _ _ => True) (fun _ _ => False) world.unlogged) :
    op.wp (fun _ after => Healthy after) (fun _ _ => False) world := by
  rcases free world healthy with ⟨later, -, same | ⟨never, -⟩⟩
  · unfold InStep at same
    unfold Cmd.wp at quiet ⊢
    rw [same] at quiet
    rcases ran : op world with ⟨thrown | value, after⟩
    · rw [ran] at quiet
      exact quiet
    · rw [ran] at later
      exact later
  · exact never.elim

/-- Code that looks at the state, but not at the log. -/
theorem logFree_read {rest : World -> Op α} (blind : forall world, rest world.unlogged = rest world)
    (each : forall world, LogFree refusal (rest world)) : LogFree refusal (Cmd.read >>= rest) := by
  intro world healthy
  rcases each world world healthy with ⟨later, extend, same⟩
  refine ⟨later, extend, same.imp_left fun same => ?_⟩
  change rest world.unlogged world.unlogged = _
  rw [blind]
  exact same

theorem logFree_ite {condition : Prop} [Decidable condition] {yes no : Op α}
    (positive : condition -> LogFree refusal yes) (negative : ¬ condition -> LogFree refusal no) :
    LogFree refusal (if condition then yes else no) := by
  by_cases holds : condition
  · rw [if_pos holds]
    exact positive holds
  · rw [if_neg holds]
    exact negative holds

theorem logFree_onlyIf {condition : Prop} [Decidable condition] {body : Op Unit}
    (free : LogFree refusal body) : LogFree refusal (onlyIf condition body) :=
  logFree_ite (fun _ => free) (fun _ => logFree_pure ())

/-- A handler that passes refusals on. -/
theorem LogFree.handle {handler : Exn -> Op α} (body : LogFree refusal op)
    (handled : forall thrown, LogFree refusal (handler thrown))
    (passes : refusal -> forall world,
      (handler (.error .requestTooLarge) world).1 = .error (.error .requestTooLarge)) :
    LogFree refusal (op.handle handler) := by
  intro world healthy
  rcases body world healthy with ⟨later, extend, same⟩
  unfold InStep at same ⊢
  unfold Cmd.handle
  rcases ran : op world with ⟨thrown | value, middle⟩
  · rw [ran] at later extend same
    rcases handled thrown middle later with ⟨last, more, sameLater⟩
    rcases same with same | ⟨holds, refused⟩
    · rw [same]
      exact ⟨last, extend.trans more, sameLater⟩
    · cases Except.error.inj refused
      exact ⟨last, extend.trans more, Or.inr ⟨holds, passes holds middle⟩⟩
  · rw [ran] at later extend same
    rcases same with same | ⟨-, impossible⟩
    · rw [same]
      exact ⟨later, extend, Or.inl rfl⟩
    · cases impossible

theorem logFree_forEach {body : ι -> Op Unit} (items : List ι)
    (each : forall item, item ∈ items -> LogFree refusal (body item)) :
    LogFree refusal (Cmd.forEach items body) := by
  induction items with
  | nil => exact logFree_pure ()
  | cons head tail ih =>
      refine LogFree.bind (each head List.mem_cons_self) fun _ => ih ?_
      exact fun item inside => each item (List.mem_cons_of_mem head inside)

theorem logFree_onWal {body : Cmd Exn Wal Unit} (responds : Wal.Responds body refusal) :
    LogFree refusal (onWal body) := by
  intro world healthy
  cases here : world.wal with
  | none =>
      have ran : onWal body world = (.ok (), world) := by
        unfold onWal
        rw [here]
      have bare : world.unlogged = world := by
        rw [World.unlogged, <- here]
      rw [ran]
      refine ⟨healthy, Extends.of_eq rfl, Or.inl ?_⟩
      rw [InStep, bare, ran, bare]
  | some wal =>
      have holds := responds wal (healthy.log wal here)
      have ran : onWal body world = ((body wal).1, { world with wal := some (body wal).2 }) := by
        unfold onWal
        rw [here]
      unfold Cmd.wp at holds
      unfold InStep
      rw [ran]
      rcases outcome : body wal with ⟨thrown | _, last⟩
      · rw [outcome] at holds
        rcases holds with ⟨later, same, refused, equal⟩
        refine ⟨⟨healthy.memory, ?_⟩, ⟨[], ?_, ?_⟩, Or.inr ⟨refused, congrArg _ equal⟩⟩
        · rintro found equal
          cases equal
          exact later
        · rw [World.records, World.records, here, List.append_nil]
          exact same
        · exact fun _ inside => absurd inside List.not_mem_nil
      · rw [outcome] at holds
        rcases holds with ⟨later, more, grown, accepted⟩
        refine ⟨⟨healthy.memory, ?_⟩, ⟨more, ?_, accepted⟩, Or.inl rfl⟩
        · rintro found equal
          cases equal
          exact later
        · rw [World.records, World.records, here]
          exact grown

theorem logFree_whenLogging {body : Cmd Exn Wal Unit} (responds : Wal.Responds body refusal) :
    LogFree refusal (whenLogging body) :=
  logFree_read (fun _ => rfl) (fun _ => logFree_onlyIf (logFree_onWal responds))

theorem logFree_log (kind : WalOp) (args : List Bytes) :
    LogFree (¬ Wal.Accepted (Spec.record kind args)) (log kind args) :=
  logFree_whenLogging Wal.responds_append

theorem logFree_accepted {kind : WalOp} {args : List Bytes}
    (accepted : Wal.Accepted (Spec.record kind args)) : LogFree refusal (log kind args) :=
  (logFree_log kind args).weaken fun rejected => absurd accepted rejected

/-- A batch is refused before its first record, for the size of the largest. -/
theorem logFree_logBatch {size : Nat} (kind : WalOp) (batch : List (List Bytes))
    (small : forall args, args ∈ batch ->
      args.length ≤ 255 ∧ (Wal.payload (Spec.record kind args)).length + 8 ≤ size) :
    LogFree (Wal.maxRecord + 8 < size) (logBatch size kind batch) := by
  refine LogFree.bind (logFree_whenLogging Wal.responds_reserveRecord) fun _ => ?_
  refine logFree_forEach batch fun args inside => (logFree_log kind args).weaken ?_
  intro rejected
  have fits := small args inside
  refine Nat.lt_of_not_le fun bound => rejected ((Wal.accepted_iff _).mpr ⟨?_, fits.1⟩)
  have whole := Nat.le_trans fits.2 bound
  exact Nat.le_of_add_le_add_right whole

/-! ## Deadlines -/

theorem logFree_deadlinePassed : LogFree refusal (deadlinePassed addr) := by
  refine logFree_read (fun _ => rfl) fun world => ?_
  split
  · exact LogFree.bind logFree_nowMs fun now => logFree_pure _
  · exact logFree_pure _

theorem logFree_mustDrop : LogFree refusal (mustDrop addr) :=
  logFree_read (fun _ => rfl) fun _ =>
    logFree_ite (fun _ => logFree_pure _) fun _ => logFree_deadlinePassed

/-! ## Code that may be replayed -/

/-- Code put together from the steps an operation makes while a log is
replayed.  It keeps the flag of the replay, asks for a clock only in
`must_drop`, and any record it logs is accepted unless `refusal` holds. -/
inductive Routine (refusal : Prop) : forall {α : Type}, Op α -> Prop
  | pure {α : Type} (value : α) : Routine refusal (pure value : Op α)
  | raise {α : Type} (thrown : Exn) : Routine refusal (Cmd.raise thrown : Op α)
  | modifyDb {change : Db -> Db} (settings : forall db, (change db).replaying = db.replaying) :
      Routine refusal (modifyDb change)
  | nextOrder : Routine refusal nextOrder
  | allocate : Routine refusal allocate
  | mustDrop {addr : Addr} : Routine refusal (mustDrop addr)
  | log {kind : WalOp} {args : List Bytes}
      (fits : ¬ Wal.Accepted (Spec.record kind args) -> refusal) : Routine refusal (log kind args)
  | read {α : Type} {rest : World -> Op α} (blind : forall world, rest world.unlogged = rest world)
      (each : forall world, Routine refusal (rest world)) : Routine refusal (Cmd.read >>= rest)
  | bind {α β : Type} {op : Op α} {rest : α -> Op β} (first : Routine refusal op)
      (second : forall value, Routine refusal (rest value)) : Routine refusal (op >>= rest)
  | handle {α : Type} {op : Op α} {handler : Exn -> Op α} (body : Routine refusal op)
      (handled : forall thrown, Routine refusal (handler thrown))
      (passes : forall world,
        (handler (.error .requestTooLarge) world).1 = .error (.error .requestTooLarge)) :
      Routine refusal (op.handle handler)

/-- Such code does not depend on the log.  The induction over its shape replaces
a proof for every operation. -/
theorem Routine.logFree (routine : Routine refusal op) : LogFree refusal op := by
  induction routine with
  | pure value => exact logFree_pure value
  | raise thrown => exact logFree_raise thrown
  | modifyDb => exact logFree_modifyDb _
  | nextOrder => exact logFree_nextOrder
  | allocate => exact logFree_allocate
  | mustDrop => exact logFree_mustDrop
  | log fits => exact (logFree_log _ _).weaken fits
  | read blind _ ih => exact logFree_read blind ih
  | bind _ _ first second => exact first.bind second
  | handle _ _ passes body handled => exact body.handle handled fun _ => passes

theorem routine_ite {condition : Prop} [Decidable condition] {yes no : Op α}
    (positive : condition -> Routine refusal yes) (negative : ¬ condition -> Routine refusal no) :
    Routine refusal (if condition then yes else no) := by
  by_cases holds : condition
  · rw [if_pos holds]
    exact positive holds
  · rw [if_neg holds]
    exact negative holds

theorem routine_onlyIf {condition : Prop} [Decidable condition] {body : Op Unit}
    (routine : Routine refusal body) : Routine refusal (onlyIf condition body) :=
  routine_ite (fun _ => routine) (fun _ => .pure ())

/-- The log accepts records up to its limit. -/
theorem accepted_record {kind : WalOp} {args : List Bytes} :
    Wal.Accepted (Spec.record kind args) <->
      2 + (args.map fun arg => 4 + arg.length).sum ≤ Wal.maxRecord ∧ args.length ≤ 255 := by
  rw [Wal.accepted_iff, Wal.length_payload]
  exact Iff.rfl

theorem accepted_key {kind : WalOp} (short : key.length ≤ Node.maxKeyLength) :
    Wal.Accepted (Spec.record kind [key]) := by
  have bound : Node.maxKeyLength + 6 ≤ Wal.maxRecord := by decide
  refine accepted_record.mpr ⟨?_, Nat.succ_le_succ (Nat.zero_le _)⟩
  simp only [List.map_cons, List.map_nil, List.sum_cons, List.sum_nil]
  omega

theorem routine_findWritable : Routine refusal (findWritable key) := by
  refine routine_ite (fun _ => .raise _) fun short => .read (fun _ => rfl) fun world => ?_
  split
  · exact .pure _
  · refine .bind .mustDrop fun passed => routine_ite (fun _ => ?_) fun _ => ?_
    · refine .bind (.bind (.log ?_) fun _ => .modifyDb fun _ => Db.settings_eraseNode.1)
        fun _ => .pure _
      exact fun rejected => absurd (accepted_key (Nat.not_lt.mp short)) rejected
    · exact .bind (.modifyDb fun _ => rfl) fun _ => .pure _

theorem routine_guarded {pending : Addr} {body : Op α} (routine : Routine refusal body) :
    Routine refusal (guarded pending body) :=
  routine.handle (fun thrown => .bind (.modifyDb fun _ => rfl) fun _ => .raise thrown)
    (fun _ => rfl)

theorem routine_createNode {type : NodeType} {capacity : Nat} :
    Routine refusal (createNode key type capacity) := by
  refine routine_ite (fun _ => .raise _) fun _ => .bind .allocate fun garbage => ?_
  exact .read (fun _ => rfl) fun world => .bind (.modifyDb fun _ => rfl) fun _ => .pure _

theorem routine_growNode {capacity : Nat} : Routine refusal (growNode addr capacity) := by
  refine .read (fun _ => rfl) fun world => routine_ite (fun _ => .raise _) fun _ => ?_
  exact .bind .allocate fun garbage => .bind (.modifyDb fun _ => Db.settings_regrow.1) fun _ => .pure _

theorem routine_maybeRehash : Routine refusal maybeRehash :=
  .read (fun _ => rfl) fun _ => routine_onlyIf (.bind .allocate fun _ => .modifyDb fun _ => rfl)

theorem routine_rehashFor {found : Option Addr} : Routine refusal (rehashFor found) :=
  routine_onlyIf routine_maybeRehash

theorem routine_scheduleExpiry {deadline : Int64} : Routine refusal (scheduleExpiry addr deadline) :=
  .read (fun _ => rfl) fun _ => .bind (routine_onlyIf (.bind .allocate fun _ => .pure ()))
    fun _ => .modifyDb fun _ => rfl

theorem routine_install {found : Option Addr} {type : NodeType} {capacity : Nat}
    {fill : Node -> Node} {records : Op Unit} {keepTtl : Bool} (routine : Routine refusal records) :
    Routine refusal (install found key type capacity fill records keepTtl) :=
  .bind routine_createNode fun _ => .bind (.modifyDb fun _ => rfl) fun _ =>
    .bind (routine_guarded routine) fun _ =>
      .bind (.modifyDb fun _ => Db.settings_commitNode.1) fun _ => .pure _

/-! ## The operations that are replayed -/

theorem routine_eraseLogged (fits : ¬ Wal.Accepted (Spec.record .del [key]) -> refusal) :
    Routine refusal (eraseLogged addr key) :=
  .bind (.log fits) fun _ => .bind (.modifyDb fun _ => Db.settings_eraseNode.1) fun _ => .pure _

theorem routine_del (fits : ¬ Wal.Accepted (Spec.record .del [key]) -> refusal) :
    Routine refusal (del key) := by
  refine .bind routine_findWritable fun found => ?_
  cases found with
  | none => exact .pure _
  | some addr => exact routine_eraseLogged fits

theorem routine_set {val : Bytes}
    (fits : val.length ≤ maxValueLength -> ¬ Wal.Accepted (Spec.record .set [key, val]) -> refusal) :
    Routine refusal (set key val) := by
  refine routine_ite (fun _ => .raise _) fun small => ?_
  have logs : Routine refusal (log .set [key, val]) := .log (fits (Nat.not_lt.mp small))
  refine .bind routine_findWritable fun found => .read (fun _ => rfl) fun world => ?_
  refine routine_ite (fun _ => ?_) fun _ => ?_
  · exact .bind routine_rehashFor fun _ => .bind (routine_install logs) fun _ => .pure _
  · cases found with
    | none => exact .pure _
    | some addr =>
        exact .bind logs fun _ => .bind (.modifyDb fun _ => rfl) fun _ =>
          .bind (.modifyDb fun _ => rfl) fun _ => .modifyDb fun _ => Db.settings_clearExpiry.1

theorem routine_increment (fits : ¬ Wal.Accepted (Spec.record .increment [key]) -> refusal) :
    Routine refusal (increment key) := by
  have logs : Routine refusal (log .increment [key]) := .log fits
  refine .bind routine_findWritable fun found => ?_
  cases found with
  | none => exact .bind routine_rehashFor fun _ => .bind (routine_install logs) fun _ => .pure _
  | some addr =>
      refine .read (fun _ => rfl) fun world => ?_
      dsimp only
      split
      · refine routine_ite (fun _ => .pure _) fun _ => .bind logs fun _ => ?_
        exact .bind (.modifyDb fun _ => rfl) fun _ => .pure _
      · split
        · exact .pure _
        · refine routine_ite (fun _ => .pure _) fun _ => .bind ?_ fun moved => .bind logs fun _ =>
            .bind (.modifyDb fun _ => rfl) fun _ => .pure _
          exact .read (fun _ => rfl) fun _ =>
            routine_ite (fun _ => routine_growNode) (fun _ => .pure _)
      · exact .pure _

theorem routine_listReserve {front back : Nat} : Routine refusal (listReserve addr front back) := by
  refine .read (fun _ => rfl) fun world => routine_ite (fun _ => .pure _) fun _ => ?_
  refine .bind ?_ fun moved => .bind (.modifyDb fun _ => rfl) fun _ => .pure _
  exact routine_ite (fun _ => routine_growNode) (fun _ => .pure _)

theorem routine_spell {value : Value} : Routine refusal (spell value) := by
  cases value with
  | integer n => exact .bind .allocate fun _ => .pure _
  | text bytes => exact .pure _

theorem routine_copyOut {value : Value} : Routine refusal (copyOut value) := by
  cases value with
  | integer n => exact .pure _
  | text bytes => exact .bind .allocate fun _ => .pure _

theorem routine_finishPush {useFront : Bool} {value : Value} :
    Routine refusal (finishPush addr useFront value) :=
  .bind (.modifyDb fun _ => rfl) fun _ => .bind (.modifyDb fun _ => rfl) fun _ =>
    .read (fun _ => rfl) fun _ => .pure _

theorem small_of_refusePush {db : Db} {found : Option Addr} {value : Value}
    (accepted : refusePush db found value = none) : Pack.encodedSize value ≤ Node.listLimit := by
  refine Nat.not_lt.mp fun large => ?_
  cases found with
  | none => simp [refusePush, large] at accepted
  | some addr =>
      simp only [refusePush] at accepted
      split at accepted
      · cases accepted
      · split at accepted
        · cases accepted
        · cases accepted

theorem routine_listPush {value : Value} {front : Bool}
    (fits : Pack.encodedSize value ≤ Node.listLimit ->
      ¬ Wal.Accepted (Spec.record (.push front) (key :: value.logged)) -> refusal) :
    Routine refusal (listPush key value front) := by
  refine .bind routine_findWritable fun found => .read (fun _ => rfl) fun world => ?_
  cases refused : refusePush world.db found value with
  | some code => exact .pure _
  | none =>
      have logs : Routine refusal (log (.push front) (key :: value.logged)) :=
        .log (fits (small_of_refusePush refused))
      refine .bind routine_spell fun _ => ?_
      cases found with
      | none =>
          refine .bind ?_ fun _ => .pure _
          refine .bind routine_rehashFor fun _ => .bind routine_createNode fun _ =>
            .bind (.modifyDb fun _ => rfl) fun _ => .bind (routine_guarded ?_) fun _ =>
              .bind (.modifyDb fun _ => Db.settings_commitNode.1) fun _ => routine_finishPush
          exact .bind routine_listReserve fun _ => .bind logs fun _ => .pure _
      | some addr =>
          refine .bind (.read (fun _ => rfl) fun _ => ?_) fun _ => .pure _
          exact .bind routine_listReserve fun _ => .bind logs fun _ => routine_finishPush

theorem routine_finishPop : Routine refusal (finishPop addr) := by
  refine .read (fun _ => rfl) fun world => routine_ite
    (fun _ => .modifyDb fun _ => Db.settings_eraseNode.1) fun _ => routine_onlyIf ?_
  refine .read (fun _ => rfl) fun world => .bind (.modifyDb fun _ => rfl) fun _ =>
    .handle (.bind routine_growNode fun _ => .pure _) ?_ (fun _ => rfl)
  intro thrown
  cases thrown with
  | badAlloc => exact .pure _
  | error code => exact .raise _

theorem routine_listPop {front : Bool}
    (fits : ¬ Wal.Accepted (Spec.record (.pop front) [key]) -> refusal) :
    Routine refusal (listPop key front) := by
  refine .bind routine_findWritable fun found => ?_
  cases found with
  | none => exact .pure _
  | some addr =>
      refine .read (fun _ => rfl) fun world => routine_ite (fun _ => .pure _) fun _ => ?_
      refine routine_ite (fun _ => .pure _) fun _ => .bind ?_ fun _ => .pure _
      exact .read (fun _ => rfl) fun _ => .bind routine_copyOut fun _ => .bind (.log fits) fun _ =>
        .bind (.modifyDb fun _ => rfl) fun _ => .bind routine_finishPop fun _ => .pure _

theorem routine_emplaceAll {pairs table : HashTable} : Routine refusal (emplaceAll pairs table) := by
  induction pairs generalizing table with
  | nil => exact .pure _
  | cons pair rest ih =>
      exact .bind (.bind .allocate fun _ => .bind .nextOrder fun _ => .pure _) fun _ => ih

theorem routine_insertOrAssign {field : Bytes} {value : Value} {table : HashTable} :
    Routine refusal (insertOrAssign field value table) :=
  .bind .allocate fun _ => .bind .nextOrder fun _ => .pure _

/-- Setting a field is refused by the log if the record is too long. -/
theorem routine_hashAssign {field : Bytes} {value : Value}
    (fits : ¬ Wal.Accepted (Spec.record .hashSet (key :: field :: value.logged)) -> refusal) :
    Routine refusal (hashAssign key field value) := by
  have logs : Routine refusal (log .hashSet (key :: field :: value.logged)) := .log fits
  refine .bind routine_findWritable fun found => .read (fun _ => rfl) fun world => ?_
  split
  · exact .pure _
  refine .bind routine_spell fun _ => .bind ?_ fun _ => .pure _
  unfold assignFound
  split
  · refine .read (fun _ => rfl) fun world => .bind routine_copyOut fun _ =>
      routine_ite (fun _ => ?_) fun _ => ?_
    · exact .bind logs fun _ => .bind (.modifyDb fun _ => rfl) fun _ => .pure _
    · refine .bind .allocate fun _ => .bind ?_ fun _ => .bind .nextOrder fun _ =>
        .bind logs fun _ => .bind (.modifyDb fun _ => rfl) fun _ => .pure _
      exact .bind .nextOrder fun _ => routine_onlyIf
        (.bind .allocate fun _ => .modifyDb fun _ => rfl)
  · refine .read (fun _ => rfl) fun world => .bind routine_rehashFor fun _ => ?_
    have repacks : forall found placed, Routine refusal (repack found key field value placed) :=
      fun found placed => .read (fun _ => rfl) fun _ =>
        .bind (routine_install logs) fun _ => .pure _
    refine routine_ite (fun _ => .bind ?_ fun _ => .pure _) fun _ => ?_
    · exact .read (fun _ => rfl) fun _ => .bind .allocate fun _ => .bind .allocate fun _ =>
        .bind routine_emplaceAll fun _ => .bind routine_insertOrAssign fun _ =>
          .bind (routine_install logs) fun _ => .pure _
    · split
      · exact .bind (repacks _ _) fun _ => .pure _
      · refine routine_ite (fun _ => .bind (repacks _ _) fun _ => .pure _) fun _ => ?_
        refine .bind ?_ fun _ => .pure _
        exact .bind routine_copyOut fun _ => .bind logs fun _ => .modifyDb fun _ => rfl

theorem routine_hashDel {field : Bytes}
    (fits : ¬ Wal.Accepted (Spec.record .hashDel [key, field]) -> refusal) :
    Routine refusal (hashDel key field) := by
  refine .bind routine_findWritable fun found => ?_
  cases found with
  | none => exact .pure _
  | some addr =>
      refine .read (fun _ => rfl) fun world => routine_ite (fun _ => .pure _) fun _ => ?_
      refine routine_ite (fun _ => ?_) fun _ => ?_
      · refine routine_ite (fun _ => .bind ?_ fun _ => .pure _) fun _ => .pure _
        exact .bind (.log fits) fun _ => .bind (.modifyDb fun _ => rfl) fun _ =>
          .read (fun _ => rfl) fun _ => routine_onlyIf (.modifyDb fun _ => Db.settings_eraseNode.1)
      · split
        · exact .pure _
        · refine .bind ?_ fun _ => .pure _
          exact .read (fun _ => rfl) fun _ => .bind (.log fits) fun _ =>
            .bind (.modifyDb fun _ => rfl) fun _ =>
              routine_onlyIf (.modifyDb fun _ => Db.settings_eraseNode.1)

/-! ## The other operations -/

theorem logFree_findWritable : LogFree refusal (findWritable key) :=
  routine_findWritable.logFree

theorem logFree_findActive : LogFree refusal (findActive key) := by
  refine logFree_read (fun _ => rfl) fun world => ?_
  split
  · exact logFree_pure _
  · refine LogFree.bind logFree_deadlinePassed fun passed => ?_
    refine logFree_ite (fun _ => logFree_pure _) fun _ => ?_
    exact LogFree.bind (logFree_modifyDb _) fun _ => logFree_pure _

theorem logFree_del (short : key.length ≤ Node.maxKeyLength) : LogFree refusal (del key) :=
  (routine_del fun rejected => absurd (accepted_key short) rejected).logFree

theorem logFree_ttl : LogFree refusal (ttl key) := by
  refine LogFree.bind logFree_findActive fun found => ?_
  cases found with
  | none => exact logFree_pure _
  | some addr =>
      refine logFree_read (fun _ => rfl) fun world => ?_
      split
      · exact logFree_pure _
      · exact LogFree.bind logFree_nowMs fun now => logFree_pure _

theorem logFree_restoreDeadline {previous : Int64} :
    LogFree refusal (restoreDeadline addr previous) :=
  logFree_ite (fun _ => logFree_modifyDb _) (fun _ => routine_scheduleExpiry.logFree)

theorem logFree_expireAt {deadline instant : Int64} (short : key.length ≤ Node.maxKeyLength) :
    LogFree False (expireAt addr key deadline (decimalInt instant.toInt)) := by
  have bound : Node.maxKeyLength + 64 ≤ Wal.maxRecord := by decide
  have digits := length_decimalInt_le instant
  have accepted : Wal.Accepted (Spec.record .expireAt [key, decimalInt instant.toInt]) := by
    refine accepted_record.mpr ⟨?_, by simp⟩
    simp only [List.map_cons, List.map_nil, List.sum_cons, List.sum_nil]
    omega
  refine logFree_read (fun _ => rfl) fun world =>
    LogFree.bind routine_scheduleExpiry.logFree fun _ => ?_
  refine LogFree.bind ((logFree_accepted accepted).handle ?_ False.elim) fun _ => logFree_pure _
  exact fun thrown => LogFree.bind logFree_restoreDeadline fun _ => logFree_raise thrown

theorem logFree_expire {seconds : Int64} (short : key.length ≤ Node.maxKeyLength) :
    LogFree False (expire key seconds) := by
  refine LogFree.bind logFree_findWritable fun found => ?_
  cases found with
  | none => exact logFree_pure _
  | some addr =>
      refine logFree_ite (fun _ => (routine_eraseLogged fun rejected =>
        absurd (accepted_key short) rejected).logFree) fun _ => ?_
      refine LogFree.bind logFree_nowMs fun now => LogFree.bind logFree_currentUnixMs fun wall => ?_
      refine logFree_ite (fun _ => logFree_raise _) fun _ => ?_
      refine LogFree.bind logFree_currentUnixMs fun later => LogFree.bind logFree_allocate fun _ => ?_
      exact logFree_expireAt short

theorem accepted_set {val : Bytes} (short : key.length ≤ Node.maxKeyLength)
    (small : val.length ≤ maxValueLength) : Wal.Accepted (Spec.record .set [key, val]) := by
  have bound : Node.maxKeyLength + maxValueLength + 10 ≤ Wal.maxRecord := by decide
  refine accepted_record.mpr ⟨?_, by simp⟩
  simp only [List.map_cons, List.map_nil, List.sum_cons, List.sum_nil]
  omega

theorem logFree_set {val : Bytes} (short : key.length ≤ Node.maxKeyLength) :
    LogFree refusal (set key val) :=
  (routine_set fun small rejected => absurd (accepted_set short small) rejected).logFree

theorem logFree_increment (short : key.length ≤ Node.maxKeyLength) :
    LogFree refusal (increment key) :=
  (routine_increment fun rejected => absurd (accepted_key short) rejected).logFree

theorem logFree_valueView : LogFree refusal (valueView key) := by
  refine LogFree.bind logFree_findActive fun found => ?_
  cases found with
  | none => exact logFree_pure _
  | some addr =>
      refine logFree_read (fun _ => rfl) fun world => ?_
      dsimp only
      split <;> exact logFree_pure _

theorem LogFree.copied {copy : α -> Op Unit} {view : Op (Except ErrorCode (Option α))}
    (free : LogFree refusal view) (copies : forall value, LogFree refusal (copy value)) :
    LogFree refusal (copied copy view) := by
  refine free.bind fun result => LogFree.bind ?_ fun _ => logFree_pure _
  unfold copyFound
  split
  · exact copies _
  · exact logFree_pure _

theorem logFree_get : LogFree refusal (get key) :=
  (logFree_valueView.bind fun _ => logFree_pure _).copied fun _ =>
    logFree_allocate.bind fun _ => logFree_pure _

/-- An element that fits into a list also fits into a record. -/
theorem accepted_push {kind : WalOp} {value : Value} (short : key.length ≤ Node.maxKeyLength)
    (small : Pack.encodedSize value ≤ Node.listLimit) :
    Wal.Accepted (Spec.record kind (key :: value.logged)) := by
  have bound : Node.maxKeyLength + Node.listLimit + 64 ≤ Wal.maxRecord := by decide
  have text : (ascii "s").length = 1 := rfl
  have number : (ascii "i").length = 1 := rfl
  cases value with
  | integer n =>
      have digits := length_decimalInt_le n
      refine accepted_record.mpr ⟨?_, by simp [Value.logged]⟩
      simp only [Value.logged, List.map_cons, List.map_nil, List.sum_cons, List.sum_nil, number]
      omega
  | text bytes =>
      have fits : bytes.length ≤ Pack.encodedSize (.text bytes) := by
        simp only [Pack.encodedSize]
        omega
      refine accepted_record.mpr ⟨?_, by simp [Value.logged]⟩
      simp only [Value.logged, List.map_cons, List.map_nil, List.sum_cons, List.sum_nil, text]
      omega

theorem logFree_listPush {value : Value} {front : Bool} (short : key.length ≤ Node.maxKeyLength) :
    LogFree refusal (listPush key value front) :=
  (routine_listPush fun small rejected => absurd (accepted_push short small) rejected).logFree

theorem logFree_listPop {front : Bool} (short : key.length ≤ Node.maxKeyLength) :
    LogFree refusal (listPop key front) :=
  (routine_listPop fun rejected => absurd (accepted_key short) rejected).logFree

theorem logFree_install {found : Option Addr} {type : NodeType} {capacity : Nat}
    {fill : Node -> Node} {records : Op Unit} {keepTtl : Bool} (free : LogFree refusal records) :
    LogFree refusal (install found key type capacity fill records keepTtl) := by
  refine LogFree.bind routine_createNode.logFree fun _ => LogFree.bind (logFree_modifyDb _) fun _ =>
    LogFree.bind (free.handle ?_ fun _ _ => rfl) fun _ => LogFree.bind (logFree_modifyDb _) fun _ =>
      logFree_pure _
  exact fun thrown => LogFree.bind (logFree_modifyDb _) fun _ => logFree_raise thrown

/-- What `push_texts` measured bounds each of its values. -/
theorem measureTexts_bounds {values : List Bytes} {bytes largest total top : Nat}
    (measured : measureTexts bytes largest values = some (total, top)) :
    largest ≤ top ∧ (forall value, value ∈ values -> value.length ≤ top) ∧
      top ≤ max largest Node.listLimit := by
  induction values generalizing bytes largest with
  | nil =>
      cases measured
      exact ⟨Nat.le_refl _, nofun, Nat.le_max_left _ _⟩
  | cons value rest ih =>
      simp only [measureTexts] at measured
      split at measured
      case isTrue => cases measured
      case isFalse short =>
        split at measured
        · cases measured
        · rcases ih measured with ⟨above, each, below⟩
          refine ⟨by omega, ?_, by omega⟩
          intro other inside
          rcases List.mem_cons.mp inside with rfl | later
          · omega
          · exact each other later

theorem logFree_pushTexts {values : List Bytes} {front : Bool}
    (short : key.length ≤ Node.maxKeyLength) : LogFree refusal (pushTexts key values front) := by
  refine LogFree.bind logFree_findWritable fun found => logFree_read (fun _ => rfl) fun world => ?_
  refine logFree_ite (fun _ => logFree_pure _) fun _ => ?_
  refine logFree_ite (fun _ => logFree_pure _) fun _ => ?_
  split
  · exact logFree_pure _
  case h_2 bytes largest measured =>
    have bound : Node.maxKeyLength + Node.listLimit + 64 ≤ Wal.maxRecord + 8 := by decide
    have text : (ascii "s").length = 1 := rfl
    rcases measureTexts_bounds measured with ⟨-, each, top⟩
    have logs : LogFree refusal (logBatch (key.length + largest + 64) (.push front)
        (values.map fun value => [key, ascii "s", value])) := by
      refine (logFree_logBatch _ _ ?_).weaken (fun large => by omega)
      intro args inside
      rcases List.mem_map.mp inside with ⟨value, member, rfl⟩
      have fits := each value member
      refine ⟨by simp, ?_⟩
      rw [Wal.length_payload]
      simp only [Spec.record, List.map_cons, List.map_nil, List.sum_cons, List.sum_nil, text]
      omega
    refine LogFree.bind ?_ fun _ => logFree_pure _
    exact logFree_read (fun _ => rfl) fun _ => LogFree.bind routine_rehashFor.logFree fun _ =>
      LogFree.bind (logFree_install logs) fun _ => logFree_pure _

/-- A call that looks a key up and reads something from a node of one type. -/
theorem logFree_typed {type : NodeType} {blank : α} {view : Node -> α} :
    LogFree refusal (do
      match <- findActive key with
      | none => pure (Except.ok blank)
      | some addr => do
          let world <- Cmd.read
          if (world.db.node addr).type ≠ type then pure (.error ErrorCode.wrongType)
          else pure (.ok (view (world.db.node addr)))) := by
  refine LogFree.bind logFree_findActive fun found => ?_
  cases found with
  | none => exact logFree_pure _
  | some addr =>
      exact logFree_read (fun _ => rfl) fun world =>
        logFree_ite (fun _ => logFree_pure _) (fun _ => logFree_pure _)

theorem logFree_listLength : LogFree refusal (listLength key) :=
  logFree_typed

theorem logFree_hashField {field : Bytes} : LogFree refusal (hashField key field) :=
  @logFree_typed _ _ _ .hash none fun node => node.fieldValue field

theorem logFree_hashGet {field : Bytes} : LogFree refusal (hashGet key field) :=
  logFree_hashField.copied fun _ => routine_copyOut.logFree

theorem logFree_hashLength : LogFree refusal (hashLength key) :=
  logFree_typed

/-- The largest record of a batch of fields is too large to be reserved. -/
def TooLarge (key : Bytes) (pairs : List (Bytes × Bytes)) : Prop :=
  exists pair, pair ∈ pairs ∧
    Wal.maxRecord + 8 < key.length + (pair.1.length + pair.2.length) + 64

theorem logFree_mergeTexts {pairs : List (Bytes × Bytes)} {merge : Merge} :
    LogFree refusal (mergeTexts pairs merge) := by
  induction pairs generalizing merge with
  | nil => exact logFree_pure _
  | cons pair rest ih =>
      exact logFree_ite (fun _ => logFree_pure _) fun _ =>
        LogFree.bind routine_insertOrAssign.logFree fun _ => ih

/-- Filling a table does not touch the log. -/
theorem logging_insertOrAssign {field : Bytes} {value : Value} {table : HashTable} :
    (insertOrAssign field value table).wp (fun _ after => after.logging = world.logging)
      (fun _ _ => True) world := by
  unfold insertOrAssign
  rw [Cmd.wp_bind]
  exact wp_allocate (fun _ => trivial) (fun _ _ => rfl)

theorem logging_emplaceAll {pairs table : HashTable} :
    (emplaceAll pairs table).wp (fun _ after => after.logging = world.logging)
      (fun _ _ => True) world := by
  induction pairs generalizing table world with
  | nil => rfl
  | cons pair rest ih =>
      unfold emplaceAll emplace
      rw [Cmd.wp_bind, Cmd.wp_bind]
      exact wp_allocate (fun _ => trivial) (fun _ _ => ih)

/-- The loop of `hash_set_texts` refuses texts that are too long and remembers
the size of the largest field. -/
theorem mergeTexts_result (pairs : List (Bytes × Bytes)) (merge : Merge) (world : World) :
    (mergeTexts pairs merge).wp
      (fun merged after => after.logging = world.logging ∧
        (merged = none <-> pairs.any Spec.tooLong = true) ∧
        forall last, merged = some last ->
          (forall pair, pair ∈ pairs -> pair.1.length + pair.2.length ≤ last.largest) ∧
          merge.largest ≤ last.largest ∧
          (last.largest = merge.largest ∨ exists pair, pair ∈ pairs ∧
            last.largest = pair.1.length + pair.2.length)) (fun _ _ => True) world := by
  induction pairs generalizing merge world with
  | nil =>
      refine ⟨rfl, by simp, ?_⟩
      rintro last equal
      cases equal
      exact ⟨fun _ inside => absurd inside List.not_mem_nil, Nat.le_refl _, Or.inl rfl⟩
  | cons pair rest ih =>
      unfold mergeTexts
      rw [List.any_cons, Spec.tooLong]
      refine Cmd.wp_ite ?_ fun fits => ?_
      · intro long
        rw [decide_eq_true long, Bool.true_or]
        exact ⟨rfl, ⟨fun _ => rfl, fun _ => rfl⟩, fun _ impossible => by cases impossible⟩
      rw [decide_eq_false fits, Bool.false_or, Cmd.wp_bind]
      refine Cmd.wp_mono logging_insertOrAssign ?_ (fun _ _ _ => trivial)
      intro inserted middle logging
      refine Cmd.wp_mono (ih _ middle) ?_ (fun _ _ _ => trivial)
      rintro merged after ⟨later, refused, holds⟩
      refine ⟨later.trans logging, refused, fun last equal => ?_⟩
      rcases holds last equal with ⟨each, above, top⟩
      dsimp only at above top
      refine ⟨?_, by omega, ?_⟩
      · intro other inside
        rcases List.mem_cons.mp inside with rfl | later
        · omega
        · exact each other later
      · rcases top with same | ⟨other, inside, equal⟩
        · rcases Nat.le_total (pair.1.length + pair.2.length) merge.largest with le | le
          · exact Or.inl (by omega)
          · exact Or.inr ⟨pair, List.mem_cons_self, by omega⟩
        · exact Or.inr ⟨other, List.mem_cons_of_mem pair inside, equal⟩

theorem logFree_hashSetTexts {fields : List Bytes} (short : key.length ≤ Node.maxKeyLength) :
    LogFree (TooLarge key (textPairs fields)) (hashSetTexts key fields) := by
  have bound : Node.maxKeyLength + 64 ≤ Wal.maxRecord + 8 := by decide
  have text : (ascii "s").length = 1 := rfl
  refine logFree_ite (fun _ => logFree_pure _) fun _ => ?_
  refine LogFree.bind logFree_findWritable fun found => logFree_read (fun _ => rfl) fun world => ?_
  refine logFree_ite (fun _ => logFree_pure _) fun _ =>
    logFree_ite (fun _ => logFree_pure _) fun _ => ?_
  refine LogFree.bind logFree_allocate fun _ =>
    LogFree.bind routine_emplaceAll.logFree fun table => ?_
  refine logFree_mergeTexts.bind_post
    (fun merged => forall merge, merged = some merge ->
      (forall pair, pair ∈ textPairs fields -> pair.1.length + pair.2.length ≤ merge.largest) ∧
      (merge.largest = 0 ∨ exists pair, pair ∈ textPairs fields ∧
        merge.largest = pair.1.length + pair.2.length)) ?_ ?_
  · intro world merged later ran merge equal
    rcases Cmd.of_wp_ok (mergeTexts_result _ _ world) ran with ⟨-, -, holds⟩
    rcases holds merge equal with ⟨each, -, top⟩
    exact ⟨each, top⟩
  rintro (_ | merge) post
  · exact logFree_pure _
  rcases post merge rfl with ⟨each, top⟩
  have logs : LogFree (TooLarge key (textPairs fields))
      (logBatch (key.length + merge.largest + 64) .hashSet
        ((textPairs fields).map fun pair => [key, pair.1, ascii "s", pair.2])) := by
    refine (logFree_logBatch _ _ ?_).weaken ?_
    · intro args inside
      rcases List.mem_map.mp inside with ⟨pair, member, rfl⟩
      have fits := each pair member
      refine ⟨by simp, ?_⟩
      rw [Wal.length_payload]
      simp only [Spec.record, List.map_cons, List.map_nil, List.sum_cons, List.sum_nil, text]
      omega
    · intro large
      rcases top with zero | ⟨pair, member, equal⟩
      · omega
      · exact ⟨pair, member, by omega⟩
  refine LogFree.bind ?_ fun _ => logFree_pure _
  refine LogFree.bind routine_rehashFor.logFree fun _ => logFree_ite (fun _ => ?_) fun _ => ?_
  · exact LogFree.bind (logFree_install logs) fun _ => logFree_pure _
  · exact LogFree.bind (logFree_install logs) fun _ => logFree_pure _

end Database

end Reddish
