import Reddish.Resp.Execute
import Reddish.Resp.Names

namespace Reddish

open Library Numeral

namespace Resp

/-!
# Pipelines of commands

The replies of a pipeline are appended to one output.  The database may be any
one when a command has its turn; what is followed is the output.  Two questions
are answered for every pipeline: whether the output stays within the limit of a
reply, and whether it is one value for each command.
-/

/-! ## The replies of the handlers -/

/-- The commands whose handler repeats the name as the client spelled it. -/
def RepeatsName (id : CommandId) : Prop :=
  id = .listPushLeft ∨ id = .listPushRight ∨ id = .listPopLeft ∨ id = .listPopRight

/-- What the handler of a command may reply. -/
inductive Possible (command : Command) (id : CommandId) : Outgoing -> Prop where
  | pong (ping : id = .ping) : Possible command id .pong
  | ok : Possible command id .ok
  | null : Possible command id .null
  | bulk (text : Bytes) : Possible command id (.bulk text)
  | integer (n : Int64) : Possible command id (.integer n)
  | code (code : ErrorCode) : Possible command id (errorReply code)
  | arguments {name : String} (plain : 13 ∉ ascii name) :
      Possible command id (wrongArguments (ascii name))
  | spelled (repeats : RepeatsName id) : Possible command id (wrongArguments command.name)
  | unknown (missing : id = .unknown) : Possible command id (unknownReply command)

variable {α : Type} {command : Command} {report : Report} {id : CommandId} {world : World}
variable {op : Op α} {reply : α -> Outgoing} {text : Bytes}

/-- Code whose reply is one that the handler may give. -/
def Replies (command : Command) (id : CommandId) (op : Op Outgoing) : Prop :=
  forall world, op.wp (fun reply _ => Possible command id reply) (fun _ _ => True) world

theorem replies_replying (each : forall result, Possible command id (reply result)) :
    Replies command id (replying reply op) := by
  intro world
  unfold replying
  rw [Cmd.wp_bind]
  exact Cmd.wp_of_forall (fun result _ => each result) (fun _ _ => trivial)

theorem replies_ite {condition : Prop} [Decidable condition] {yes no : Op Outgoing}
    (positive : condition -> Replies command id yes)
    (negative : ¬ condition -> Replies command id no) :
    Replies command id (if condition then yes else no) :=
  fun world => Cmd.wp_ite (fun holds => positive holds world) (fun fails => negative fails world)

theorem replies_arguments (name : String) (plain : 13 ∉ ascii name) :
    Replies command id (pure (wrongArguments (ascii name))) :=
  fun _ => .arguments plain

theorem possible_viewReply (result : Except ErrorCode (Option ValueView)) :
    Possible command id (viewReply result) := by
  rcases result with code | _ | view
  · exact .code code
  · exact .null
  · cases view with
    | integer n => exact .bulk _
    | string text => exact .bulk text
    | _ => exact .code _

theorem possible_valueReply (result : Except ErrorCode (Option Value)) :
    Possible command id (valueReply result) := by
  rcases result with code | _ | value
  · exact .code code
  · exact .null
  · cases value with
    | text text => exact .bulk text
    | integer n => exact .bulk _

theorem possible_numberReply (result : Except ErrorCode Int64) :
    Possible command id (numberReply result) := by
  cases result with
  | error code => exact .code code
  | ok n => exact .integer n

theorem possible_countReply (result : Except ErrorCode Nat) :
    Possible command id (countReply result) := by
  cases result with
  | error code => exact .code code
  | ok n => exact .integer _

theorem possible_removedReply (result : Except ErrorCode Bool) :
    Possible command id (removedReply result) := by
  cases result with
  | error code => exact .code code
  | ok removed => exact .integer _

theorem replies_listPush (front : Bool) (repeats : RepeatsName id) :
    Replies command id (executeListPush command front) := by
  refine replies_ite (fun _ _ => .spelled repeats) fun _ => ?_
  refine replies_ite (fun _ => replies_replying possible_countReply) fun _ => ?_
  exact replies_ite (fun _ => replies_replying possible_countReply)
    (fun _ => replies_replying possible_countReply)

theorem replies_listPop (front : Bool) (repeats : RepeatsName id) :
    Replies command id (executeListPop command front) := by
  refine replies_ite (fun _ _ => .spelled repeats) fun _ => ?_
  exact replies_ite (fun _ => replies_replying possible_valueReply)
    (fun _ => replies_replying possible_valueReply)

theorem replies_expire : Replies command id (executeExpire command) := by
  refine replies_ite (fun _ => replies_arguments "expire" (by decide)) fun _ => ?_
  cases parseInt64 (command.text 1) with
  | none => exact fun _ => .code _
  | some seconds =>
      intro world
      rw [Cmd.wp_handle]
      refine Cmd.wp_mono (replies_replying (fun flag => .integer _) world)
        (fun _ _ possible => possible) fun thrown later _ => ?_
      exact Cmd.wp_ite (fun _ => .code _) (fun _ => trivial)

theorem replies_info (report : Report) : Replies command id (executeInfo command report) := by
  intro world
  unfold executeInfo
  rw [Cmd.wp_bind, Cmd.wp_read]
  refine replies_ite (fun _ => replies_arguments "info" (by decide)) (fun _ => ?_) world
  exact replies_ite (fun _ _ => .code _) (fun _ _ => .bulk _)

theorem replies_handler (command : Command) (report : Report) (id : CommandId) :
    Replies command id (handler command report id) := by
  cases id with
  | unknown => exact fun _ => .unknown rfl
  | ping => exact fun _ => .pong rfl
  | info => exact replies_info report
  | get =>
      exact replies_ite (fun _ => replies_arguments "get" (by decide))
        (fun _ => replies_replying possible_viewReply)
  | set =>
      exact replies_ite (fun _ => replies_arguments "set" (by decide))
        (fun _ => replies_replying fun _ => .ok)
  | increment =>
      exact replies_ite (fun _ => replies_arguments "incr" (by decide))
        (fun _ => replies_replying possible_numberReply)
  | listPushLeft => exact replies_listPush true (Or.inl rfl)
  | listPushRight => exact replies_listPush false (Or.inr (Or.inl rfl))
  | listPopLeft => exact replies_listPop true (Or.inr (Or.inr (Or.inl rfl)))
  | listPopRight => exact replies_listPop false (Or.inr (Or.inr (Or.inr rfl)))
  | listLength =>
      exact replies_ite (fun _ => replies_arguments "llen" (by decide))
        (fun _ => replies_replying possible_countReply)
  | hashSet =>
      refine replies_ite (fun _ => replies_arguments "hset" (by decide)) fun _ => ?_
      exact replies_ite (fun _ => replies_replying possible_countReply)
        (fun _ => replies_replying possible_countReply)
  | hashGet =>
      exact replies_ite (fun _ => replies_arguments "hget" (by decide))
        (fun _ => replies_replying possible_valueReply)
  | hashDel =>
      exact replies_ite (fun _ => replies_arguments "hdel" (by decide))
        (fun _ => replies_replying possible_removedReply)
  | hashLength =>
      exact replies_ite (fun _ => replies_arguments "hlen" (by decide))
        (fun _ => replies_replying possible_countReply)
  | expire => exact replies_expire
  | ttl =>
      exact replies_ite (fun _ => replies_arguments "ttl" (by decide))
        (fun _ => replies_replying fun n => .integer n)
  | del =>
      exact replies_ite (fun _ => replies_arguments "del" (by decide))
        (fun _ => replies_replying fun _ => .integer _)

/-! ## One command -/

/-- One command of a pipeline, with the database when it has its turn. -/
structure Execution where
  world : World
  command : Command
  report : Report
  id : CommandId

namespace Execution

/-- The outcome of `execute_into` and the output it leaves. -/
def run (execution : Execution) (output : Bytes) : Except Exn Unit × Bytes :=
  let ended := executeInto execution.command execution.report execution.id (execution.world, output)
  (ended.1, ended.2.2)

end Execution

variable {execution : Execution} {output : Bytes}

/-- A command appends a reply that fits, or it throws and leaves the output as
it was. -/
theorem Execution.run_cases (execution : Execution) (output : Bytes) :
    (exists reply, Possible execution.command execution.id reply ∧
      (execution.id = .unknown -> reply = unknownReply execution.command) ∧ Fits reply output ∧
      execution.run output = (.ok (), output ++ reply.bytes)) ∨
    exists thrown, execution.run output = (.error thrown, output) := by
  have possible := replies_handler execution.command execution.report execution.id execution.world
  unfold Cmd.wp at possible
  unfold Execution.run
  rcases ran : handler execution.command execution.report execution.id execution.world with
    ⟨thrown | reply, after⟩
  · rw [executeInto_thrown ran]
    exact Or.inr ⟨thrown, rfl⟩
  · rw [ran] at possible
    rw [executeInto_answered ran]
    have unknown : execution.id = .unknown -> reply = unknownReply execution.command := by
      intro missing
      rw [missing] at ran
      cases ran
      rfl
    by_cases fits : Fits reply output
    · rw [deliver_fits fits]
      exact Or.inl ⟨reply, possible, unknown, fits, rfl⟩
    · rw [deliver_lost fits]
      exact Or.inr ⟨_, rfl⟩

theorem Execution.run_ping (ping : execution.id = .ping) :
    execution.run output = (.ok (), output ++ Outgoing.pong.bytes) := by
  have ran : handler execution.command execution.report execution.id execution.world =
      (.ok .pong, execution.world) := by
    rw [ping]
    rfl
  unfold Execution.run
  rw [executeInto_answered ran, deliver_fits (Or.inl rfl)]

/-! ## The run of a pipeline -/

/-- A command that was executed: the output before and after it, and how it
ended. -/
structure Step where
  execution : Execution
  before : Bytes
  outcome : Except Exn Unit
  after : Bytes

/-- The commands of a pipeline, one after the other.  A command that throws ends
the connection in the server; here the pipeline goes on with the output that was
left, which covers that case. -/
def trace : List Execution -> Bytes -> List Step
  | [], _ => []
  | execution :: rest, output =>
      ⟨execution, output, (execution.run output).1, (execution.run output).2⟩ ::
        trace rest (execution.run output).2

def finalOutput (executions : List Execution) (output : Bytes) : Bytes :=
  executions.foldl (fun output execution => (execution.run output).2) output

theorem step_of_trace {executions : List Execution} {step : Step}
    (inside : step ∈ trace executions output) :
    step.execution ∈ executions ∧
      step.execution.run step.before = (step.outcome, step.after) := by
  induction executions generalizing output with
  | nil => exact absurd inside List.not_mem_nil
  | cons execution rest ih =>
      rcases List.mem_cons.mp inside with rfl | later
      · exact ⟨List.mem_cons_self, rfl⟩
      · rcases ih later with ⟨member, ran⟩
        exact ⟨List.mem_cons_of_mem _ member, ran⟩

theorem Step.kept {executions : List Execution} {step : Step}
    (inside : step ∈ trace executions output) {thrown : Exn}
    (failed : step.outcome = .error thrown) : step.after = step.before := by
  have ran := (step_of_trace inside).2
  rcases step.execution.run_cases step.before with ⟨reply, -, -, -, ended⟩ | ⟨other, ended⟩
  · rw [ended] at ran
    rw [<- (Prod.mk.inj ran).1] at failed
    cases failed
  · rw [ended] at ran
    exact (Prod.mk.inj ran).2.symm

/-! ## The limit of a reply -/

/-- A handler asks for at least the space that it uses. -/
theorem bytes_le_room {reply : Outgoing} (checked : reply ≠ .pong)
    (room : reply.room + output.length ≤ maxReplyBytes) : reply.bytes.length ≤ reply.room := by
  have top : maxReplyBytes = 1048576 := rfl
  have two : crlf.length = 2 := rfl
  cases reply with
  | pong => exact absurd rfl checked
  | ok => decide
  | null => decide
  | error text =>
      simp only [Outgoing.bytes, Outgoing.room, List.length_append, List.length_singleton, two]
      omega
  | integer n =>
      have digits := length_decimalInt_le n
      simp only [Outgoing.bytes, Outgoing.room, List.length_append, List.length_singleton, two]
      omega
  | bulk text =>
      rw [Outgoing.room] at room
      have digits : (decimal text.length).length ≤ 7 :=
        length_decimal_le (by decide) (by omega)
      simp only [Outgoing.bytes, Outgoing.room, List.length_append, List.length_singleton, two]
      omega

/-- Only `+PONG` is appended without asking for space. -/
theorem Execution.run_length (small : output.length ≤ maxReplyBytes)
    (space : execution.id = .ping -> output.length + 7 ≤ maxReplyBytes) :
    (execution.run output).2.length ≤ maxReplyBytes := by
  rcases execution.run_cases output with ⟨reply, possible, -, fits, ran⟩ | ⟨thrown, ran⟩
  · rw [ran, List.length_append]
    by_cases pong : reply = .pong
    · subst pong
      cases possible with
      | pong ping => exact space ping
    · have room := fits.resolve_left pong
      have size := bytes_le_room pong room
      omega
  · rw [ran]
    exact small

/-- If every `PING` finds space, the output never grows beyond the limit. -/
theorem trace_length {executions : List Execution} {output : Bytes}
    (small : output.length ≤ maxReplyBytes)
    (space : forall step, step ∈ trace executions output -> step.execution.id = .ping ->
      step.before.length + 7 ≤ maxReplyBytes) :
    forall step, step ∈ trace executions output -> step.after.length ≤ maxReplyBytes := by
  induction executions generalizing output with
  | nil => exact fun step impossible => absurd impossible List.not_mem_nil
  | cons execution rest ih =>
      have first := Execution.run_length small (space _ List.mem_cons_self)
      intro step inside
      rcases List.mem_cons.mp inside with rfl | later
      · exact first
      · exact ih first
          (fun other member => space other (List.mem_cons_of_mem _ member)) step later

/-- The queued replies stay within the limit of a reply exactly when every
`PING` of the pipeline finds space for its reply, and a command that throws
leaves them alone. -/
theorem replies_within_limit_iff (executions : List Execution) {output : Bytes}
    (small : output.length ≤ maxReplyBytes) :
    ((forall step, step ∈ trace executions output -> step.outcome = .ok () ->
        step.after.length ≤ maxReplyBytes) <->
      forall step, step ∈ trace executions output -> step.execution.id = .ping ->
        step.before.length + 7 ≤ maxReplyBytes) ∧
    forall step, step ∈ trace executions output -> forall thrown,
      step.outcome = .error thrown -> step.after = step.before := by
  refine ⟨⟨?_, ?_⟩, fun step inside thrown => Step.kept inside⟩
  · intro within step inside ping
    have ran := (step_of_trace inside).2
    rw [Execution.run_ping ping] at ran
    rcases Prod.mk.inj ran with ⟨returned, appended⟩
    have bound := within step inside returned.symm
    rw [<- appended, List.length_append] at bound
    exact bound
  · exact fun space step inside _ => trace_length small space step inside

/-- A command without arguments, executed on an empty database. -/
def executionOf (name : Bytes) : Execution :=
  ⟨Database.calm, ⟨name, ArgumentList.empty, 0, (classifyCommand name).id⟩,
    ⟨0, 0, 0, 0, fun _ => ⟨0, 0, 0, 0, 0, 0, 0, 0⟩⟩, (classifyCommand name).id⟩

/-- Two replies fill the output up to the limit. -/
theorem replies_within_limit_filled : exists output : Bytes, output.length + 14 = maxReplyBytes ∧
    (finalOutput [executionOf (ascii "PING"), executionOf (ascii "PING")] output).length =
      maxReplyBytes ∧
    forall step, step ∈ trace [executionOf (ascii "PING"), executionOf (ascii "PING")] output ->
      step.outcome = .ok () -> step.after.length ≤ maxReplyBytes := by
  obtain ⟨output, length⟩ : exists output : Bytes, output.length = maxReplyBytes - 14 :=
    ⟨List.replicate (maxReplyBytes - 14) 0, List.length_replicate⟩
  have enough : 14 ≤ maxReplyBytes := by decide
  have reply : Outgoing.pong.bytes.length = 7 := rfl
  have ping : (executionOf (ascii "PING")).id = .ping := by decide +kernel
  have ran := fun output => @Execution.run_ping _ output ping
  refine ⟨output, by omega, ?_, ?_⟩
  · simp only [finalOutput, List.foldl, ran, List.length_append, reply]
    omega
  · refine (replies_within_limit_iff _ (by omega)).1.mpr ?_
    intro step inside _
    simp only [trace, ran, List.mem_cons, List.not_mem_nil, or_false] at inside
    rcases inside with rfl | rfl
    · dsimp only
      omega
    · rw [List.length_append, reply]
      omega

/-- An output that has reached the limit grows by a `+PONG`. -/
theorem pong_beyond_limit :
    (List.replicate maxReplyBytes (0 : UInt8)).length ≤ maxReplyBytes ∧
      exists step, step ∈ trace [executionOf (ascii "PING")] (List.replicate maxReplyBytes 0) ∧
        step.outcome = .ok () ∧ maxReplyBytes < step.after.length := by
  have ping : (executionOf (ascii "PING")).id = .ping := by decide +kernel
  have ran := @Execution.run_ping _ (List.replicate maxReplyBytes 0) ping
  refine ⟨Nat.le_of_eq List.length_replicate, _, List.mem_singleton_self _, ?_, ?_⟩
  · rw [ran]
  · rw [ran, List.length_append, List.length_replicate]
    exact Nat.lt_add_of_pos_right (by decide)

/-! ## One value for each command -/

/-- A reply in which no line ends early. -/
def Outgoing.OneLine : Outgoing -> Prop
  | .error text => ¬ crlf <:+: text
  | _ => True

theorem no_crlf_of_plain (plain : 13 ∉ text) : ¬ crlf <:+: text := by
  intro inside
  exact plain (inside.subset (List.mem_cons_self))

/-- A line that ends in a CRLF has no other one if it is read as one line. -/
theorem line_of_spells {reply : Reply} {text : Bytes}
    (spells : Spells [reply] (45 :: (text ++ crlf))) : ¬ crlf <:+: text := by
  generalize whole : 45 :: (text ++ crlf) = bytes at spells
  cases spells with
  | @error line more _ clean rest =>
      cases rest
      have same := List.cons.inj whole
      rw [List.append_nil] at same
      rw [List.append_cancel_right same.2]
      exact clean
  | _ => cases (List.cons.inj whole).1

/-- A reply that was appended is one value exactly when it is one line. -/
theorem counted_bytes_iff {reply : Outgoing} (fits : Fits reply output) :
    Counted 1 reply.bytes <-> reply.OneLine := by
  rw [<- complete_iff_counted]
  cases reply with
  | pong => exact iff_of_true ⟨_, @Spells.simple (ascii "PONG") [] [] (by decide) .nil⟩ trivial
  | ok => exact iff_of_true ⟨_, @Spells.simple (ascii "OK") [] [] (by decide) .nil⟩ trivial
  | null =>
      exact iff_of_true ⟨_, @Spells.nullBulk (ascii "-1") [] [] (by decide +kernel) .nil⟩ trivial
  | error text =>
      constructor
      · rintro ⟨reply, spells⟩
        exact line_of_spells spells
      · intro line
        have spells := @Spells.error text [] [] line .nil
        rw [List.append_nil] at spells
        exact ⟨_, spells⟩
  | integer n =>
      refine iff_of_true ⟨.integer n, ?_⟩ trivial
      have spells := @Spells.integer (decimalInt n.toInt) [] n [] (parseInt64_decimalInt n) .nil
      rw [List.append_nil] at spells
      exact spells
  | bulk text =>
      have top : maxReplyBytes = 1048576 := rfl
      have room := fits.resolve_left nofun
      rw [Outgoing.room] at room
      have size : (Int64.ofNat text.length).toInt = text.length :=
        Int64.toInt_ofNat_of_lt (by omega)
      have spelled : parseInt64 (decimal text.length) = some (Int64.ofNat text.length) := by
        have number := parseInt64_decimalInt (Int64.ofNat text.length)
        rw [size] at number
        exact number
      refine iff_of_true ⟨.bulk text, ?_⟩ trivial
      have spells := @Spells.bulk (decimal text.length) text [] _ [] spelled size .nil
      rw [List.append_nil] at spells
      simpa [Outgoing.bytes] using spells

theorem crlf_infix_cons {byte : UInt8} :
    crlf <:+: byte :: text <-> (byte = 13 ∧ text.head? = some 10) ∨ crlf <:+: text := by
  rw [List.infix_cons_iff]
  refine or_congr_left ?_
  cases text with
  | nil => simp [crlf, List.cons_prefix_cons]
  | cons next rest => simp [crlf, List.cons_prefix_cons, eq_comm]

theorem crlf_infix_append {before : Bytes} (plain : 13 ∉ before) :
    crlf <:+: before ++ text <-> crlf <:+: text := by
  induction before with
  | nil => exact Iff.rfl
  | cons byte rest ih =>
      rw [List.mem_cons, not_or] at plain
      rw [List.cons_append, crlf_infix_cons, ih plain.2]
      exact or_iff_right fun both => plain.1 both.1.symm

theorem crlf_infix_quoted : crlf <:+: text ++ ascii "'" <-> crlf <:+: text := by
  induction text with
  | nil => decide
  | cons byte rest ih =>
      rw [List.cons_append, crlf_infix_cons, crlf_infix_cons, ih]
      refine or_congr_left (and_congr_right fun _ => ?_)
      cases rest with
      | nil => decide
      | cons next more => exact Iff.rfl

/-- The name of a command that is known has no line end. -/
theorem plain_of_known {name : Bytes} (known : (classifyCommand name).id ≠ .unknown) :
    13 ∉ name := by
  intro inside
  refine known ?_
  rw [classifyCommand_eq, namedCommand, switch_none]
  intro entry listed spelled
  have letters := (commandTable_plain entry listed).2
  rw [spelled] at letters
  have small := letters (lower 13) (List.mem_map_of_mem inside)
  exact absurd small (by decide)

/-- Replies other than the one to an unknown name are one line. -/
theorem oneLine_of_possible {reply : Outgoing} (possible : Possible command id reply)
    (classified : id = (classifyCommand command.name).id) (known : id ≠ .unknown) :
    reply.OneLine := by
  have quoted : forall name, 13 ∉ name -> (wrongArguments name).OneLine := by
    intro name plain
    refine no_crlf_of_plain ?_
    simp only [List.mem_append, not_or]
    exact ⟨⟨⟨by decide, by decide⟩, plain⟩, by decide⟩
  cases possible with
  | code code =>
      refine no_crlf_of_plain ?_
      cases code <;> decide
  | arguments plain => exact quoted _ plain
  | spelled repeats => exact quoted _ (plain_of_known (classified ▸ known))
  | unknown missing => exact absurd missing known
  | _ => exact trivial

theorem oneLine_unknownReply :
    (unknownReply command).OneLine <-> ¬ crlf <:+: command.name := by
  change ¬ crlf <:+: _ <-> _
  rw [List.append_assoc, List.append_assoc, crlf_infix_append (by decide),
    crlf_infix_append (by decide), crlf_infix_quoted]

def Step.appended (step : Step) : Bytes :=
  step.after.drop step.before.length

/-- The reply repeats a name that contains a line end. -/
def Step.Broken (step : Step) : Prop :=
  step.execution.id = .unknown ∧ crlf <:+: step.execution.command.name

theorem Step.appended_spec {executions : List Execution} {step : Step}
    (inside : step ∈ trace executions output)
    (classified : step.execution.id = (classifyCommand step.execution.command.name).id) :
    step.after = step.before ++ step.appended ∧
      (step.outcome = .ok () -> (Counted 1 step.appended <-> ¬ step.Broken)) := by
  have ran := (step_of_trace inside).2
  rcases step.execution.run_cases step.before with
    ⟨reply, possible, unknown, fits, ended⟩ | ⟨thrown, ended⟩
  · rw [ended] at ran
    have after := (Prod.mk.inj ran).2
    have appended : step.appended = reply.bytes := by
      rw [Step.appended, <- after, List.drop_left]
    rw [appended, counted_bytes_iff fits]
    refine ⟨after.symm, fun _ => ?_⟩
    by_cases missing : step.execution.id = .unknown
    · rw [unknown missing, oneLine_unknownReply]
      exact not_congr ⟨fun broken => ⟨missing, broken⟩, fun broken => broken.2⟩
    · exact iff_of_true (oneLine_of_possible possible classified missing)
        fun broken => missing broken.1
  · rw [ended] at ran
    rcases Prod.mk.inj ran with ⟨outcome, after⟩
    have appended : step.appended = [] := by
      rw [Step.appended, <- after, List.drop_length]
    rw [appended, List.append_nil]
    refine ⟨after.symm, fun returned => ?_⟩
    rw [<- outcome] at returned
    cases returned

theorem finalOutput_eq {executions : List Execution} {output : Bytes}
    (extends_ : forall step, step ∈ trace executions output ->
      step.after = step.before ++ step.appended) :
    finalOutput executions output =
      output ++ ((trace executions output).map Step.appended).flatten := by
  induction executions generalizing output with
  | nil => exact (List.append_nil output).symm
  | cons execution rest ih =>
      have first := extends_ _ List.mem_cons_self
      have later := ih fun step inside =>
        extends_ step (List.mem_cons_of_mem _ inside)
      change finalOutput rest (execution.run output).2 = _
      rw [later]
      simp only [trace, List.map_cons, List.flatten_cons]
      rw [<- List.append_assoc, <- first]

/-- Values for the steps of a pipeline are values of its whole output. -/
theorem spells_flatten {steps : List Step}
    (each : forall step, step ∈ steps -> exists reply, Spells [reply] step.appended) :
    exists replies, List.Forall₂ (fun step reply => Spells [reply] (Step.appended step)) steps
      replies ∧ Spells replies (steps.map Step.appended).flatten := by
  induction steps with
  | nil => exact ⟨[], .nil, .nil⟩
  | cons step rest ih =>
      rcases each step List.mem_cons_self with ⟨reply, spells⟩
      rcases ih fun other inside => each other (List.mem_cons_of_mem _ inside) with
        ⟨replies, pairs, more⟩
      exact ⟨reply :: replies, .cons spells pairs, spells.append more⟩

/-- A command that returns has appended one value, unless its name is unknown
and contains a line end; a pipeline without such a name is answered by one value
for each command, in order. -/
theorem one_reply_each (executions : List Execution) (output : Bytes)
    (classified : forall execution, execution ∈ executions ->
      execution.id = (classifyCommand execution.command.name).id) :
    (forall step, step ∈ trace executions output -> step.outcome = .ok () ->
      (Counted 1 step.appended <-> ¬ step.Broken)) ∧
    finalOutput executions output =
      output ++ ((trace executions output).map Step.appended).flatten ∧
    ((forall step, step ∈ trace executions output -> step.outcome = .ok () ∧ ¬ step.Broken) ->
      exists replies, List.Forall₂ (fun step reply => Spells [reply] (Step.appended step))
          (trace executions output) replies ∧
        Spells replies ((trace executions output).map Step.appended).flatten) := by
  have spec := fun step (inside : step ∈ trace executions output) =>
    Step.appended_spec inside (classified _ (step_of_trace inside).1)
  refine ⟨fun step inside => (spec step inside).2,
    finalOutput_eq fun step inside => (spec step inside).1, fun whole => spells_flatten ?_⟩
  intro step inside
  rcases whole step inside with ⟨returned, intact⟩
  exact complete_iff_counted.mpr (((spec step inside).2 returned).mpr intact)

theorem one_reply_each_ping :
    exists step, step ∈ trace [executionOf (ascii "PING"), executionOf (ascii "nope")] [] ∧
      step.outcome = .ok () ∧ Counted 1 step.appended := by
  have returned : ((executionOf (ascii "PING")).run []).1 = .ok () := by decide +kernel
  refine ⟨_, List.mem_cons_self, returned, ?_⟩
  refine ((one_reply_each [executionOf (ascii "PING"), executionOf (ascii "nope")] [] ?_).1 _
    List.mem_cons_self returned).mpr ?_
  · intro execution inside
    simp only [List.mem_cons, List.not_mem_nil, or_false] at inside
    rcases inside with rfl | rfl
    · rfl
    · rfl
  · rintro ⟨unknown, -⟩
    revert unknown
    decide +kernel

/-- The parser accepts a name with a line end in it, and the error reply to it is
not one value. -/
theorem broken_reply :
    (parseCommand (ascii "*1\r\n$4\r\na\r\nb\r\n")).map Command.name =
        .ok (ascii "a\r\nb") ∧
      exists step, step ∈ trace [executionOf (ascii "a\r\nb")] [] ∧ step.outcome = .ok () ∧
        ¬ Counted 1 step.appended := by
  have inside : (⟨executionOf (ascii "a\r\nb"), [], ((executionOf (ascii "a\r\nb")).run []).1,
      ((executionOf (ascii "a\r\nb")).run []).2⟩ : Step) ∈
        trace [executionOf (ascii "a\r\nb")] [] := List.mem_singleton_self _
  have spec := (Step.appended_spec inside rfl).2 (by decide +kernel)
  refine ⟨by decide +kernel, _, inside, by decide +kernel, ?_⟩
  rw [spec, not_not]
  exact ⟨by decide +kernel, by decide⟩

end Resp

end Reddish
