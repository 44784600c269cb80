import Reddish.Database.Plans
import Reddish.Resp.Reply
import Reddish.Resp.Values

namespace Reddish

open Library Numeral

namespace Resp

/-!
# Executing a command

A handler checks the number of arguments, calls the database and ends by
appending one reply to the output.  Every handler is code over the database
that returns the reply it ends with; `execute_into` appends it.
-/

/-! ## Replies -/

/-- What a handler appends: `+PONG`, `+OK`, an error, a null, a bulk string or
an integer. -/
inductive Outgoing where
  | pong
  | ok
  | error (text : Bytes)
  | null
  | bulk (text : Bytes)
  | integer (n : Int64)
  deriving DecidableEq

/-- `append_bulk_view`, and `append_bulk_string` behind its copy. -/
def appendBulkView (text : Bytes) : Cmd Exn Bytes Unit := do
  Cmd.require (text.length ≤ maxReplyBytes - 32) (.error .requestTooLarge)
  requireReplySpace (text.length + 32)
  append ([36] ++ decimal text.length ++ crlf ++ text ++ crlf)

def appendInteger (n : Int64) : Cmd Exn Bytes Unit := do
  requireReplySpace 24
  append ([58] ++ decimalInt n.toInt ++ crlf)

def appendNull : Cmd Exn Bytes Unit := do
  requireReplySpace 5
  append (ascii "$-1" ++ crlf)

/-- The end of `execute_set`. -/
def appendOk : Cmd Exn Bytes Unit := do
  requireReplySpace 5
  append (ascii "+OK" ++ crlf)

/-- The body of `execute_ping`, which does not ask for space. -/
def appendPong : Cmd Exn Bytes Unit :=
  append (ascii "+PONG" ++ crlf)

def deliver : Outgoing -> Cmd Exn Bytes Unit
  | .pong => appendPong
  | .ok => appendOk
  | .error text => appendError text
  | .null => appendNull
  | .bulk text => appendBulkView text
  | .integer n => appendInteger n

def errorReply (code : ErrorCode) : Outgoing :=
  .error (ascii code.message)

def wrongArguments (name : Bytes) : Outgoing :=
  .error (ascii ErrorCode.wrongArgumentCount.message ++ ascii " '" ++ name ++ ascii "' command")

/-! ## INFO -/

structure DatabaseStats where
  ownedMemoryBytes : Nat
  maxMemoryBytes : Nat
  keyCount : Nat
  evictions : Nat
  expiredKeys : Nat
  approximateMemoryBytes : Nat
  walBytes : Nat
  reservedMemoryBytes : Nat

/-- The numbers that `INFO` reports: those of the server and those that a
database gives. -/
structure Report where
  uptimeSeconds : Nat
  connectedClients : Nat
  inputBufferDisconnects : Nat
  outputBufferDisconnects : Nat
  database : World -> DatabaseStats

def reportLine (name : String) (n : Nat) : Bytes :=
  ascii name ++ [58] ++ decimal n ++ crlf

/-- The text of `append_info`. -/
def infoText (report : Report) (memoryOnly : Bool) (world : World) : Bytes :=
  let stats := report.database world
  let memory := ascii "# Memory" ++ crlf ++
    reportLine "used_memory_bytes" stats.approximateMemoryBytes ++
    reportLine "wal_bytes" stats.walBytes ++
    reportLine "reserved_memory_bytes" stats.reservedMemoryBytes
  reportLine "owned_memory_bytes" stats.ownedMemoryBytes ++
    reportLine "max_memory_bytes" stats.maxMemoryBytes ++
    (if memoryOnly then memory
    else
      ascii "# Server" ++ crlf ++
        reportLine "uptime_seconds" report.uptimeSeconds ++
        reportLine "connected_clients" report.connectedClients ++
        reportLine "input_buffer_disconnects" report.inputBufferDisconnects ++
        reportLine "output_buffer_disconnects" report.outputBufferDisconnects ++
        ascii "# Keyspace" ++ crlf ++
        reportLine "keys" stats.keyCount ++
        reportLine "evictions" stats.evictions ++
        reportLine "expired_keys" stats.expiredKeys ++ memory)

/-! ## The handlers -/

/-- A call of the database and the reply to its result. -/
def replying {α : Type} (reply : α -> Outgoing) (op : Op α) : Op Outgoing := do
  let result <- op
  pure (reply result)

/-- The reply to `value_view`. -/
def viewReply : Except ErrorCode (Option ValueView) -> Outgoing
  | .error code => errorReply code
  | .ok none => .null
  | .ok (some (.integer n)) => .bulk (decimalInt n.toInt)
  | .ok (some (.string text)) => .bulk text
  | .ok (some _) => errorReply .wrongType

def valueReply : Except ErrorCode (Option Value) -> Outgoing
  | .error code => errorReply code
  | .ok none => .null
  | .ok (some (.text text)) => .bulk text
  | .ok (some (.integer n)) => .bulk (decimalInt n.toInt)

def numberReply : Except ErrorCode Int64 -> Outgoing
  | .error code => errorReply code
  | .ok n => .integer n

def countReply : Except ErrorCode Nat -> Outgoing
  | .error code => errorReply code
  | .ok n => .integer (Int64.ofNat n)

def flagReply (flag : Bool) : Outgoing :=
  .integer (if flag then 1 else 0)

def removedReply : Except ErrorCode Bool -> Outgoing
  | .error code => errorReply code
  | .ok removed => flagReply removed

namespace Command

/-- The arguments from `begin()` to `end()`. -/
def texts (command : Command) : List Bytes :=
  command.arguments.range

/-- `arguments[index]`. -/
def text (command : Command) (index : Nat) : Bytes :=
  command.texts.getD index []

end Command

variable (command : Command)

def executeSet : Op Outgoing :=
  if command.texts.length ≠ 2 then pure (wrongArguments (ascii "set"))
  else replying (fun _ => .ok) (Database.set (command.text 0) (command.text 1))

def executeGet : Op Outgoing :=
  if command.texts.length ≠ 1 then pure (wrongArguments (ascii "get"))
  else replying viewReply (Database.valueView (command.text 0))

def executeIncrement : Op Outgoing :=
  if command.texts.length ≠ 1 then pure (wrongArguments (ascii "incr"))
  else replying numberReply (Database.increment (command.text 0))

/-- One value is pushed by a call of its own; the loop of the source makes one
round. -/
def executeListPush (front : Bool) : Op Outgoing :=
  if command.texts.length < 2 then pure (wrongArguments command.name)
  else if command.texts.length > 2 then
    replying countReply (Database.pushTexts (command.text 0) (command.texts.drop 1) front)
  else if front then
    replying countReply (Database.pushLeft (command.text 0) (.text (command.text 1)))
  else replying countReply (Database.pushRight (command.text 0) (.text (command.text 1)))

def executeListPop (front : Bool) : Op Outgoing :=
  if command.texts.length ≠ 1 then pure (wrongArguments command.name)
  else if front then replying valueReply (Database.popLeft (command.text 0))
  else replying valueReply (Database.popRight (command.text 0))

def executeListLength : Op Outgoing :=
  if command.texts.length ≠ 1 then pure (wrongArguments (ascii "llen"))
  else replying countReply (Database.listLength (command.text 0))

/-- One field is set by a call of its own; the loop of the source makes one
round. -/
def executeHashSet : Op Outgoing :=
  if command.texts.length < 3 ∨ command.texts.length % 2 = 0 then
    pure (wrongArguments (ascii "hset"))
  else if command.texts.length > 3 then
    replying countReply (Database.hashSetTexts (command.text 0) (command.texts.drop 1))
  else
    replying countReply
      (Database.hashAssign (command.text 0) (command.text 1) (.text (command.text 2)))

def executeHashGet : Op Outgoing :=
  if command.texts.length ≠ 2 then pure (wrongArguments (ascii "hget"))
  else replying valueReply (Database.hashField (command.text 0) (command.text 1))

def executeHashDel : Op Outgoing :=
  if command.texts.length ≠ 2 then pure (wrongArguments (ascii "hdel"))
  else replying removedReply (Database.hashDel (command.text 0) (command.text 1))

def executeHashLength : Op Outgoing :=
  if command.texts.length ≠ 1 then pure (wrongArguments (ascii "hlen"))
  else replying countReply (Database.hashLength (command.text 0))

/-- `execute_expire` with its handler for a number of seconds that is out of
range. -/
def executeExpire : Op Outgoing :=
  if command.texts.length ≠ 2 then pure (wrongArguments (ascii "expire"))
  else
    match parseInt64 (command.text 1) with
    | none => pure (errorReply .valueNotInteger)
    | some seconds =>
        (replying flagReply (Database.expire (command.text 0) seconds)).handle fun thrown =>
          if thrown = Exn.error .valueNotInteger then pure (errorReply .valueNotInteger)
          else Cmd.raise thrown

def executeTtl : Op Outgoing :=
  if command.texts.length ≠ 1 then pure (wrongArguments (ascii "ttl"))
  else replying .integer (Database.ttl (command.text 0))

/-- The loop of `execute_del`. -/
def delLoop : List Bytes -> Nat -> Op Nat
  | [], deleted => pure deleted
  | key :: keys, deleted => do
      let removed <- Database.del key
      delLoop keys (if removed then deleted + 1 else deleted)

def executeDel : Op Outgoing :=
  if command.texts = [] then pure (wrongArguments (ascii "del"))
  else replying (fun deleted => .integer (Int64.ofNat deleted)) (delLoop command.texts 0)

def executeInfo (report : Report) : Op Outgoing := do
  let world <- Cmd.read
  if command.texts.length > 1 then pure (wrongArguments (ascii "info"))
  else if command.texts ≠ [] ∧ command.text 0 ≠ ascii "memory" then
    pure (errorReply .unsupportedInfoSection)
  else pure (.bulk (infoText report (decide (command.texts ≠ [])) world))

/-- The reply to a name that is not known. -/
def unknownReply : Outgoing :=
  .error (ascii ErrorCode.unknownCommand.message ++ ascii " '" ++ command.name ++ ascii "'")

/-- The switch of `execute_into`.  Every handler of the source ends by appending
one reply; here it returns the reply, which `deliver` appends. -/
def handler (report : Report) : CommandId -> Op Outgoing
  | .ping => pure .pong
  | .info => executeInfo command report
  | .get => executeGet command
  | .set => executeSet command
  | .increment => executeIncrement command
  | .listPushLeft => executeListPush command true
  | .listPushRight => executeListPush command false
  | .listPopLeft => executeListPop command true
  | .listPopRight => executeListPop command false
  | .listLength => executeListLength command
  | .hashSet => executeHashSet command
  | .hashGet => executeHashGet command
  | .hashDel => executeHashDel command
  | .hashLength => executeHashLength command
  | .expire => executeExpire command
  | .ttl => executeTtl command
  | .del => executeDel command
  | .unknown => pure (unknownReply command)

def onDatabase {α : Type} (op : Op α) : Cmd Exn (World × Bytes) α :=
  Cmd.zoom Prod.fst (fun world pair => (world, pair.2)) op

def onOutput {α : Type} (body : Cmd Exn Bytes α) : Cmd Exn (World × Bytes) α :=
  Cmd.zoom Prod.snd (fun output pair => (pair.1, output)) body

def executeInto (report : Report) (id : CommandId) : Cmd Exn (World × Bytes) Unit := do
  let reply <- onDatabase (handler command report id)
  onOutput (deliver reply)

def execute (report : Report) : Cmd Exn (World × Bytes) Unit :=
  executeInto command report (classifyCommand command.name).id

/-! ## What is appended -/

def Outgoing.bytes : Outgoing -> Bytes
  | .pong => ascii "+PONG" ++ crlf
  | .ok => ascii "+OK" ++ crlf
  | .error text => [45] ++ text ++ crlf
  | .null => ascii "$-1" ++ crlf
  | .bulk text => [36] ++ decimal text.length ++ crlf ++ text ++ crlf
  | .integer n => [58] ++ decimalInt n.toInt ++ crlf

/-- The space that a handler asks for before it appends a reply. -/
def Outgoing.room : Outgoing -> Nat
  | .pong => 0
  | .ok => 5
  | .error text => text.length + 3
  | .null => 5
  | .bulk text => text.length + 32
  | .integer _ => 24

def Fits (reply : Outgoing) (output : Bytes) : Prop :=
  reply = .pong ∨ reply.room + output.length ≤ maxReplyBytes

variable {reply : Outgoing} {output text : Bytes}

theorem requireReplySpace_bind {rest : Unit -> Cmd Exn Bytes Unit} (bytes : Nat) :
    (requireReplySpace bytes >>= rest) output =
      if bytes + output.length ≤ maxReplyBytes then rest () output
      else (.error (.error .requestTooLarge), output) := by
  change Cmd.bind (requireReplySpace bytes) rest output = _
  by_cases fits : bytes + output.length ≤ maxReplyBytes
  · have enough : requireReplySpace bytes output = (.ok (), output) := by
      change Cmd.require _ _ output = _
      rw [Cmd.require, if_pos (by omega)]
      rfl
    rw [Cmd.bind, enough, if_pos fits]
  · have missing : requireReplySpace bytes output = (.error (.error .requestTooLarge), output) := by
      change Cmd.require _ _ output = _
      rw [Cmd.require, if_neg (by omega)]
      rfl
    rw [Cmd.bind, missing, if_neg fits]

/-- Replies other than `+PONG` are appended if there is room for them. -/
theorem deliver_eq (checked : reply ≠ .pong) :
    deliver reply output =
      if reply.room + output.length ≤ maxReplyBytes then (.ok (), output ++ reply.bytes)
      else (.error (.error .requestTooLarge), output) := by
  have spaced : forall reply : Outgoing,
      (requireReplySpace reply.room >>= fun _ => append reply.bytes) output =
        if reply.room + output.length ≤ maxReplyBytes then (.ok (), output ++ reply.bytes)
        else (.error (.error .requestTooLarge), output) :=
    fun reply => requireReplySpace_bind reply.room
  cases reply with
  | pong => exact absurd rfl checked
  | ok => exact spaced .ok
  | error text => exact spaced (.error text)
  | null => exact spaced .null
  | integer n => exact spaced (.integer n)
  | bulk text =>
      by_cases short : text.length ≤ maxReplyBytes - 32
      · rw [<- spaced]
        change Cmd.bind (Cmd.require _ _) _ output = _
        rw [Cmd.bind, Cmd.require, if_pos short]
        rfl
      · have top : maxReplyBytes = 1048576 := rfl
        have large : ¬ (Outgoing.bulk text).room + output.length ≤ maxReplyBytes := by
          rw [Outgoing.room]
          omega
        rw [if_neg large]
        change Cmd.bind (Cmd.require _ _) _ output = _
        rw [Cmd.bind, Cmd.require, if_neg short]
        rfl

theorem deliver_fits (fits : Fits reply output) :
    deliver reply output = (.ok (), output ++ reply.bytes) := by
  by_cases pong : reply = .pong
  · rw [pong]
    rfl
  · rw [deliver_eq pong, if_pos (fits.resolve_left pong)]

/-- A reply that does not fit leaves the output as it was. -/
theorem deliver_lost (lost : ¬ Fits reply output) :
    deliver reply output = (.error (.error .requestTooLarge), output) := by
  rcases not_or.mp lost with ⟨checked, large⟩
  rw [deliver_eq checked, if_neg large]

variable {command : Command} {report : Report} {id : CommandId} {world after : World}

/-- A command whose handler returned ends as its reply is delivered. -/
theorem executeInto_answered (ran : handler command report id world = (.ok reply, after)) :
    executeInto command report id (world, output) =
      ((deliver reply output).1, (after, (deliver reply output).2)) := by
  change Cmd.bind (onDatabase (handler command report id)) _ (world, output) = _
  have database : onDatabase (handler command report id) (world, output) =
      (.ok reply, (after, output)) := by
    unfold onDatabase Cmd.zoom
    simp only
    rw [ran]
  unfold Cmd.bind
  rw [database]
  rfl

/-- A command whose handler threw has not touched the output. -/
theorem executeInto_thrown {thrown : Exn}
    (ran : handler command report id world = (.error thrown, after)) :
    executeInto command report id (world, output) = (.error thrown, (after, output)) := by
  change Cmd.bind (onDatabase (handler command report id)) _ (world, output) = _
  have database : onDatabase (handler command report id) (world, output) =
      (.error thrown, (after, output)) := by
    unfold onDatabase Cmd.zoom
    simp only
    rw [ran]
  unfold Cmd.bind
  rw [database]

end Resp

end Reddish
