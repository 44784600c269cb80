import Reddish.Resp.Fragments
import Reddish.Resp.Reply

namespace Reddish

open Library Numeral
open Resp (Command)

/-!
# Connections

The event loop of the server.  What a handler does to one connection is code
over a `Session`: the entry of the connection in the map of clients, the store
and the counters.  What the network does is a parameter of every handler, the
list of the outcomes of its calls of `receive` and `send`.

Next to the entry a session keeps a record of what happened at the socket and
which commands were executed.  The code never reads it.
-/

namespace Server

abbrev ClientId := Nat

def maxInputBufferSize : Nat := 1024 * 1024
def maxOutputBufferSize : Nat := 1024 * 1024
def readChunkSize : Nat := 64 * 1024
def batchLimit : Nat := 1024
def compactBufferThreshold : Nat := 64 * 1024
def maxClients : Nat := 4096
def queueTurn : Nat := 64

structure ClientInfo where
  buffer : Bytes
  inputOffset : Nat
  outputBuffer : Bytes
  outputOffset : Nat
  batch : List Command
  watchingWrite : Bool
  closeAfterWrite : Bool
  halfClosed : Bool
  processingQueued : Bool

def ClientInfo.fresh : ClientInfo :=
  ⟨[], 0, [], 0, [], false, false, false, false⟩

structure ServerStats where
  connectedClients : Nat
  inputBufferDisconnects : Nat
  outputBufferDisconnects : Nat

/-- The record of one command: the counters, the store and the output it was
executed on, the bytes it appended to the output and the store it left. -/
structure Exchange (Store : Type) where
  command : Command
  stats : ServerStats
  before : Store
  output : Bytes
  reply : Bytes
  after : Store

/-- The record of a connection: the bytes that were received and whether the
peer has stopped sending, the commands that were executed, the bytes that were
sent, the events the socket is watched for, and whether the connection
failed. -/
structure Peer (Store : Type) where
  received : Bytes
  ended : Bool
  executed : List (Exchange Store)
  sent : Bytes
  readable : Bool
  writable : Bool
  faulted : Bool

/-- The record of a connection that has just been accepted. -/
def Peer.fresh {Store : Type} : Peer Store :=
  ⟨[], false, [], [], true, false, false⟩

/-- What a handler of one connection works on.  `pushes` counts how often it
put the connection at the end of `pending_clients`. -/
structure Session (Store : Type) where
  client : Option ClientInfo
  peer : Peer Store
  pushes : Nat
  store : Store
  stats : ServerStats

/-- The commands and the locks and batches around them.  A command can only
append to the output. -/
structure Service (Store : Type) where
  executeInto : ServerStats -> Command -> Cmd Exn (Store × Bytes) Unit
  beginBatch : Cmd Exn Store Unit
  endBatch : Cmd Exn Store Unit
  awaitCapacity : Cmd Exn Store Unit
  appends : forall stats command store output, exists reply,
    (executeInto stats command (store, output)).2.2 = output ++ reply

variable {Store : Type}

abbrev Handler (Store α : Type) := Cmd Exn (Session Store) α

/-- `clients.find` at the start of a handler. -/
def withClient (body : ClientInfo -> Handler Store Unit) : Handler Store Unit := do
  let session <- Cmd.read
  match session.client with
  | none => pure ()
  | some client => body client

def putClient (client : ClientInfo) : Handler Store Unit :=
  Cmd.update fun session => { session with client := some client }

def removeClient : Handler Store Unit :=
  Cmd.update fun session => { session with client := none }

/-- Record something about the connection. -/
def record (change : Peer Store -> Peer Store) : Handler Store Unit :=
  Cmd.update fun session => { session with peer := change session.peer }

def recordFault : Handler Store Unit :=
  record fun peer => { peer with faulted := true }

def watch (readable writable : Bool) : Handler Store Unit :=
  record fun peer => { peer with readable := readable, writable := writable }

def countInputDisconnect : Handler Store Unit :=
  Cmd.update fun session =>
    { session with stats.inputBufferDisconnects := session.stats.inputBufferDisconnects + 1 }

def countOutputDisconnect : Handler Store Unit :=
  Cmd.update fun session =>
    { session with stats.outputBufferDisconnects := session.stats.outputBufferDisconnects + 1 }

def compactBuffer (buffer : Bytes) (offset : Nat) : Bytes × Nat :=
  if offset = buffer.length then ([], 0)
  else if compactBufferThreshold ≤ offset ∧ buffer.length ≤ offset * 2 then (buffer.drop offset, 0)
  else (buffer, offset)

namespace ClientInfo

/-- The input that was not parsed yet. -/
def unparsed (client : ClientInfo) : Bytes :=
  client.buffer.drop client.inputOffset

/-- The output that was not sent yet. -/
def unsent (client : ClientInfo) : Bytes :=
  client.outputBuffer.drop client.outputOffset

def compactInput (client : ClientInfo) : ClientInfo :=
  { client with
    buffer := (compactBuffer client.buffer client.inputOffset).1
    inputOffset := (compactBuffer client.buffer client.inputOffset).2 }

def compactOutput (client : ClientInfo) : ClientInfo :=
  { client with
    outputBuffer := (compactBuffer client.outputBuffer client.outputOffset).1
    outputOffset := (compactBuffer client.outputBuffer client.outputOffset).2 }

def dropSent (client : ClientInfo) : ClientInfo :=
  { client with outputBuffer := client.unsent, outputOffset := 0 }

end ClientInfo

/-! ## Writing -/

def requestWrite : Handler Store Unit :=
  withClient fun client =>
    Cmd.onlyIf (client.watchingWrite = false) do
      watch (!client.halfClosed) true
      putClient { client with watchingWrite := true }

/-- The outcome of a call of `send`: it takes some bytes, but at least one, or
it would block, or the socket fails. -/
inductive Sending where
  | taken (more : Nat)
  | wouldBlock
  | failed

/-- The client after the loop of `flush_client`, what was sent in it and
whether the socket failed. -/
structure Flushed where
  client : ClientInfo
  sent : Bytes
  failed : Bool

/-- The number of bytes that a call of `send` takes. -/
def ClientInfo.taking (client : ClientInfo) (more : Nat) : Nat :=
  min (more + 1) (client.outputBuffer.length - client.outputOffset)

/-- The client after a call of `send`. -/
def ClientInfo.advance (client : ClientInfo) (count : Nat) : ClientInfo :=
  { client with outputOffset := client.outputOffset + count }.compactOutput

/-- The loop of `flush_client`, which ends when all output is sent; at the end
of the list a call would block. -/
def flushLoop : List Sending -> ClientInfo -> Flushed
  | .taken more :: rest, client =>
      if client.outputOffset < client.outputBuffer.length then
        let later := flushLoop rest (client.advance (client.taking more))
        { later with sent := client.unsent.take (client.taking more) ++ later.sent }
      else ⟨client, [], false⟩
  | .failed :: _, client => ⟨client, [], client.outputOffset < client.outputBuffer.length⟩
  | .wouldBlock :: _, client => ⟨client, [], false⟩
  | [], client => ⟨client, [], false⟩

/-- The end of `flush_client` when all output was sent. -/
def finishFlush (client : ClientInfo) : Handler Store Unit := do
  Cmd.onlyIf (client.watchingWrite = true) do
    watch (!client.halfClosed) false
    putClient { client with watchingWrite := false }
  Cmd.onlyIf (client.closeAfterWrite = true ∧ client.processingQueued = false) removeClient

def flushClient (sendings : List Sending) : Handler Store Unit :=
  withClient fun client => do
    let flushed := flushLoop sendings client
    record fun peer => { peer with sent := peer.sent ++ flushed.sent }
    if flushed.failed = true then do
      recordFault
      removeClient
    else do
      putClient flushed.client
      Cmd.onlyIf (¬ flushed.client.outputOffset < flushed.client.outputBuffer.length)
        (finishFlush flushed.client)

/-! ## Executing -/

/-- What a batch of commands works on: the store, the output of the client, and
the record of what was executed. -/
structure Batch (Store : Type) where
  store : Store
  output : Bytes
  executed : List (Exchange Store)

def onStore (body : Cmd Exn Store Unit) : Cmd Exn (Batch Store) Unit :=
  Cmd.zoom Batch.store (fun store batch => { batch with store := store }) body

def oomText : Bytes := ascii "OOM database memory limit or allocation failure"

/-- A command with the handler for `std::bad_alloc`, which puts an error behind
whatever the command had appended. -/
def executeGuarded (service : Service Store) (stats : ServerStats) (command : Command) :
    Cmd Exn (Store × Bytes) Unit :=
  (service.executeInto stats command).handle fun thrown =>
    if thrown = .badAlloc then
      Cmd.zoom Prod.snd (fun output pair => (pair.1, output)) (Resp.appendError oomText)
    else Cmd.raise thrown

def executeRecorded (service : Service Store) (stats : ServerStats) (command : Command) :
    Cmd Exn (Batch Store) Unit :=
  Cmd.zoom (fun batch => (batch.store, batch.output))
    (fun pair batch =>
      { store := pair.1
        output := pair.2
        executed := batch.executed ++
          [⟨command, stats, batch.store, batch.output, pair.2.drop batch.output.length, pair.1⟩] })
    (executeGuarded service stats command)

def executeBatch (service : Service Store) (stats : ServerStats) (commands : List Command)
    (hasWrite : Bool) : Cmd Exn (Batch Store) Unit := do
  Cmd.onlyIf (hasWrite = true) (onStore service.beginBatch)
  (Cmd.forEach commands (executeRecorded service stats)).handle fun thrown => do
    Cmd.onlyIf (hasWrite = true) (onStore service.endBatch)
    Cmd.raise thrown
  Cmd.onlyIf (hasWrite = true) (onStore service.endBatch)
  onStore service.awaitCapacity

def inBatch (client : ClientInfo) (body : Cmd Exn (Batch Store) Unit) : Handler Store Unit :=
  Cmd.zoom (fun session => ⟨session.store, client.outputBuffer, session.peer.executed⟩)
    (fun batch session =>
      { session with
        store := batch.store
        client := some { client with outputBuffer := batch.output }
        peer := { session.peer with executed := batch.executed } })
    body

/-! ## Processing -/

structure Parsed where
  client : ClientInfo
  count : Nat
  hasWrite : Bool
  failure : Option ErrorCode

/-- Write to a place of the batch, which may be one behind its end. -/
def storeCommand (index : Nat) (command : Command) (batch : List Command) : List Command :=
  if index < batch.length then batch.set index command else batch ++ [command]

/-- The command parsed into its place, classified and taken off the input. -/
def Parsed.accept (parsed : Parsed) (command : Command) : Parsed :=
  let info := Resp.classifyCommand command.name
  { client :=
      { parsed.client with
        batch := storeCommand parsed.count { command with classifiedId := info.id }
          parsed.client.batch
        inputOffset := parsed.client.inputOffset + command.bytesConsumed }
    count := parsed.count + 1
    hasWrite := parsed.hasWrite || info.isWrite
    failure := none }

/-- The parse loop stops with what is left in the place. -/
def Parsed.stop (parsed : Parsed) (command : Command) (code : ErrorCode) : Parsed :=
  { parsed with
    client :=
      { parsed.client with batch := storeCommand parsed.count command parsed.client.batch }
    failure := if Resp.isIncompleteRespError code then none else some code }

/-- The parse loop of `process_client` with the number of commands it may still
parse. -/
def parseLoop : Nat -> Parsed -> Parsed
  | 0, parsed => parsed
  | limit + 1, parsed =>
      if parsed.client.inputOffset < parsed.client.buffer.length then
        match Resp.parseCommandInto parsed.client.unparsed
            (parsed.client.batch.getD parsed.count Command.fresh) with
        | (.ok _, command) => parseLoop limit (parsed.accept command)
        | (.error code, command) => parsed.stop command code
      else parsed

/-- Reject the rest of the input: the error is the last thing the client
gets. -/
def rejectInput (client : ClientInfo) (text : Bytes) : Handler Store Unit :=
  match Resp.appendError text client.outputBuffer with
  | (.error _, _) => do
      countOutputDisconnect
      removeClient
  | (.ok _, output) => do
      putClient
        { client with
          outputBuffer := output
          buffer := []
          inputOffset := 0
          closeAfterWrite := true }
      requestWrite

def protocolText (code : ErrorCode) : Bytes :=
  ascii ErrorCode.protocolErrorPrefix.message ++ ascii code.message

/-- Whether the client goes to the end of `pending_clients`. -/
def ClientInfo.MustWait (client : ClientInfo) (count : Nat) : Prop :=
  count = batchLimit ∧ client.inputOffset < client.buffer.length ∧ client.processingQueued = false

instance (client : ClientInfo) (count : Nat) : Decidable (client.MustWait count) :=
  inferInstanceAs (Decidable (_ ∧ _ ∧ _))

/-- `pending_clients.push_back`. -/
def pushPending : Handler Store Unit :=
  Cmd.update fun session => { session with pushes := session.pushes + 1 }

/-- The end of `process_client`: send what there is. -/
def sendOutput (client : ClientInfo) (sendings : List Sending) : Handler Store Unit :=
  if client.outputBuffer.length - client.outputOffset > maxOutputBufferSize then do
    countOutputDisconnect
    recordFault
    removeClient
  else if client.outputOffset < client.outputBuffer.length then do
    flushClient sendings
    withClient fun client =>
      Cmd.onlyIf (client.outputOffset < client.outputBuffer.length) requestWrite
  else
    Cmd.onlyIf (client.closeAfterWrite = true ∧ client.processingQueued = false) removeClient

/-- `process_client` behind the batch. -/
def finishProcessing (client : ClientInfo) (count : Nat) (failure : Option ErrorCode)
    (sendings : List Sending) : Handler Store Unit :=
  match failure with
  | some code => do
      recordFault
      rejectInput client (protocolText code)
  | none => do
      let compacted := client.compactInput
      if compacted.MustWait count then do
        let queued := { compacted with processingQueued := true }
        putClient queued
        pushPending
        sendOutput queued sendings
      else do
        putClient compacted
        sendOutput compacted sendings

/-- The batch of `process_client`, if there are commands in it. -/
def tryBatch (service : Service Store) (parsed : Parsed) : Handler Store Bool := do
  let session <- Cmd.read
  Cmd.onlyIf (parsed.count ≠ 0)
    (inBatch parsed.client (executeBatch service session.stats
      (parsed.client.batch.take parsed.count) parsed.hasWrite))
  pure true

/-- The client is dropped when its output became too large. -/
def dropLarge (thrown : Exn) : Handler Store Bool :=
  if thrown = Exn.error .requestTooLarge then do
    countOutputDisconnect
    recordFault
    removeClient
    pure false
  else Cmd.raise thrown

/-- The batch of `process_client`; says whether the client is still there. -/
def runBatch (service : Service Store) (parsed : Parsed) : Handler Store Bool :=
  (tryBatch service parsed).handle dropLarge

def processClient (service : Service Store) (sendings : List Sending) : Handler Store Unit :=
  withClient fun client => do
    let parsed := parseLoop batchLimit ⟨client.dropSent, 0, false, none⟩
    putClient parsed.client
    let present <- runBatch service parsed
    Cmd.onlyIf (present = true) (withClient fun client =>
      finishProcessing client parsed.count parsed.failure sendings)

/-! ## Reading -/

/-- The outcome of a call of `receive`: at least one byte, the end of the
stream, nothing yet, or a failure of the socket. -/
inductive Receiving where
  | data (first : UInt8) (rest : Bytes)
  | ended
  | wouldBlock
  | failed

/-- How the loop of `read_client` ends. -/
inductive ReadEnd where
  | processed
  | tooLong
  | failed

/-- The client after the loop of `read_client` and what was received in it. -/
structure Received where
  client : ClientInfo
  bytes : Bytes
  stop : ReadEnd

/-- The loop of `read_client`; at the end of the list a call would block. -/
def receiveLoop : List Receiving -> ClientInfo -> Received
  | [], client => ⟨client, [], .processed⟩
  | .data first rest :: more, client =>
      let chunk := (first :: rest).take readChunkSize
      let longer := { client with buffer := client.buffer ++ chunk }
      if longer.buffer.length - longer.inputOffset > maxInputBufferSize then
        ⟨longer, chunk, .tooLong⟩
      else if chunk.length < readChunkSize then ⟨longer, chunk, .processed⟩
      else
        let later := receiveLoop more longer
        { later with bytes := chunk ++ later.bytes }
  | .ended :: _, client =>
      ⟨{ client with halfClosed := true, closeAfterWrite := true }, [], .processed⟩
  | .wouldBlock :: _, client => ⟨client, [], .processed⟩
  | .failed :: _, client => ⟨client, [], .failed⟩

def readClient (service : Service Store) (receivings : List Receiving)
    (sendings : List Sending) : Handler Store Unit :=
  withClient fun client =>
    Cmd.onlyIf (client.halfClosed = false) do
      let received := receiveLoop receivings client
      record fun peer =>
        { peer with
          received := peer.received ++ received.bytes
          ended := received.client.halfClosed }
      match received.stop with
      | .failed => do
          recordFault
          removeClient
      | .tooLong => do
          countInputDisconnect
          recordFault
          rejectInput received.client (ascii ErrorCode.requestTooLarge.message)
      | .processed => do
          putClient received.client
          processClient service sendings

/-- What the loop of `start` does to a connection it takes from
`pending_clients`. -/
def takeTurn (service : Service Store) (sendings : List Sending) : Handler Store Unit :=
  withClient fun client => do
    putClient { client with processingQueued := false }
    processClient service sendings

def failClient : Handler Store Unit := do
  recordFault
  removeClient

/-! ## The server -/

/-- The state of the server between two handlers.  `peers` is the record of what
happened on each connection; no handler looks at it. -/
structure State (Store : Type) where
  clients : Finmap (fun _ : ClientId => ClientInfo)
  pending : List ClientId
  store : Store
  inputBufferDisconnects : Nat
  outputBufferDisconnects : Nat
  peers : ClientId -> Peer Store

namespace State

/-- A server without connections. -/
def initial (store : Store) : State Store :=
  ⟨∅, [], store, 0, 0, fun _ => Peer.fresh⟩

def stats (state : State Store) : ServerStats :=
  ⟨state.clients.keys.card, state.inputBufferDisconnects, state.outputBufferDisconnects⟩

/-- The part of the state that belongs to one connection. -/
def session (id : ClientId) (state : State Store) : Session Store :=
  ⟨state.clients.lookup id, state.peers id, 0, state.store, state.stats⟩

def withEntry (id : ClientId) (entry : Option ClientInfo)
    (clients : Finmap (fun _ : ClientId => ClientInfo)) : Finmap (fun _ : ClientId => ClientInfo) :=
  match entry with
  | none => clients.erase id
  | some client => clients.insert id client

/-- The state after a handler of one connection. -/
def resume (id : ClientId) (session : Session Store) (state : State Store) : State Store :=
  { clients := withEntry id session.client state.clients
    pending := state.pending ++ List.replicate session.pushes id
    store := session.store
    inputBufferDisconnects := session.stats.inputBufferDisconnects
    outputBufferDisconnects := session.stats.outputBufferDisconnects
    peers := Function.update state.peers id session.peer }

end State

def onClient (id : ClientId) (handler : Handler Store Unit) : Cmd Exn (State Store) Unit :=
  Cmd.zoom (State.session id) (State.resume id) handler

/-- What can happen: a client is taken from `pending_clients`, a socket is
ready, fails or is accepted, or something else changes the store. -/
inductive Event (Store : Type) where
  | turn (sendings : List Sending)
  | readable (id : ClientId) (receivings : List Receiving) (sendings : List Sending)
  | writable (id : ClientId) (sendings : List Sending)
  | failed (id : ClientId)
  | accepted (id : ClientId)
  | elsewhere (store : Store)

/-- `pending_clients.pop_front`. -/
def popPending (service : Service Store) (sendings : List Sending) :
    Cmd Exn (State Store) Unit := do
  let state <- Cmd.read
  match state.pending with
  | [] => pure ()
  | id :: rest => do
      Cmd.update fun state => { state with pending := rest }
      onClient id (takeTurn service sendings)

/-- A connection is accepted under an identifier that is not used. -/
def acceptClient (id : ClientId) (state : State Store) : State Store :=
  if state.clients.keys.card < maxClients ∧ id ∉ state.clients then
    { state with
      clients := state.clients.insert id ClientInfo.fresh
      peers := Function.update state.peers id Peer.fresh }
  else state

def handleEvent (service : Service Store) : Event Store -> Cmd Exn (State Store) Unit
  | .turn sendings => popPending service sendings
  | .readable id receivings sendings => onClient id (readClient service receivings sendings)
  | .writable id sendings => onClient id (flushClient sendings)
  | .failed id => onClient id failClient
  | .accepted id => Cmd.update (acceptClient id)
  | .elsewhere store => Cmd.update fun state => { state with store := store }

/-- Identifiers are not used again while they are queued. -/
def Event.Admissible (state : State Store) : Event Store -> Prop
  | .accepted id => id ∉ state.pending
  | _ => True

instance (state : State Store) : (event : Event Store) -> Decidable (event.Admissible state)
  | .accepted id => inferInstanceAs (Decidable (id ∉ state.pending))
  | .turn _ => .isTrue trivial
  | .readable _ _ _ => .isTrue trivial
  | .writable _ _ => .isTrue trivial
  | .failed _ => .isTrue trivial
  | .elsewhere _ => .isTrue trivial

/-- The states between the handlers of any run: events come in any order, and
the calls on the sockets have any outcome. -/
inductive Reachable (service : Service Store) : State Store -> Prop where
  | start (store : Store) : Reachable service (State.initial store)
  | handled {state later : State Store} (reachable : Reachable service state)
      (event : Event Store) (admissible : event.Admissible state)
      (returned : handleEvent service event state = (.ok (), later)) : Reachable service later

end Server
end Reddish
