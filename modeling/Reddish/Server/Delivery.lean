import Reddish.Server.Connection

namespace Reddish

open Library Numeral
open Resp (Command Reading requests requests_stable)

/-!
# Delivery of replies

A connection gets the replies of its commands in the order of its stream.  The
record of a connection says which part of the stream was executed and which
part of the replies was sent; between two handlers the rest of the stream is
in the input buffer and the rest of the replies in the output buffer.
-/

namespace Server

variable {Store : Type}

/-! ## Buffers -/

/-- Compacting a buffer keeps what is behind the offset. -/
theorem compactBuffer_spec {buffer : Bytes} {offset : Nat} (inside : offset ≤ buffer.length) :
    (compactBuffer buffer offset).1.drop (compactBuffer buffer offset).2 = buffer.drop offset ∧
      (compactBuffer buffer offset).2 ≤ (compactBuffer buffer offset).1.length := by
  unfold compactBuffer
  by_cases whole : offset = buffer.length
  · rw [if_pos whole, whole, List.drop_length]
    exact ⟨rfl, Nat.le_refl _⟩
  · rw [if_neg whole]
    split
    · exact ⟨rfl, Nat.zero_le _⟩
    · exact ⟨rfl, inside⟩

theorem unsent_eq_nil {client : ClientInfo} :
    client.unsent = [] <-> ¬ client.outputOffset < client.outputBuffer.length := by
  unfold ClientInfo.unsent
  rw [List.drop_eq_nil_iff, Nat.not_lt]

theorem unparsed_eq_nil {client : ClientInfo} :
    client.unparsed = [] <-> ¬ client.inputOffset < client.buffer.length := by
  unfold ClientInfo.unparsed
  rw [List.drop_eq_nil_iff, Nat.not_lt]

/-- A call of `send` takes bytes from the front of the output. -/
theorem advance_spec {client : ClientInfo} (inside : client.outputOffset ≤ client.outputBuffer.length)
    (more : Nat) :
    client.unsent.take (client.taking more) ++ (client.advance (client.taking more)).unsent =
        client.unsent ∧
      (client.advance (client.taking more)).outputOffset ≤
        (client.advance (client.taking more)).outputBuffer.length := by
  have fits : client.outputOffset + client.taking more ≤ client.outputBuffer.length := by
    unfold ClientInfo.taking
    omega
  have kept := compactBuffer_spec fits
  refine ⟨?_, kept.2⟩
  have rest : (client.advance (client.taking more)).unsent =
      client.outputBuffer.drop (client.outputOffset + client.taking more) := kept.1
  rw [rest, <- List.drop_drop]
  exact List.take_append_drop _ _

/-- Only the output buffer changed. -/
def SameButOutput (before after : ClientInfo) : Prop :=
  after = { before with outputBuffer := after.outputBuffer, outputOffset := after.outputOffset }

theorem SameButOutput.trans {first second third : ClientInfo} (left : SameButOutput first second)
    (right : SameButOutput second third) : SameButOutput first third := by
  unfold SameButOutput at left right ⊢
  rw [right, left]

/-- The loop of `flush_client` touches the output alone. -/
theorem flushLoop_same (sendings : List Sending) : forall (client : ClientInfo),
    SameButOutput client (flushLoop sendings client).client := by
  induction sendings with
  | nil => exact fun _ => rfl
  | cons outcome rest ih =>
      intro client
      cases outcome with
      | taken more =>
          rw [flushLoop]
          split
          · exact SameButOutput.trans (by rfl) (ih _)
          · rfl
      | wouldBlock => rfl
      | failed => rfl

/-- The loop of `flush_client` sends the front of the output. -/
theorem flushLoop_spec (sendings : List Sending) : forall {client : ClientInfo},
    client.outputOffset ≤ client.outputBuffer.length ->
    (flushLoop sendings client).sent ++ (flushLoop sendings client).client.unsent =
        client.unsent ∧
      (flushLoop sendings client).client.outputOffset ≤
        (flushLoop sendings client).client.outputBuffer.length := by
  induction sendings with
  | nil => exact fun inside => ⟨rfl, inside⟩
  | cons outcome rest ih =>
      intro client inside
      cases outcome with
      | taken more =>
          rw [flushLoop]
          split
          · have advanced := advance_spec inside more
            rcases ih advanced.2 with ⟨sent, fits⟩
            refine ⟨?_, fits⟩
            simp only
            rw [List.append_assoc, sent]
            exact advanced.1
          · exact ⟨rfl, inside⟩
      | wouldBlock => exact ⟨rfl, inside⟩
      | failed => exact ⟨rfl, inside⟩

/-! ## Parsing a batch -/

/-- A command is stored behind the ones parsed before. -/
theorem storeCommand_spec {index : Nat} {command : Command} {batch : List Command}
    (inside : index ≤ batch.length) :
    (storeCommand index command batch).take (index + 1) = batch.take index ++ [command] ∧
      index + 1 ≤ (storeCommand index command batch).length := by
  unfold storeCommand
  by_cases less : index < batch.length
  · rw [if_pos less, List.length_set]
    refine ⟨?_, less⟩
    rw [List.take_add_one, List.take_set_of_le (Nat.le_refl _), List.getElem?_set_self less]
    rfl
  · have whole : index = batch.length := by omega
    rw [if_neg less, whole, List.length_append, List.take_length]
    refine ⟨?_, by simp⟩
    rw [List.take_of_length_le (by simp)]

/-- What the parse loop has done to the client. -/
structure ParsedFrom (start : ClientInfo) (parsed : Parsed) (readings : List Reading) : Prop where
  client : parsed.client =
    { start with batch := parsed.client.batch, inputOffset := parsed.client.inputOffset }
  takes : requests.Takes start.unparsed readings parsed.client.unparsed
  inside : parsed.client.inputOffset ≤ parsed.client.buffer.length
  stored : parsed.count ≤ parsed.client.batch.length
  readings : (parsed.client.batch.take parsed.count).map Command.reading = readings
  classified : forall command, command ∈ parsed.client.batch.take parsed.count ->
    command.classifiedId = (Resp.classifyCommand command.name).id

theorem ParsedFrom.accept {start : ClientInfo} {parsed : Parsed} {readings : List Reading}
    (sofar : ParsedFrom start parsed readings) {command : Command}
    (decoded : requests.decode parsed.client.unparsed =
      .ok (command.reading, command.bytesConsumed)) :
    ParsedFrom start (parsed.accept command) (readings ++ [command.reading]) := by
  have stored := @storeCommand_spec parsed.count
    { command with classifiedId := (Resp.classifyCommand command.name).id } _ sofar.stored
  have rest : (parsed.accept command).client.unparsed =
      parsed.client.unparsed.drop command.bytesConsumed := by
    unfold ClientInfo.unparsed
    rw [List.drop_drop]
    rfl
  have used := requests_stable.used_le decoded
  refine ⟨?_, ?_, ?_, stored.2, ?_, ?_⟩
  · unfold Parsed.accept
    simp only
    rw [sofar.client]
  · refine sofar.takes.trans (.item decoded ?_)
    rw [rest]
    exact .none _
  · unfold ClientInfo.unparsed at used
    rw [List.length_drop] at used
    have before := sofar.inside
    change parsed.client.inputOffset + command.bytesConsumed ≤ parsed.client.buffer.length
    omega
  · change ((storeCommand parsed.count _ parsed.client.batch).take (parsed.count + 1)).map
      Command.reading = _
    rw [stored.1, List.map_append, sofar.readings]
    rfl
  · intro other inside
    change other ∈ (storeCommand parsed.count _ parsed.client.batch).take (parsed.count + 1) at inside
    rw [stored.1] at inside
    rcases List.mem_append.mp inside with early | last
    · exact sofar.classified other early
    · rw [List.mem_singleton.mp last]

theorem ParsedFrom.stop {start : ClientInfo} {parsed : Parsed} {readings : List Reading}
    (sofar : ParsedFrom start parsed readings) (command : Command) (code : ErrorCode) :
    ParsedFrom start (parsed.stop command code) readings := by
  have stored := @storeCommand_spec parsed.count command _ sofar.stored
  have front := congrArg (List.take parsed.count) stored.1
  rw [List.take_take, List.take_left' (List.length_take_of_le sofar.stored),
    Nat.min_eq_left (Nat.le_succ _)] at front
  refine ⟨?_, sofar.takes, sofar.inside, ?_, ?_, ?_⟩
  · unfold Parsed.stop
    simp only
    rw [sofar.client]
  · change parsed.count ≤ (storeCommand parsed.count command parsed.client.batch).length
    omega
  · change ((storeCommand parsed.count command parsed.client.batch).take parsed.count).map
      Command.reading = _
    rw [front, sofar.readings]
  · change forall other, other ∈
      (storeCommand parsed.count command parsed.client.batch).take parsed.count -> _
    rw [front]
    exact sofar.classified

/-- The parse loop takes commands from the front of the input, and unless it
reached its limit, none is left. -/
theorem parseLoop_spec (limit : Nat) {start : ClientInfo} : forall {parsed : Parsed}
    {readings : List Reading}, ParsedFrom start parsed readings ->
    exists more, ParsedFrom start (parseLoop limit parsed) more ∧
      ((parseLoop limit parsed).count = parsed.count + limit ∨
        (requests.drain (parseLoop limit parsed).client.unparsed).items = []) := by
  induction limit with
  | zero => exact fun {_} {readings} sofar => ⟨readings, sofar, Or.inl rfl⟩
  | succ limit ih =>
      intro parsed readings sofar
      rw [parseLoop]
      by_cases more : parsed.client.inputOffset < parsed.client.buffer.length
      · rw [if_pos more]
        have nonempty : parsed.client.unparsed ≠ [] := fun empty => unparsed_eq_nil.mp empty more
        have decoded := Resp.parseCommandInto_decode parsed.client.unparsed
          (parsed.client.batch.getD parsed.count Command.fresh)
        rcases outcome : Resp.parseCommandInto parsed.client.unparsed
          (parsed.client.batch.getD parsed.count Command.fresh) with ⟨code | value, command⟩
        · rw [outcome] at decoded
          refine ⟨readings, sofar.stop command code, Or.inr ?_⟩
          change (requests.drain parsed.client.unparsed).items = []
          rw [Decoder.drain_error nonempty decoded]
          rfl
        · rw [outcome] at decoded
          rcases ih (sofar.accept decoded) with ⟨all, done, ended⟩
          refine ⟨all, done, ?_⟩
          rcases ended with full | empty
          · refine Or.inl ?_
            rw [full]
            change parsed.count + 1 + limit = _
            omega
          · exact Or.inr empty
      · rw [if_neg more]
        refine ⟨readings, sofar, Or.inr ?_⟩
        rw [unparsed_eq_nil.mpr more, Decoder.drain_nil]
        rfl

/-! ## Executing a batch -/

/-- One run of the command on the store of that moment.  When it found no memory,
the error is put behind what it had appended. -/
def Exchange.Ran (service : Service Store) (exchange : Exchange Store) : Prop :=
  exists front outcome,
    service.executeInto exchange.stats exchange.command (exchange.before, exchange.output) =
      (outcome, (exchange.after, exchange.output ++ front)) ∧
    (outcome = .ok () ∧ exchange.reply = front ∨ outcome = .error .badAlloc ∧
      Resp.appendError oomText (exchange.output ++ front) =
        (.ok (), exchange.output ++ exchange.reply))

/-- Such a run of a command that was classified by its name. -/
structure Exchange.Genuine (service : Service Store) (exchange : Exchange Store) : Prop where
  ran : exchange.Ran service
  classified : exchange.command.classifiedId = (Resp.classifyCommand exchange.command.name).id

def Exchange.reading (exchange : Exchange Store) : Reading :=
  exchange.command.reading

/-- Commands were executed, and each appended its reply. -/
def Executed (service : Service Store) (commands : List Command) (before after : Batch Store) :
    Prop :=
  exists log : List (Exchange Store), log.map Exchange.command = commands ∧
    (forall exchange, exchange ∈ log -> exchange.Ran service) ∧
    after.executed = before.executed ++ log ∧
    after.output = before.output ++ (log.map Exchange.reply).flatten

variable {service : Service Store}

theorem Executed.nil (batch : Batch Store) : Executed service [] batch batch :=
  ⟨[], rfl, nofun, by simp, by simp⟩

theorem Executed.append {commands others : List Command} {first second third : Batch Store}
    (one : Executed service commands first second) (rest : Executed service others second third) :
    Executed service (commands ++ others) first third := by
  rcases one with ⟨log, commands, ran, executed, output⟩
  rcases rest with ⟨more, others, ranMore, executedMore, outputMore⟩
  refine ⟨log ++ more, ?_, ?_, ?_, ?_⟩
  · rw [List.map_append, commands, others]
  · exact List.forall_mem_append.mpr ⟨ran, ranMore⟩
  · rw [executedMore, executed, List.append_assoc]
  · rw [outputMore, output, List.map_append, List.flatten_append, List.append_assoc]

/-- A change of the store is no execution. -/
theorem Executed.onStore {commands : List Command} {before after : Batch Store}
    (done : Executed service commands before after) (store : Store) :
    Executed service commands before { after with store := store } :=
  done

/-- An error is appended completely or not at all. -/
theorem appendError_ok {text output after : Bytes}
    (ran : Resp.appendError text output = (.ok (), after)) :
    after = output ++ ([45] ++ text ++ Resp.crlf) := by
  have spec : (Resp.appendError text).wp
      (fun _ after => after = output ++ ([45] ++ text ++ Resp.crlf))
      (fun _ _ => True) output := by
    unfold Resp.appendError Resp.requireReplySpace Resp.append
    simp only [Cmd.wp_bind, Cmd.wp_read, Cmd.wp_update]
    exact Cmd.wp_require (fun _ => rfl) (fun _ => trivial)
  have whole := Cmd.of_wp_ok spec ran
  exact whole

theorem executeGuarded_spec (service : Service Store) (stats : ServerStats) (command : Command)
    (store : Store) (output : Bytes) :
    (executeGuarded service stats command).wp
      (fun _ after => exists reply, after.2 = output ++ reply ∧
        Exchange.Ran service ⟨command, stats, store, output, reply, after.1⟩)
      (fun _ _ => True) (store, output) := by
  unfold executeGuarded
  rw [Cmd.wp_handle]
  rcases service.appends stats command store output with ⟨front, grown⟩
  unfold Cmd.wp
  rcases ran : service.executeInto stats command (store, output) with ⟨thrown | _, ⟨later, whole⟩⟩
  · rw [ran] at grown
    cases grown
    refine Cmd.wp_ite (fun memory => ?_) (fun _ => trivial)
    rw [Cmd.wp_zoom]
    unfold Cmd.wp
    rcases appended : Resp.appendError oomText (output ++ front) with ⟨failed | _, last⟩
    · trivial
    · have bytes := appendError_ok appended
      rw [List.append_assoc] at bytes
      rw [bytes] at appended
      exact ⟨_, bytes, front, _, ran, Or.inr ⟨congrArg Except.error memory, appended⟩⟩
  · rw [ran] at grown
    cases grown
    exact ⟨front, rfl, front, _, ran, Or.inl ⟨rfl, rfl⟩⟩

theorem executeRecorded_spec (service : Service Store) (stats : ServerStats) (command : Command)
    (batch : Batch Store) :
    (executeRecorded service stats command).wp
      (fun _ after => Executed service [command] batch after) (fun _ _ => True) batch := by
  unfold executeRecorded
  rw [Cmd.wp_zoom]
  refine Cmd.wp_mono (executeGuarded_spec service stats command batch.store batch.output) ?_
    (fun _ _ _ => trivial)
  rintro _ ⟨store, output⟩ ⟨reply, rfl, ran⟩
  refine ⟨[⟨command, stats, batch.store, batch.output, reply, store⟩], rfl, ?_, ?_, ?_⟩
  · exact List.forall_mem_singleton.mpr ran
  · simp only [List.drop_left]
  · simp

theorem forEach_executed (service : Service Store) (stats : ServerStats) (commands : List Command) :
    forall batch : Batch Store, (Cmd.forEach commands (executeRecorded service stats)).wp
      (fun _ after => Executed service commands batch after) (fun _ _ => True) batch := by
  induction commands with
  | nil => exact fun batch => Executed.nil batch
  | cons command commands ih =>
      intro batch
      rw [Cmd.forEach, Cmd.wp_bind]
      refine Cmd.wp_mono (executeRecorded_spec service stats command batch) ?_ (fun _ _ _ => trivial)
      intro _ middle one
      refine Cmd.wp_mono (ih middle) ?_ (fun _ _ _ => trivial)
      intro _ after rest
      exact one.append rest

/-- Batches around the commands change the store only. -/
theorem onStore_executed {commands : List Command} {before batch : Batch Store}
    (done : Executed service commands before batch) (body : Cmd Exn Store Unit) :
    (onStore body).wp (fun _ after => Executed service commands before after)
      (fun _ _ => True) batch := by
  unfold onStore
  rw [Cmd.wp_zoom]
  unfold Cmd.wp
  rcases body batch.store with ⟨thrown | value, store⟩
  · trivial
  · exact done.onStore store

theorem executeBatch_spec (service : Service Store) (stats : ServerStats) (commands : List Command)
    (hasWrite : Bool) (batch : Batch Store) :
    (executeBatch service stats commands hasWrite).wp
      (fun _ after => Executed service commands batch after) (fun _ _ => True) batch := by
  have optional : forall {done : List Command} {now : Batch Store} (body : Cmd Exn Store Unit),
      Executed service done batch now -> (Cmd.onlyIf (hasWrite = true) (onStore body)).wp
        (fun _ after => Executed service done batch after) (fun _ _ => True) now := by
    intro done now body executed
    exact Cmd.wp_onlyIf (fun _ => onStore_executed executed body) (fun _ => executed)
  unfold executeBatch
  refine Cmd.wp_step (optional service.beginBatch (Executed.nil batch)) ?_ (fun _ _ _ => trivial)
  intro _ begun started
  rw [Cmd.wp_bind, Cmd.wp_handle]
  refine Cmd.wp_mono (forEach_executed service stats commands begun) ?_ ?_
  · intro _ after done
    refine Cmd.wp_step (optional service.endBatch (started.append done)) ?_ (fun _ _ _ => trivial)
    intro _ ended done
    exact onStore_executed done service.awaitCapacity
  · intro thrown after _
    rw [Cmd.wp_bind]
    exact (Cmd.wp_state fun _ => True).mpr trivial

/-! ## Connections between two handlers -/

/-- The commands at the front of the stream were executed, the rest is in the
input buffer; their replies were sent or are in the output buffer. -/
structure Ordered (service : Service Store) (client : ClientInfo) (peer : Peer Store) : Prop where
  stream : requests.Takes peer.received (peer.executed.map Exchange.reading) client.unparsed
  replies : peer.sent ++ client.unsent = (peer.executed.map Exchange.reply).flatten
  genuine : forall exchange, exchange ∈ peer.executed -> exchange.Genuine service
  output : client.outputOffset ≤ client.outputBuffer.length
  ended : peer.ended = client.halfClosed
  closing : client.closeAfterWrite = client.halfClosed

/-- No complete command is left in the input. -/
def Starved (client : ClientInfo) : Prop :=
  (requests.drain client.unparsed).items = []

/-- Everything that was asked was answered, and the answers were sent. -/
structure Finished (service : Service Store) (peer : Peer Store) : Prop where
  ended : peer.ended = true
  executed : (requests.drain peer.received).items = peer.executed.map Exchange.reading
  sent : peer.sent = (peer.executed.map Exchange.reply).flatten
  genuine : forall exchange, exchange ∈ peer.executed -> exchange.Genuine service

/-- A connection in the middle of a handler; `queued` says how often it was in
`pending_clients` before. -/
structure Serving (service : Service Store) (queued : Nat) (client : ClientInfo)
    (session : Session Store) : Prop where
  entry : session.client = some client
  inside : client.inputOffset ≤ client.buffer.length
  turns : queued + session.pushes = if client.processingQueued = true then 1 else 0
  ordered : session.peer.faulted = false -> Ordered service client session.peer

/-- A connection between two handlers.  It is queued as often as its flag says, and if
it is not queued, no complete command is left in its buffer. -/
structure Sane (service : Service Store) (queued : Nat) (session : Session Store) : Prop where
  serving : forall client, session.client = some client -> Serving service queued client session
  settled : session.peer.faulted = false -> forall client, session.client = some client ->
    client.processingQueued = false -> Starved client
  gone : session.client = none -> queued + session.pushes ≤ 1 ∧
    (session.peer.faulted = false -> Finished service session.peer ∨ session.peer = Peer.fresh)

variable {queued : Nat} {client : ClientInfo} {session : Session Store}

theorem Serving.few (serving : Serving service queued client session) :
    queued + session.pushes ≤ 1 := by
  rw [serving.turns]
  split
  · exact Nat.le_refl 1
  · exact Nat.zero_le 1

theorem Serving.sane (serving : Serving service queued client session)
    (settled : session.peer.faulted = false -> client.processingQueued = false -> Starved client) :
    Sane service queued session where
  serving := by
    intro other entry
    cases serving.entry.symm.trans entry
    exact serving
  settled := by
    intro fine other entry
    cases serving.entry.symm.trans entry
    exact settled fine
  gone := by
    intro absent
    rw [serving.entry] at absent
    cases absent

theorem Sane.few (sane : Sane service queued session) : queued + session.pushes ≤ 1 := by
  cases here : session.client with
  | none => exact (sane.gone here).1
  | some client => exact (sane.serving client here).few

/-- A connection that is gone, either after a failure or after all its work. -/
theorem sane_gone (absent : session.client = none) (few : queued + session.pushes ≤ 1)
    (finished : session.peer.faulted = false -> Finished service session.peer) :
      Sane service queued session where
  serving := by
    intro client entry
    rw [absent] at entry
    cases entry
  settled := by
    intro _ client entry
    rw [absent] at entry
    cases entry
  gone := fun _ => ⟨few, fun fine => Or.inl (finished fine)⟩

/-- An idle client whose output was sent has nothing left to do. -/
theorem Ordered.finished {peer : Peer Store} (ordered : Ordered service client peer)
    (starved : Starved client)
    (sent : client.unsent = []) (closing : client.closeAfterWrite = true) :
      Finished service peer where
  ended := by rw [ordered.ended, <- ordered.closing, closing]
  executed := by rw [requests_stable.drain_takes ordered.stream, starved, List.append_nil]
  sent := by
    have replies := ordered.replies
    rw [sent, List.append_nil] at replies
    exact replies
  genuine := ordered.genuine

/-- Watching the socket changes nothing that matters here. -/
theorem Sane.watched (sane : Sane service queued session) (readable writable watching : Bool)
    (here : session.client = some client) :
    Sane service queued { session with
      client := some { client with watchingWrite := watching }
      peer := { session.peer with readable := readable, writable := writable } } := by
  have serving := sane.serving client here
  refine @Serving.sane _ _ _ { client with watchingWrite := watching } _
    ⟨rfl, serving.inside, serving.turns, ?_⟩ ?_
  · intro fine
    have ordered := serving.ordered fine
    exact ⟨ordered.stream, ordered.replies, ordered.genuine, ordered.output, ordered.ended,
      ordered.closing⟩
  · exact fun fine idle => sane.settled fine client here idle

/-! ## What the handlers keep -/

theorem wp_withClient {body : ClientInfo -> Handler Store Unit} {Q : Unit -> Session Store -> Prop}
    {E : Exn -> Session Store -> Prop} (absent : session.client = none -> Q () session)
    (present : forall client, session.client = some client -> (body client).wp Q E session) :
    (withClient body).wp Q E session := by
  unfold withClient
  rw [Cmd.wp_bind, Cmd.wp_read]
  cases here : session.client with
  | none => exact absent here
  | some client => exact present client here

theorem requestWrite_spec (sane : Sane service queued session) :
    (requestWrite : Handler Store Unit).wp (fun _ after => Sane service queued after)
      (fun _ _ => True)
      session := by
  refine wp_withClient (fun _ => sane) fun client here => ?_
  refine Cmd.wp_onlyIf (fun _ => ?_) (fun _ => sane)
  unfold watch record putClient
  rw [Cmd.wp_bind, Cmd.wp_update, Cmd.wp_update]
  exact sane.watched _ _ true here

/-- A client that has nothing left to do may be removed. -/
theorem removeIdle_spec (sane : Sane service queued session) (here : session.client = some client)
    (sent : client.unsent = []) :
    (Cmd.onlyIf (client.closeAfterWrite = true ∧ client.processingQueued = false) removeClient :
      Handler Store Unit).wp (fun _ after => Sane service queued after)
        (fun _ _ => True) session := by
  refine Cmd.wp_onlyIf ?_ (fun _ => sane)
  rintro ⟨closing, idle⟩
  have serving := sane.serving client here
  refine sane_gone rfl serving.few fun fine => ?_
  exact (serving.ordered fine).finished (sane.settled fine client here idle) sent closing

theorem flushClient_spec (sane : Sane service queued session) (sendings : List Sending) :
    (flushClient sendings : Handler Store Unit).wp (fun _ after => Sane service queued after)
      (fun _ _ => True) session := by
  refine wp_withClient (fun _ => sane) fun client here => ?_
  have serving := sane.serving client here
  unfold record putClient
  rw [Cmd.wp_bind, Cmd.wp_update]
  refine Cmd.wp_ite (fun _ => ?_) (fun _ => ?_)
  · unfold recordFault record removeClient
    rw [Cmd.wp_bind, Cmd.wp_update, Cmd.wp_update]
    exact sane_gone rfl serving.few nofun
  · rw [Cmd.wp_bind, Cmd.wp_update]
    have same := flushLoop_same sendings client
    have spec := @flushLoop_spec sendings client
    generalize flushLoop sendings client = flushed at same spec
    have served : Sane service queued { session with
        client := some flushed.client
        peer := { session.peer with sent := session.peer.sent ++ flushed.sent } } := by
      refine Serving.sane ⟨rfl, ?_, ?_, ?_⟩ ?_
      · rw [same]
        exact serving.inside
      · rw [same]
        exact serving.turns
      · intro fine
        have ordered := serving.ordered fine
        rcases spec ordered.output with ⟨sent, fits⟩
        rw [same] at *
        refine ⟨ordered.stream, ?_, ordered.genuine, fits, ordered.ended, ordered.closing⟩
        rw [List.append_assoc, sent]
        exact ordered.replies
      · rw [same]
        exact fun fine idle => sane.settled fine client here idle
    refine Cmd.wp_onlyIf (fun all => ?_) (fun _ => served)
    unfold finishFlush
    rw [Cmd.wp_bind]
    have sent : flushed.client.unsent = [] := unsent_eq_nil.mpr all
    refine Cmd.wp_onlyIf (fun _ => ?_) (fun _ => removeIdle_spec served rfl sent)
    unfold watch record putClient
    rw [Cmd.wp_bind, Cmd.wp_update, Cmd.wp_update]
    exact @removeIdle_spec _ _ _ { flushed.client with watchingWrite := false } _
      (served.watched _ _ false rfl) rfl sent

theorem sendOutput_spec (sane : Sane service queued session) (here : session.client = some client)
    (sendings : List Sending) :
    (sendOutput client sendings : Handler Store Unit).wp (fun _ after => Sane service queued after)
      (fun _ _ => True) session := by
  unfold sendOutput
  refine Cmd.wp_ite (fun _ => ?_) (fun _ => Cmd.wp_ite (fun _ => ?_) (fun all => ?_))
  · unfold countOutputDisconnect recordFault record removeClient
    rw [Cmd.wp_bind, Cmd.wp_update, Cmd.wp_bind, Cmd.wp_update, Cmd.wp_update]
    exact sane_gone rfl (sane.serving client here).few nofun
  · refine Cmd.wp_step (flushClient_spec sane sendings) ?_ (fun _ _ _ => trivial)
    intro _ later sane
    refine wp_withClient (fun _ => sane) fun client _ => ?_
    exact Cmd.wp_onlyIf (fun _ => requestWrite_spec sane) (fun _ => sane)
  · exact removeIdle_spec sane here (unsent_eq_nil.mpr all)

theorem Serving.failed (serving : Serving service queued client session)
    (failed : session.peer.faulted = true) {other : ClientInfo} {later : Session Store}
    (here : later.client = some other) (inside : other.inputOffset ≤ other.buffer.length)
    (same : other.processingQueued = client.processingQueued)
    (pushes : later.pushes = session.pushes) (peer : later.peer = session.peer) :
    Sane service queued later := by
  have fault : forall {P : Prop}, later.peer.faulted = false -> P := by
    intro P fine
    rw [peer, failed] at fine
    cases fine
  refine Serving.sane ⟨here, inside, ?_, fault⟩ fault
  rw [same, pushes]
  exact serving.turns

theorem rejectInput_spec (serving : Serving service queued client session)
    (failed : session.peer.faulted = true) {longer : ClientInfo}
    (same : longer.processingQueued = client.processingQueued) (text : Bytes) :
    (rejectInput longer text : Handler Store Unit).wp (fun _ after => Sane service queued after)
      (fun _ _ => True) session := by
  unfold rejectInput
  rcases Resp.appendError text longer.outputBuffer with ⟨thrown | value, output⟩
  · unfold countOutputDisconnect removeClient
    simp only [Cmd.wp_bind, Cmd.wp_update]
    refine sane_gone rfl serving.few fun fine => ?_
    change session.peer.faulted = false at fine
    rw [failed] at fine
    cases fine
  · unfold putClient
    simp only [Cmd.wp_bind, Cmd.wp_update]
    exact requestWrite_spec (serving.failed failed rfl (Nat.le_refl 0) same rfl rfl)

theorem unparsed_compactInput (inside : client.inputOffset ≤ client.buffer.length) :
    client.compactInput.unparsed = client.unparsed ∧
      client.compactInput.inputOffset ≤ client.compactInput.buffer.length :=
  compactBuffer_spec inside

/-- `process_client` behind the batch: the input that is left waits for its turn
or has no complete command. -/
theorem finishProcessing_spec (serving : Serving service queued client session) (count : Nat)
    (failure : Option ErrorCode) (sendings : List Sending)
    (ended : session.peer.faulted = false -> count = batchLimit ∨ Starved client) :
    (finishProcessing client count failure sendings : Handler Store Unit).wp
      (fun _ after => Sane service queued after) (fun _ _ => True) session := by
  unfold finishProcessing
  cases failure with
  | some code =>
      unfold recordFault record
      simp only [Cmd.wp_bind, Cmd.wp_update]
      refine rejectInput_spec ?_ rfl rfl _
      exact ⟨serving.entry, serving.inside, serving.turns, fun fine => by cases fine⟩
  | none =>
      have kept := unparsed_compactInput serving.inside
      have ordered : forall fine : session.peer.faulted = false, forall flag,
          Ordered service { client.compactInput with processingQueued := flag } session.peer := by
        intro fine flag
        have before := serving.ordered fine
        refine ⟨?_, before.replies, before.genuine, before.output, before.ended, before.closing⟩
        have stream := before.stream
        rw [<- kept.1] at stream
        exact stream
      simp only
      refine Cmd.wp_ite (fun waits => ?_) (fun goes => ?_)
      · unfold putClient pushPending
        simp only [Cmd.wp_bind, Cmd.wp_update]
        refine sendOutput_spec ?_ rfl sendings
        refine Serving.sane ⟨rfl, kept.2, ?_, fun fine => ordered fine true⟩ ?_
        · have turns := serving.turns
          rw [show client.processingQueued = false from waits.2.2] at turns
          change queued + (session.pushes + 1) = 1
          rw [if_neg Bool.false_ne_true] at turns
          omega
        · intro _ idle
          cases idle
      · unfold putClient
        simp only [Cmd.wp_bind, Cmd.wp_update]
        refine sendOutput_spec ?_ rfl sendings
        refine Serving.sane ⟨rfl, kept.2, serving.turns,
          fun fine => ordered fine client.processingQueued⟩ ?_
        intro fine idle
        unfold Starved
        by_cases rest : client.compactInput.inputOffset < client.compactInput.buffer.length
        · rcases ended fine with full | starved
          · exact absurd ⟨full, rest, idle⟩ goes
          · rw [kept.1]
            exact starved
        · rw [unparsed_eq_nil.mpr rest, Decoder.drain_nil]
          rfl

theorem Ordered.executed {start : ClientInfo} {parsed : Parsed} {peer : Peer Store}
    {readings : List Reading} {log : List (Exchange Store)} (before : Ordered service start peer)
    (parse : ParsedFrom start parsed readings) (whole : start.outputOffset = 0)
    (same : log.map Exchange.command = parsed.client.batch.take parsed.count)
    (ran : forall exchange, exchange ∈ log -> exchange.Ran service) :
    Ordered service
      { parsed.client with outputBuffer :=
        parsed.client.outputBuffer ++ (log.map Exchange.reply).flatten }
      { peer with executed := peer.executed ++ log } := by
  have client := parse.client
  have buffer : parsed.client.outputBuffer = start.outputBuffer := by rw [client]
  have offset : parsed.client.outputOffset = 0 := by rw [client]; exact whole
  have read : log.map Exchange.reading = readings := by
    rw [<- parse.readings, <- same, List.map_map]
    rfl
  refine ⟨?_, ?_, ?_, ?_, ?_, ?_⟩
  · change requests.Takes peer.received
      ((peer.executed ++ log).map Exchange.reading) parsed.client.unparsed
    rw [List.map_append, read]
    exact before.stream.trans parse.takes
  · change peer.sent ++ (parsed.client.outputBuffer ++ _).drop parsed.client.outputOffset = _
    have replies := before.replies
    unfold ClientInfo.unsent at replies
    rw [whole, List.drop_zero] at replies
    rw [offset, buffer, List.drop_zero, <- List.append_assoc, replies, List.map_append,
      List.flatten_append]
  · refine List.forall_mem_append.mpr ⟨before.genuine, fun exchange inside => ?_⟩
    have member := List.mem_map_of_mem (f := Exchange.command) inside
    rw [same] at member
    exact ⟨ran exchange inside, parse.classified _ member⟩
  · change parsed.client.outputOffset ≤ _
    rw [offset]
    exact Nat.zero_le _
  · rw [client]
    exact before.ended
  · rw [client]
    exact before.closing

/-- The batch is executed, and its replies are in the output. -/
theorem runBatch_spec (service : Service Store) {start : ClientInfo} {parsed : Parsed}
    {readings : List Reading} (here : session.client = some parsed.client)
    (turns : queued + session.pushes = if parsed.client.processingQueued = true then 1 else 0)
    (before : session.peer.faulted = false -> Ordered service start session.peer)
    (parse : ParsedFrom start parsed readings) (whole : start.outputOffset = 0) :
    (runBatch service parsed).wp
      (fun present after => (present = true -> exists client, Serving service queued client after ∧
          client.unparsed = parsed.client.unparsed) ∧ (present = false -> Sane service queued after))
      (fun _ _ => True) session := by
  have few : queued + session.pushes ≤ 1 := by
    rw [turns]
    split
    · exact Nat.le_refl 1
    · exact Nat.zero_le 1
  unfold runBatch tryBatch
  rw [Cmd.wp_handle, Cmd.wp_bind, Cmd.wp_read, Cmd.wp_bind]
  have dropped : forall thrown (after : Session Store), after.pushes = session.pushes ->
      (dropLarge thrown : Handler Store Bool).wp
        (fun present after => (present = true -> exists client, Serving service queued client after ∧
          client.unparsed = parsed.client.unparsed) ∧ (present = false -> Sane service queued after))
        (fun _ _ => True) after := by
    intro thrown after pushes
    unfold dropLarge countOutputDisconnect recordFault record removeClient
    refine Cmd.wp_ite (fun _ => ?_) (fun _ => trivial)
    simp only [Cmd.wp_bind, Cmd.wp_update, Cmd.wp_pure]
    refine ⟨(fun present => by cases present), fun _ => ?_⟩
    refine sane_gone rfl ?_ fun fine => by cases fine
    change queued + after.pushes ≤ 1
    rw [pushes]
    exact few
  refine Cmd.wp_onlyIf (fun _ => ?_) (fun none => ?_)
  · unfold inBatch
    rw [Cmd.wp_zoom]
    refine Cmd.wp_mono (executeBatch_spec service _ _ _ _) ?_ ?_
    · rintro _ after ⟨log, same, ran, executed, output⟩
      refine ⟨fun _ => ⟨_, ⟨rfl, parse.inside, turns, fun fine => ?_⟩, rfl⟩,
        fun gone => by cases gone⟩
      have ordered := (before fine).executed parse whole same ran
      rw [executed, output]
      exact ordered
    · intro thrown after _
      exact dropped thrown _ rfl
  · have nothing : ([] : List (Exchange Store)).map Exchange.command =
        parsed.client.batch.take parsed.count := by
      rw [not_not.mp none]
      rfl
    refine ⟨fun _ => ⟨parsed.client, ⟨here, parse.inside, turns, fun fine => ?_⟩, rfl⟩,
      fun gone => by cases gone⟩
    have ordered := (before fine).executed parse whole nothing fun _ inside =>
      absurd inside List.not_mem_nil
    simp only [List.map_nil, List.flatten_nil, List.append_nil] at ordered
    exact ordered

/-- `process_client` from the middle of a handler. -/
theorem processClient_spec (service : Service Store) (sendings : List Sending)
    (serving : Serving service queued client session) :
    (processClient service sendings).wp (fun _ after => Sane service queued after) (fun _ _ => True)
      session := by
  refine wp_withClient (fun absent => ?_) fun other here => ?_
  · rw [serving.entry] at absent
    cases absent
  cases serving.entry.symm.trans here
  have begun : ParsedFrom client.dropSent ⟨client.dropSent, 0, false, none⟩ [] :=
    ⟨rfl, .none _, serving.inside, Nat.zero_le _, rfl, nofun⟩
  rcases parseLoop_spec batchLimit begun with ⟨readings, parse, ended⟩
  generalize parseLoop batchLimit ⟨client.dropSent, 0, false, none⟩ = parsed at parse ended
  have before : session.peer.faulted = false -> Ordered service client.dropSent session.peer := by
    intro fine
    have ordered := serving.ordered fine
    exact ⟨ordered.stream, ordered.replies, ordered.genuine, Nat.zero_le _, ordered.ended,
      ordered.closing⟩
  have turns : queued + session.pushes =
      if parsed.client.processingQueued = true then 1 else 0 := by
    rw [parse.client]
    exact serving.turns
  unfold putClient
  simp only [Cmd.wp_bind, Cmd.wp_update]
  refine Cmd.wp_mono (runBatch_spec service rfl turns before parse rfl) ?_ (fun _ _ _ => trivial)
  rintro present later ⟨stays, leaves⟩
  refine Cmd.wp_onlyIf (fun there => ?_) (fun absent => leaves (Bool.eq_false_iff.mpr absent))
  rcases stays there with ⟨last, serving, unparsed⟩
  refine wp_withClient (fun absent => ?_) fun other here => ?_
  · rw [serving.entry] at absent
    cases absent
  cases serving.entry.symm.trans here
  refine finishProcessing_spec serving parsed.count parsed.failure sendings fun _ => ?_
  rcases ended with full | starved
  · exact Or.inl (full.trans (Nat.zero_add _))
  · refine Or.inr ?_
    unfold Starved
    rw [unparsed]
    exact starved

/-- What the loop of `read_client` has done to the client. -/
theorem receiveLoop_spec (receivings : List Receiving) : forall (client : ClientInfo),
    client.halfClosed = false ->
    exists flag, (receiveLoop receivings client).client =
        { client with
          buffer := client.buffer ++ (receiveLoop receivings client).bytes
          halfClosed := flag
          closeAfterWrite := client.closeAfterWrite || flag } := by
  induction receivings with
  | nil =>
      intro client open_
      refine ⟨false, ?_⟩
      rw [receiveLoop, List.append_nil, Bool.or_false, <- open_]
  | cons outcome rest ih =>
      intro client open_
      cases outcome with
      | data first more =>
          rw [receiveLoop]
          simp only
          split
          · exact ⟨false, by rw [Bool.or_false, <- open_]⟩
          · split
            · exact ⟨false, by rw [Bool.or_false, <- open_]⟩
            · rcases ih
                { client with buffer := client.buffer ++ (first :: more).take readChunkSize } open_
                with ⟨flag, same⟩
              refine ⟨flag, ?_⟩
              rw [same]
              simp only [List.append_assoc]
      | ended =>
          refine ⟨true, ?_⟩
          rw [receiveLoop, List.append_nil, Bool.or_true]
      | wouldBlock | failed =>
          refine ⟨false, ?_⟩
          rw [receiveLoop, List.append_nil, Bool.or_false, <- open_]

theorem readClient_spec (service : Service Store) (receivings : List Receiving)
    (sendings : List Sending) (sane : Sane service queued session) :
    (readClient service receivings sendings).wp (fun _ after => Sane service queued after)
      (fun _ _ => True) session := by
  refine wp_withClient (fun _ => sane) fun client here => ?_
  refine Cmd.wp_onlyIf (fun open_ => ?_) (fun _ => sane)
  have serving := sane.serving client here
  rcases receiveLoop_spec receivings client open_ with ⟨flag, same⟩
  generalize receiveLoop receivings client = received at same
  unfold record
  rw [Cmd.wp_bind, Cmd.wp_update]
  have inside : received.client.inputOffset ≤ received.client.buffer.length := by
    rw [same, List.length_append]
    exact Nat.le_add_right_of_le serving.inside
  have flagKept : received.client.processingQueued = client.processingQueued := by rw [same]
  cases received.stop with
  | failed =>
      unfold recordFault record removeClient
      simp only [Cmd.wp_bind, Cmd.wp_update]
      exact sane_gone rfl serving.few fun fine => by cases fine
  | tooLong =>
      unfold countInputDisconnect recordFault record
      simp only [Cmd.wp_bind, Cmd.wp_update]
      refine rejectInput_spec ?_ rfl flagKept _
      exact ⟨here, serving.inside, serving.turns, fun fine => by cases fine⟩
  | processed =>
      unfold putClient
      simp only [Cmd.wp_bind, Cmd.wp_update]
      refine processClient_spec service sendings ⟨rfl, inside, ?_, ?_⟩
      · rw [flagKept]
        exact serving.turns
      · intro fine
        have ordered := serving.ordered fine
        refine ⟨?_, ?_, ordered.genuine, ?_, rfl, ?_⟩
        · have unparsed : received.client.unparsed = client.unparsed ++ received.bytes := by
            unfold ClientInfo.unparsed
            rw [same]
            exact List.drop_append_of_le_length serving.inside
          rw [unparsed]
          exact requests_stable.takes_append ordered.stream received.bytes
        · rw [same]
          exact ordered.replies
        · rw [same]
          exact ordered.output
        · rw [same]
          change (client.closeAfterWrite || flag) = flag
          rw [ordered.closing, open_, Bool.false_or]

theorem takeTurn_spec (service : Service Store) (sendings : List Sending)
    (sane : Sane service (queued + 1) session) :
    (takeTurn service sendings).wp (fun _ after => Sane service queued after) (fun _ _ => True)
      session := by
  refine wp_withClient (fun absent => ?_) fun client here => ?_
  · rcases sane.gone absent with ⟨few, finished⟩
    refine ⟨?_, ?_, fun _ => ⟨by omega, finished⟩⟩
    · intro client here
      rw [absent] at here
      cases here
    · intro _ client here
      rw [absent] at here
      cases here
  have serving := sane.serving client here
  have turns := serving.turns
  unfold putClient
  rw [Cmd.wp_bind, Cmd.wp_update]
  refine processClient_spec service sendings ⟨rfl, serving.inside, ?_, ?_⟩
  · split at turns
    · change queued + session.pushes = 0
      omega
    · omega
  · intro fine
    have ordered := serving.ordered fine
    exact ⟨ordered.stream, ordered.replies, ordered.genuine, ordered.output, ordered.ended,
      ordered.closing⟩

theorem failClient_spec (sane : Sane service queued session) :
    (failClient : Handler Store Unit).wp (fun _ after => Sane service queued after) (fun _ _ => True)
      session := by
  unfold failClient recordFault record removeClient
  simp only [Cmd.wp_bind, Cmd.wp_update]
  exact sane_gone rfl sane.few fun fine => by cases fine

/-! ## Runs of the server -/

/-- The invariant reads the entry, the record and the turns of a connection. -/
theorem Sane.transfer {turns : Nat} {other : Session Store} (sane : Sane service queued session)
    (entry : other.client = session.client) (peer : other.peer = session.peer)
    (same : turns + other.pushes = queued + session.pushes) : Sane service turns other := by
  refine ⟨?_, ?_, ?_⟩
  · intro client here
    rw [entry] at here
    have serving := sane.serving client here
    refine ⟨entry.trans here, serving.inside, same.trans serving.turns, ?_⟩
    rw [peer]
    exact serving.ordered
  · rw [peer, entry]
    exact sane.settled
  · rw [peer, entry, same]
    exact sane.gone

def Orderly (service : Service Store) (state : State Store) : Prop :=
  forall id, Sane service (state.pending.count id) (state.session id)

theorem lookup_withEntry (id : ClientId) (entry : Option ClientInfo)
    (clients : Finmap (fun _ : ClientId => ClientInfo)) :
    (State.withEntry id entry clients).lookup id = entry := by
  cases entry with
  | none => exact Finmap.lookup_erase id clients
  | some client => exact Finmap.lookup_insert clients

theorem lookup_withEntry_of_ne {id other : ClientId} (differ : other ≠ id)
    (entry : Option ClientInfo) (clients : Finmap (fun _ : ClientId => ClientInfo)) :
    (State.withEntry id entry clients).lookup other = clients.lookup other := by
  cases entry with
  | none => exact Finmap.lookup_erase_ne differ
  | some client => exact Finmap.lookup_insert_of_ne clients differ

/-- A handler of one connection leaves the others as they are. -/
theorem onClient_spec {id : ClientId} {state : State Store} {handler : Handler Store Unit}
    (own : handler.wp (fun _ after => Sane service (state.pending.count id) after) (fun _ _ => True)
      (state.session id))
    (others : forall other, other ≠ id ->
      Sane service (state.pending.count other) (state.session other)) :
    (onClient id handler).wp (fun _ after => Orderly service after) (fun _ _ => True) state := by
  unfold onClient
  rw [Cmd.wp_zoom]
  refine Cmd.wp_mono own ?_ (fun _ _ _ => trivial)
  intro _ after sane other
  by_cases same : other = id
  · subst same
    refine sane.transfer (lookup_withEntry ..) (Function.update_self ..) ?_
    change (state.pending ++ List.replicate after.pushes other).count other + 0 = _
    rw [List.count_append, List.count_replicate_self]
    rfl
  · refine (others other same).transfer (lookup_withEntry_of_ne same ..)
      (Function.update_of_ne same ..) ?_
    change (state.pending ++ List.replicate after.pushes id).count other + 0 = _
    rw [List.count_append, List.count_replicate, if_neg (by simpa using Ne.symm same)]
    rfl

theorem popPending_spec (service : Service Store) (sendings : List Sending) {state : State Store}
    (orderly : Orderly service state) :
    (popPending service sendings).wp (fun _ after => Orderly service after)
      (fun _ _ => True) state := by
  unfold popPending
  rw [Cmd.wp_bind, Cmd.wp_read]
  cases waiting : state.pending with
  | nil => exact orderly
  | cons id rest =>
      simp only [Cmd.wp_bind, Cmd.wp_update]
      refine onClient_spec (takeTurn_spec service sendings ?_) fun other differ => ?_
      · refine (orderly id).transfer rfl rfl ?_
        rw [waiting, List.count_cons_self]
        rfl
      · refine (orderly other).transfer rfl rfl ?_
        rw [waiting, List.count_cons_of_ne (Ne.symm differ)]
        rfl

theorem acceptClient_orderly {state : State Store} (orderly : Orderly service state) {id : ClientId}
    (unused : id ∉ state.pending) : Orderly service (acceptClient id state) := by
  unfold acceptClient
  split
  · intro other
    by_cases same : other = id
    · subst same
      refine @Serving.sane _ _ _ ClientInfo.fresh _ ⟨Finmap.lookup_insert _, Nat.le_refl 0, ?_, ?_⟩ ?_
      · change state.pending.count other + 0 = 0
        rw [List.count_eq_zero_of_not_mem unused]
      · have peer : (State.session other { state with
            clients := state.clients.insert other ClientInfo.fresh
            peers := Function.update state.peers other Peer.fresh }).peer = Peer.fresh :=
          Function.update_self ..
        rw [peer]
        exact fun _ => ⟨.none [], rfl, nofun, Nat.le_refl 0, rfl, rfl⟩
      · intro _ _
        unfold Starved
        rw [unparsed_eq_nil.mpr (Nat.lt_irrefl 0), Decoder.drain_nil]
        rfl
    · exact (orderly other).transfer (Finmap.lookup_insert_of_ne _ same)
        (Function.update_of_ne same ..) rfl
  · exact orderly

/-- Every event keeps every connection in order: the one it is about by the
specification of its handler, the others because they are not touched. -/
theorem handleEvent_spec (service : Service Store) (event : Event Store) {state : State Store}
    (orderly : Orderly service state) (admissible : event.Admissible state) :
    (handleEvent service event).wp (fun _ after => Orderly service after)
      (fun _ _ => True) state := by
  cases event with
  | turn sendings => exact popPending_spec service sendings orderly
  | readable id receivings sendings =>
      exact onClient_spec (readClient_spec service receivings sendings (orderly id))
        fun other _ => orderly other
  | writable id sendings =>
      exact onClient_spec (flushClient_spec (orderly id) sendings) fun other _ => orderly other
  | failed id => exact onClient_spec (failClient_spec (orderly id)) fun other _ => orderly other
  | accepted id => exact acceptClient_orderly orderly admissible
  | elsewhere store => exact fun other => (orderly other).transfer rfl rfl rfl

theorem Reachable.orderly {service : Service Store} {state : State Store}
    (reachable : Reachable service state) : Orderly service state := by
  induction reachable with
  | start store =>
      intro id
      refine ⟨?_, ?_, fun _ => ⟨Nat.zero_le 1, fun _ => Or.inr rfl⟩⟩
      · intro client here
        cases here
      · intro _ client here
        cases here
  | handled _ event admissible returned orderly =>
      have kept := Cmd.of_wp_ok (handleEvent_spec service event orderly admissible) returned
      exact kept

/-- The record of a connection in order is one of runs of the service. -/
theorem Orderly.genuine {state : State Store} {id : ClientId} (orderly : Orderly service state)
    (fine : (state.peers id).faulted = false) (exchange : Exchange Store)
    (inside : exchange ∈ (state.peers id).executed) : exchange.Genuine service := by
  cases here : state.clients.lookup id with
  | some client => exact (((orderly id).serving client here).ordered fine).genuine exchange inside
  | none =>
      rcases ((orderly id).gone here).2 fine with finished | unknown
      · exact finished.genuine exchange inside
      · have fresh : state.peers id = Peer.fresh := unknown
        rw [fresh] at inside
        cases inside

/-- A service that answers every command with the same bytes. -/
def pong : Service Unit where
  executeInto := fun _ _ =>
    Cmd.zoom Prod.snd (fun output pair => (pair.1, output)) (Resp.append (ascii "+PONG\r\n"))
  beginBatch := pure ()
  endBatch := pure ()
  awaitCapacity := pure ()
  appends := fun _ _ _ _ => ⟨_, rfl⟩

def ping : Bytes := ascii "*1\r\n$4\r\nPING\r\n"

/-- Received bytes as the outcome of a call of `receive`. -/
def arriving : Bytes -> Receiving
  | [] => .wouldBlock
  | first :: rest => .data first rest

def after (service : Service Store) (events : List (Event Store)) (state : State Store) :
    State Store :=
  events.foldl (fun state event => (handleEvent service event state).2) state

/-- Every event may happen and its handler returns. -/
def runs (service : Service Store) : List (Event Store) -> State Store -> Bool
  | [], _ => true
  | event :: rest, state =>
      decide (event.Admissible state) && (handleEvent service event state).1.isOk &&
        runs service rest (handleEvent service event state).2

theorem Reachable.after {service : Service Store} (events : List (Event Store)) :
    forall {state : State Store}, Reachable service state -> runs service events state = true ->
      Reachable service (after service events state) := by
  induction events with
  | nil => exact fun reachable _ => reachable
  | cons event rest ih =>
      intro state reachable goes
      rw [runs, Bool.and_eq_true, Bool.and_eq_true, decide_eq_true_iff] at goes
      rcases goes with ⟨⟨admissible, returned⟩, goes⟩
      refine ih (reachable.handled event admissible ?_) goes
      rcases handled : handleEvent service event state with ⟨thrown | value, later⟩
      · rw [handled] at returned
        cases returned
      · simp only [handled]

end Server
end Reddish
