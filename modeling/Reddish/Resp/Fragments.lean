import Reddish.Library.Stream
import Reddish.Resp.Grammar

namespace Reddish

open Library Numeral

namespace Resp

/-!
# Requests that arrive in pieces

The server appends what it receives to a buffer and parses requests from its
front until the parser asks for more input.  What more input can change is
only an answer that asked for it, so the requests do not depend on how the
network cut the stream.
-/

def isIncompleteRespError (code : ErrorCode) : Bool :=
  code = .missingCrlf ∨ code = .missingBulkStringPrefix ∨ code = .incompleteBulkStringData

/-! ## What more input does not change -/

theorem slowLength_ok_more {code : ErrorCode} {input rest : Bytes} {value : Nat}
    (read : slowLength code input = .ok (value, rest)) (more : Bytes) :
    slowLength code (input ++ more) = .ok (value, rest ++ more) := by
  rcases slowLength_eq_ok.mp read with ⟨text, spelled, bound, rfl⟩
  refine slowLength_eq_ok.mpr ⟨text, spelled, bound, ?_⟩
  simp only [List.append_assoc]

theorem slowLength_error_more {code thrown : ErrorCode} {input : Bytes}
    (read : slowLength code input = .error thrown)
    (final : isIncompleteRespError thrown = false) (more : Bytes) :
    slowLength code (input ++ more) = .error thrown := by
  rcases found : findCrlf input with _ | size
  · rw [slowLength_missing found] at read
    cases read
    cases final
  · have inside : size ≤ input.length := by
      have lengths := congrArg List.length (findCrlf_split found)
      simp only [List.length_append, List.length_take, crlf, List.length_cons] at lengths
      omega
    rw [slowLength_found found] at read
    rw [slowLength_found (findCrlf_more found more), List.take_append_of_le_length inside]
    rcases number : parseNumber (input.take size) code with other | value
    · rw [number] at read
      exact read
    · rw [number] at read
      cases read

theorem getD_more {input : Bytes} (nonempty : input ≠ []) (more : Bytes) :
    (input ++ more).getD 0 0 = input.getD 0 0 := by
  cases input with
  | nil => exact absurd rfl nonempty
  | cons head tail => rfl

theorem drop_one_more {input : Bytes} (nonempty : input ≠ []) (more : Bytes) :
    (input ++ more).drop 1 = input.drop 1 ++ more := by
  cases input with
  | nil => exact absurd rfl nonempty
  | cons head tail => rfl

theorem append_ne_nil {input : Bytes} (nonempty : input ≠ []) (more : Bytes) :
    input ++ more ≠ [] :=
  fun empty => nonempty (List.append_eq_nil_iff.mp empty).1

theorem item_ok_more {input value rest : Bytes} (read : item input = .ok (value, rest))
    (more : Bytes) : item (input ++ more) = .ok (value, rest ++ more) := by
  rcases item_sound read with ⟨digits, spelled, bound, rfl⟩
  have whole := item_complete spelled bound (rest ++ more)
  simpa only [List.cons_append, List.append_assoc] using whole

theorem item_error_more {input : Bytes} {code : ErrorCode} (read : item input = .error code)
    (final : isIncompleteRespError code = false) (more : Bytes) :
    item (input ++ more) = .error code := by
  unfold item at read ⊢
  by_cases empty : input = []
  · rw [if_pos empty] at read
    cases read
    cases final
  rw [if_neg empty] at read
  rw [if_neg (append_ne_nil empty more), getD_more empty, drop_one_more empty]
  by_cases other : input.getD 0 0 ≠ 36
  · rw [if_pos other] at read ⊢
    exact read
  rw [if_neg other] at read ⊢
  rcases header : slowLength .invalidBulkStringLength (input.drop 1) with thrown | ⟨length, rest⟩
  · rw [header] at read
    cases read
    rw [slowLength_error_more header final]
  rw [header] at read
  rw [slowLength_ok_more header]
  simp only at read ⊢
  by_cases short : rest.length < length + 2
  · rw [if_pos short] at read
    cases read
    cases final
  rw [if_neg short] at read
  rw [if_neg (by rw [List.length_append]; omega),
    List.drop_append_of_le_length (by omega),
    List.take_append_of_le_length (by rw [List.length_drop]; omega)]
  by_cases wrong : (rest.drop length).take 2 ≠ crlf
  · rw [if_pos wrong] at read ⊢
    exact read
  · rw [if_neg wrong] at read
    cases read

theorem items_error_more {count : Nat} {input : Bytes} {code : ErrorCode}
    (read : items count input = .error code) (final : isIncompleteRespError code = false)
    (more : Bytes) : items count (input ++ more) = .error code := by
  induction count generalizing input with
  | zero => cases read
  | succ count ih =>
      rw [items] at read ⊢
      rcases first : item input with thrown | ⟨value, rest⟩
      · rw [first] at read
        cases read
        rw [item_error_more first final]
      rw [first] at read
      rw [item_ok_more first]
      simp only at read ⊢
      rcases others : items count rest with thrown | ⟨values, last⟩
      · rw [others] at read
        cases read
        rw [ih others]
      · rw [others] at read
        cases read

theorem request_error_more {input : Bytes} {code : ErrorCode} (read : request input = .error code)
    (nonempty : input ≠ []) (final : isIncompleteRespError code = false) (more : Bytes) :
    request (input ++ more) = .error code := by
  unfold request at read ⊢
  rw [if_neg nonempty] at read
  rw [if_neg (append_ne_nil nonempty more), getD_more nonempty, drop_one_more nonempty]
  by_cases other : input.getD 0 0 ≠ 42
  · rw [if_pos other] at read ⊢
    exact read
  rw [if_neg other] at read ⊢
  rcases header : slowLength .invalidRespArrayLength (input.drop 1) with thrown | ⟨count, rest⟩
  · rw [header] at read
    cases read
    rw [slowLength_error_more header final]
  rw [header] at read
  rw [slowLength_ok_more header]
  simp only at read ⊢
  by_cases zero : count = 0
  · rw [if_pos zero] at read ⊢
    exact read
  rw [if_neg zero] at read ⊢
  rcases strings : items count rest with thrown | ⟨values, last⟩
  · rw [strings] at read
    cases read
    rw [items_error_more strings final]
  · rw [strings] at read
    cases read

theorem request_ok_more {input : Bytes} {values : List Bytes} {used : Nat}
    (read : request input = .ok (values, used)) (more : Bytes) :
    request (input ++ more) = .ok (values, used) := by
  rcases request_sound read with ⟨text, trailing, valid, rfl, rfl⟩
  rw [List.append_assoc]
  exact request_complete valid (trailing ++ more)

/-! ## The decoder of requests -/

/-- What is read off a parsed command: its name, its arguments and the number
of bytes it took. -/
abbrev Reading := Bytes × List Bytes × Nat

def reading : List Bytes × Nat -> Reading × Nat
  | (values, used) => ((values.headD [], values.tail, used), used)

theorem used_pos {input : Bytes} {values : List Bytes} {used : Nat}
    (read : request input = .ok (values, used)) : 0 < used ∧ used ≤ input.length := by
  rcases request_sound read with ⟨text, trailing, valid, rfl, rfl⟩
  rcases valid with ⟨_, _, _, _⟩
  rw [List.length_append, List.length_cons]
  omega

theorem map_reading_ok {input : Bytes} {item : Reading} {used : Nat}
    (decoded : (request input).map reading = .ok (item, used)) :
    exists values, request input = .ok (values, used) ∧
      item = (values.headD [], values.tail, used) := by
  rcases read : request input with code | ⟨values, size⟩
  · rw [read] at decoded
    cases decoded
  · rw [read] at decoded
    cases decoded
    exact ⟨values, rfl, rfl⟩

def requests : Decoder UInt8 Reading ErrorCode where
  decode := fun input => (request input).map reading
  incomplete := isIncompleteRespError
  progress := by
    intro input item used decoded
    rcases map_reading_ok decoded with ⟨values, read, _⟩
    exact (used_pos read).1

theorem requests_stable : requests.Stable where
  used_le := by
    intro input item used decoded
    rcases map_reading_ok decoded with ⟨values, read, _⟩
    exact (used_pos read).2
  ok_append := by
    intro input item used decoded more
    rcases map_reading_ok decoded with ⟨values, read, rfl⟩
    change (request (input ++ more)).map reading = _
    rw [request_ok_more read]
    rfl
  error_append := by
    intro input code decoded nonempty final more
    rcases read : request input with thrown | result
    · change (request input).map reading = _ at decoded
      rw [read] at decoded
      cases decoded
      change (request (input ++ more)).map reading = _
      rw [request_error_more read nonempty final]
      rfl
    · change (request input).map reading = _ at decoded
      rw [read] at decoded
      cases decoded

/-! ## Draining with a reused command -/

def Command.reading (command : Command) : Reading :=
  (command.name, command.arguments.range, command.bytesConsumed)

/-- A run of the parser is a step of the decoder, whatever the command held. -/
theorem parseCommandInto_decode (input : Bytes) (slot : Command) :
    requests.decode input = (parseCommandInto input slot).1.map (fun _ =>
      ((parseCommandInto input slot).2.reading, (parseCommandInto input slot).2.bytesConsumed)) := by
  have spec := parseCommandInto_spec input slot
  unfold Cmd.wp at spec
  change (request input).map Resp.reading = _
  rcases outcome : parseCommandInto input slot with ⟨code | value, later⟩
  · rw [outcome] at spec
    rw [show request input = .error code from spec]
    rfl
  · rw [outcome] at spec
    rcases spec with ⟨values, meaning, holds⟩
    rw [meaning]
    simp only [Except.map, Resp.reading, Command.reading, holds.name_eq,
      holds.arguments_eq.range_eq]

theorem bytesConsumed_pos {input : Bytes} {slot later : Command}
    (outcome : parseCommandInto input slot = (.ok (), later)) : 0 < later.bytesConsumed := by
  have decoded := parseCommandInto_decode input slot
  rw [outcome] at decoded
  exact requests.progress decoded

/-- The parse loop of `process_client` without its batch limit: commands are
parsed from the front of the input, one after the other, into a command that
is used again each time. -/
def drainInto (input : Bytes) (slot : Command) :
    Decoder.Drained UInt8 Reading ErrorCode × Command :=
  if _ : input = [] then (.stop [] none, slot)
  else
    match _ : parseCommandInto input slot with
    | (.ok _, later) =>
        let rest := drainInto (input.drop later.bytesConsumed) later
        (rest.1.push later.reading later.bytesConsumed, rest.2)
    | (.error code, later) =>
        (.stop input (if isIncompleteRespError code then none else some code), later)
termination_by input.length
decreasing_by
  have positive := bytesConsumed_pos ‹_›
  have length := List.length_pos_iff.mpr ‹¬ input = []›
  rw [List.length_drop]
  omega

/-- Append a chunk to what is unread and parse on, unless an error ended it. -/
def feedInto (sofar : Decoder.Drained UInt8 Reading ErrorCode × Command) (chunk : Bytes) :
    Decoder.Drained UInt8 Reading ErrorCode × Command :=
  if sofar.1.failure.isSome then sofar
  else
    let rest := drainInto (sofar.1.unread ++ chunk) sofar.2
    (sofar.1.append rest.1, rest.2)

/-- What the command held before does not matter. -/
theorem drainInto_eq (input : Bytes) (slot : Command) :
    (drainInto input slot).1 = requests.drain input := by
  induction size : input.length using Nat.strong_induction_on generalizing input slot with
  | _ size ih =>
      subst size
      rw [drainInto]
      by_cases empty : input = []
      · rw [dif_pos empty, empty, Decoder.drain_nil]
      · rw [dif_neg empty]
        have decoded := parseCommandInto_decode input slot
        split
        · next value later outcome =>
            rw [outcome] at decoded
            rw [Decoder.drain_ok empty decoded]
            have smaller := Decoder.length_drop_lt empty decoded
            have rest := ih _ smaller (input.drop later.bytesConsumed) later rfl
            simp only [rest]
        · next code later outcome =>
            rw [outcome] at decoded
            rw [Decoder.drain_error empty decoded]
            rfl

theorem foldl_feedInto_eq (chunks : List Bytes)
    (sofar : Decoder.Drained UInt8 Reading ErrorCode) (slot : Command) :
    (chunks.foldl feedInto (sofar, slot)).1 = chunks.foldl requests.feed sofar := by
  induction chunks generalizing sofar slot with
  | nil => rfl
  | cons chunk chunks ih =>
      rw [List.foldl_cons, List.foldl_cons]
      by_cases failed : sofar.failure.isSome = true
      · rw [feedInto, if_pos failed, Decoder.feed, if_pos failed]
        exact ih sofar slot
      · rw [feedInto, if_neg failed, Decoder.feed, if_neg failed, ih,
          drainInto_eq]

theorem decode_of_ok {input : Bytes} {slot : Command}
    (returned : (parseCommandInto input slot).1 = .ok ()) :
    requests.decode input = .ok ((parseCommandInto input slot).2.reading,
      (parseCommandInto input slot).2.bytesConsumed) := by
  rw [parseCommandInto_decode input slot, returned]
  rfl

theorem decode_of_error {input : Bytes} {slot : Command} {code : ErrorCode}
    (returned : (parseCommandInto input slot).1 = .error code) :
    requests.decode input = .error code := by
  rw [parseCommandInto_decode input slot, returned]
  rfl

theorem error_of_decode {input : Bytes} {code : ErrorCode}
    (decoded : requests.decode input = .error code) (slot : Command) :
    (parseCommandInto input slot).1 = .error code := by
  rw [parseCommandInto_decode input slot] at decoded
  cases outcome : (parseCommandInto input slot).1 with
  | error thrown =>
      rw [outcome] at decoded
      cases decoded
      rfl
  | ok value =>
      rw [outcome] at decoded
      cases decoded

/-- Parsing does not depend on how the stream was cut: draining chunk by chunk
gives the commands, the offset and the error of draining the whole stream.
Every proper part of a request that is not empty asks for more input, a parsed
command stays what it is when more follows, and so does a final error, except
that of an empty input. -/
theorem parse_fragments :
    (forall (chunks : List Bytes) (slot other : Command),
      (drainInto chunks.flatten slot).1.Agrees
        (chunks.foldl feedInto (Decoder.Drained.stop [] none, other)).1) ∧
    (forall (part more : Bytes) (slot other : Command),
      (parseCommandInto (part ++ more) slot).1 = .ok () ->
      (parseCommandInto (part ++ more) slot).2.bytesConsumed = (part ++ more).length ->
      part ≠ [] -> more ≠ [] ->
      exists code, (parseCommandInto part other).1 = .error code ∧
        isIncompleteRespError code = true) ∧
    (forall (input more : Bytes) (slot other : Command),
      (parseCommandInto input slot).1 = .ok () ->
      (parseCommandInto (input ++ more) other).1 = .ok () ∧
        (parseCommandInto (input ++ more) other).2.reading =
          (parseCommandInto input slot).2.reading) ∧
    (forall (input more : Bytes) (slot other : Command) (code : ErrorCode), input ≠ [] ->
      (parseCommandInto input slot).1 = .error code -> isIncompleteRespError code = false ->
      (parseCommandInto (input ++ more) other).1 = .error code) := by
  refine ⟨?_, ?_, ?_, ?_⟩
  · intro chunks slot other
    have drained := requests_stable.foldl_feed [] chunks
    rw [List.nil_append, Decoder.drain_nil] at drained
    rw [drainInto_eq, foldl_feedInto_eq]
    exact drained
  · intro part more slot other returned whole nonempty proper
    have decoded := decode_of_ok returned
    rw [whole] at decoded
    rcases requests_stable.incomplete_of_prefix decoded nonempty proper with ⟨code, asked, more⟩
    exact ⟨code, error_of_decode asked other, more⟩
  · intro input more slot other returned
    have longer := requests_stable.ok_append (decode_of_ok returned) more
    cases outcome : (parseCommandInto (input ++ more) other).1 with
    | error code =>
        rw [decode_of_error outcome] at longer
        cases longer
    | ok value =>
        rw [decode_of_ok outcome] at longer
        exact ⟨rfl, (Prod.mk.inj (Except.ok.inj longer)).1⟩
  · intro input more slot other code nonempty returned final
    have longer := requests_stable.error_append (decode_of_error returned) nonempty final more
    exact error_of_decode longer other

/-- A cut inside the name of a `PING`. -/
theorem parse_fragments_ping :
    exists code, (parseCommandInto (ascii "*1\r\n$4\r\nPI") overflowed).1 = .error code ∧
      isIncompleteRespError code = true :=
  parse_fragments.2.1 (ascii "*1\r\n$4\r\nPI") (ascii "NG\r\n") Command.fresh overflowed
    (by decide) (by decide) (by decide) (by decide)

/-- The error of an empty input is not one that asks for more, and yet more
input changes it. -/
theorem parse_empty_more :
    (parseCommandInto [] Command.fresh).1 = .error .emptyRespInput ∧
      isIncompleteRespError .emptyRespInput = false ∧
      (parseCommandInto ([] ++ ascii "*1\r\n$4\r\nPING\r\n") Command.fresh).1 = .ok () := by
  decide

end Resp
end Reddish
