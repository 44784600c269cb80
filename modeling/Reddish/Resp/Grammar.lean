import Reddish.Resp.Agreement

namespace Reddish

open Library Numeral

namespace Resp

/-!
# The request grammar

The inputs the parser accepts are described by a grammar of their own, which
says nothing about how they are read.  The client writes requests of this
grammar, so the server reads back what the client was given.
-/

/-- Bulk strings with these contents, one behind the other. -/
inductive BulkStrings : List Bytes -> Bytes -> Prop where
  | nil : BulkStrings [] []
  | cons {digits value text : Bytes} {values : List Bytes}
      (spelled : parseDigits digits = some value.length) (bound : value.length < 2 ^ 64)
      (rest : BulkStrings values text) :
      BulkStrings (value :: values) (36 :: (digits ++ (crlf ++ (value ++ (crlf ++ text)))))

/-- An array header and as many bulk strings as it says, at least one. -/
inductive Request : List Bytes -> Bytes -> Prop where
  | array {digits strings : Bytes} {values : List Bytes} (nonempty : values ≠ [])
      (spelled : parseDigits digits = some values.length) (bound : values.length < 2 ^ 64)
      (contents : BulkStrings values strings) :
      Request values (42 :: (digits ++ (crlf ++ strings)))

/-! ## The parser reads the grammar -/

theorem cons_of_getD {input : Bytes} {byte : UInt8} (nonempty : input ≠ [])
    (first : input.getD 0 0 = byte) : input = byte :: input.drop 1 := by
  cases input with
  | nil => exact absurd rfl nonempty
  | cons head tail =>
      cases first
      rfl

theorem item_sound {input value rest : Bytes} (read : item input = .ok (value, rest)) :
    exists digits, parseDigits digits = some value.length ∧ value.length < 2 ^ 64 ∧
      input = 36 :: (digits ++ (crlf ++ (value ++ (crlf ++ rest)))) := by
  unfold item at read
  by_cases empty : input = []
  · rw [if_pos empty] at read
    cases read
  by_cases other : input.getD 0 0 ≠ 36
  · rw [if_neg empty, if_pos other] at read
    cases read
  rw [if_neg empty, if_neg other] at read
  rcases header : slowLength .invalidBulkStringLength (input.drop 1) with code | ⟨length, tail⟩
  · rw [header] at read
    cases read
  rw [header] at read
  simp only at read
  by_cases short : tail.length < length + 2
  · rw [if_pos short] at read
    cases read
  by_cases wrong : (tail.drop length).take 2 ≠ crlf
  · rw [if_neg short, if_pos wrong] at read
    cases read
  rw [if_neg short, if_neg wrong] at read
  cases read
  rcases slowLength_eq_ok.mp header with ⟨digits, spelled, bound, split⟩
  have taken : (tail.take length).length = length := List.length_take_of_le (by omega)
  have parts : tail = tail.take length ++ (crlf ++ tail.drop (length + 2)) := by
    rw [<- not_not.mp wrong, <- List.drop_drop, List.take_append_drop, List.take_append_drop]
  refine ⟨digits, by rw [taken]; exact spelled, by rw [taken]; exact bound, ?_⟩
  rw [<- parts, <- split]
  exact cons_of_getD empty (not_not.mp other)

theorem item_complete {digits value : Bytes} (spelled : parseDigits digits = some value.length)
    (bound : value.length < 2 ^ 64) (rest : Bytes) :
    item (36 :: (digits ++ (crlf ++ (value ++ (crlf ++ rest))))) = .ok (value, rest) := by
  have header : slowLength .invalidBulkStringLength
      (digits ++ (crlf ++ (value ++ (crlf ++ rest)))) =
        .ok (value.length, value ++ (crlf ++ rest)) :=
    slowLength_eq_ok.mpr ⟨digits, spelled, bound, rfl⟩
  rw [item, if_neg (List.cons_ne_nil _ _), if_neg (by simp), List.drop_one, List.tail_cons, header]
  simp only [List.length_append, List.drop_left]
  rw [if_neg (by simp only [crlf, List.length_cons, List.length_nil]; omega),
    if_neg (by simp [crlf]), List.take_left, <- List.drop_drop,
    List.drop_left]
  rfl

theorem items_sound {count : Nat} {input rest : Bytes} {values : List Bytes}
    (read : items count input = .ok (values, rest)) :
    values.length = count ∧ exists text, BulkStrings values text ∧ input = text ++ rest := by
  induction count generalizing input values with
  | zero =>
      cases read
      exact ⟨rfl, [], BulkStrings.nil, rfl⟩
  | succ count ih =>
      rw [items] at read
      rcases first : item input with code | ⟨value, tail⟩
      · rw [first] at read
        cases read
      rw [first] at read
      simp only at read
      rcases others : items count tail with code | ⟨more, last⟩
      · rw [others] at read
        cases read
      rw [others] at read
      cases read
      rcases item_sound first with ⟨digits, spelled, bound, rfl⟩
      rcases ih others with ⟨length, text, strings, rfl⟩
      refine ⟨congrArg Nat.succ length, _, BulkStrings.cons spelled bound strings, ?_⟩
      simp only [List.cons_append, List.append_assoc]

theorem items_complete {values : List Bytes} {text : Bytes} (strings : BulkStrings values text)
    (rest : Bytes) : items values.length (text ++ rest) = .ok (values, rest) := by
  induction strings with
  | nil => rfl
  | @cons digits value text values spelled bound _ ih =>
      have first := item_complete spelled bound (text ++ rest)
      simp only [List.cons_append, List.append_assoc, List.length_cons, items]
      rw [first]
      simp only [ih]

theorem request_complete {values : List Bytes} {text : Bytes} (valid : Request values text)
    (trailing : Bytes) : request (text ++ trailing) = .ok (values, text.length) := by
  rcases valid with ⟨nonempty, spelled, bound, contents⟩
  rename_i digits strings
  have header : slowLength .invalidRespArrayLength (digits ++ (crlf ++ (strings ++ trailing))) =
      .ok (values.length, strings ++ trailing) :=
    slowLength_eq_ok.mpr ⟨digits, spelled, bound, rfl⟩
  have positive : values.length ≠ 0 := fun zero => nonempty (List.length_eq_zero_iff.mp zero)
  have read := items_complete contents trailing
  simp only [request, List.cons_append, List.append_assoc, List.drop_one, List.tail_cons, header]
  rw [if_neg (List.cons_ne_nil _ _), if_neg (by simp), if_neg positive, read]
  refine congrArg (fun used => Except.ok (values, used)) ?_
  simp only [List.length_cons, List.length_append]
  omega

theorem request_sound {input : Bytes} {values : List Bytes} {used : Nat}
    (read : request input = .ok (values, used)) :
    exists text trailing, Request values text ∧ input = text ++ trailing ∧ used = text.length := by
  unfold request at read
  by_cases empty : input = []
  · rw [if_pos empty] at read
    cases read
  by_cases other : input.getD 0 0 ≠ 42
  · rw [if_neg empty, if_pos other] at read
    cases read
  rw [if_neg empty, if_neg other] at read
  rcases header : slowLength .invalidRespArrayLength (input.drop 1) with code | ⟨count, rest⟩
  · rw [header] at read
    cases read
  rw [header] at read
  simp only at read
  by_cases zero : count = 0
  · rw [if_pos zero] at read
    cases read
  rw [if_neg zero] at read
  rcases strings : items count rest with code | ⟨others, trailing⟩
  · rw [strings] at read
    cases read
  rw [strings] at read
  rcases Prod.mk.inj (Except.ok.inj read) with ⟨rfl, rfl⟩
  rcases slowLength_eq_ok.mp header with ⟨digits, spelled, bound, split⟩
  rcases items_sound strings with ⟨rfl, text, contents, rfl⟩
  have whole : input = 42 :: (digits ++ (crlf ++ text)) ++ trailing := by
    rw [cons_of_getD empty (not_not.mp other), split]
    simp only [List.cons_append, List.append_assoc]
  refine ⟨_, trailing, Request.array ?_ spelled bound contents, whole, ?_⟩
  · rintro rfl
    exact zero rfl
  · rw [whole, List.length_append, Nat.add_sub_cancel]

/-! ## The client's encoder -/

/-- The request that `Client::execute` sends. -/
def clientRequest (command : List Bytes) : Bytes :=
  command.foldl
    (fun request part => request ++ ([36] ++ decimal part.length ++ crlf ++ part ++ crlf))
    ([42] ++ decimal command.length ++ crlf)

/-- Every size fits into `std::size_t`. -/
def Addressable (command : List Bytes) : Prop :=
  command.length < 2 ^ 64 ∧ forall part, part ∈ command -> part.length < 2 ^ 64

theorem bulkStrings_foldl {command : List Bytes}
    (sizes : forall part, part ∈ command -> part.length < 2 ^ 64) (sofar : Bytes) :
    exists text, BulkStrings command text ∧
      command.foldl
        (fun request part => request ++ ([36] ++ decimal part.length ++ crlf ++ part ++ crlf))
        sofar = sofar ++ text := by
  induction command generalizing sofar with
  | nil => exact ⟨[], BulkStrings.nil, (List.append_nil _).symm⟩
  | cons part parts ih =>
      rcases ih (fun other member => sizes other (List.mem_cons_of_mem _ member))
          (sofar ++ ([36] ++ decimal part.length ++ crlf ++ part ++ crlf)) with
        ⟨text, contents, folded⟩
      refine ⟨_, BulkStrings.cons (parseDigits_decimal part.length)
        (sizes part List.mem_cons_self) contents, ?_⟩
      rw [List.foldl_cons, folded]
      simp only [List.append_assoc, List.cons_append, List.nil_append]

theorem request_clientRequest {command : List Bytes} (nonempty : command ≠ [])
    (sizes : Addressable command) : Request command (clientRequest command) := by
  rcases bulkStrings_foldl sizes.2 ([42] ++ decimal command.length ++ crlf) with
    ⟨text, contents, folded⟩
  have whole : clientRequest command = 42 :: (decimal command.length ++ (crlf ++ text)) := by
    rw [clientRequest, folded]
    simp only [List.append_assoc, List.cons_append, List.nil_append]
  rw [whole]
  exact Request.array nonempty (parseDigits_decimal _) sizes.1 contents

/-! ## What `parse_command` returns -/

theorem parseCommand_ok_iff {input : Bytes} {command : Command} :
    parseCommand input = .ok command <->
      parseCommandInto input Command.fresh = (.ok (), command) := by
  unfold parseCommand
  rcases parseCommandInto input Command.fresh with ⟨code | value, later⟩
  · simp
  · simp

theorem Request.values_ne_nil {values : List Bytes} {text : Bytes}
    (valid : Request values text) : values ≠ [] := by
  rcases valid with ⟨nonempty, _, _, _⟩
  exact nonempty

/-- The strings of a request, read off the command. -/
theorem Command.Holds.strings_eq {command : Command} {values : List Bytes}
    (holds : command.Holds values) (nonempty : values ≠ []) :
    command.name :: command.arguments.range = values := by
  rw [holds.name_eq, holds.arguments_eq.range_eq]
  cases values with
  | nil => exact absurd rfl nonempty
  | cons head tail => rfl

/-- An input that means a request is parsed. -/
theorem parseCommand_of_request {values : List Bytes} {text : Bytes} (valid : Request values text)
    (trailing : Bytes) :
    exists command, parseCommand (text ++ trailing) = .ok command ∧
      command.name :: command.arguments.range = values ∧ command.bytesConsumed = text.length := by
  have meaning := request_complete valid trailing
  have spec := outcome_of_spec (parseCommandInto_spec (text ++ trailing) Command.fresh)
  rw [meaning] at spec
  rcases spec.2 spec.1 with ⟨others, same, holds⟩
  rw [meaning] at same
  rcases Prod.mk.inj (Except.ok.inj same) with ⟨rfl, used⟩
  refine ⟨_, parseCommand_ok_iff.mpr (Prod.ext spec.1 rfl), ?_, used.symm⟩
  exact holds.strings_eq valid.values_ne_nil

/-- `parse_command` succeeds on exactly the inputs that start with a request,
and returns its strings and its length; in particular it returns what the
client was given, whatever follows the client's request. -/
theorem parseCommand_iff_request (input : Bytes) :
    ((exists command, parseCommand input = .ok command) <->
      exists values text, Request values text ∧ text <+: input) ∧
    (forall command values text, parseCommand input = .ok command -> Request values text ->
      text <+: input -> command.name :: command.arguments.range = values ∧
        command.bytesConsumed = text.length) ∧
    (forall parts trailing, parts ≠ [] -> Addressable parts ->
      input = clientRequest parts ++ trailing ->
      exists command, parseCommand input = .ok command ∧
        command.name :: command.arguments.range = parts ∧
        command.bytesConsumed = (clientRequest parts).length) := by
  refine ⟨⟨?_, ?_⟩, ?_, ?_⟩
  · rintro ⟨command, returned⟩
    have outcome := parseCommand_ok_iff.mp returned
    have spec := (outcome_of_spec (parseCommandInto_spec input Command.fresh)).2
    rw [outcome] at spec
    rcases spec rfl with ⟨values, meaning, _⟩
    rcases request_sound meaning with ⟨text, trailing, valid, split, _⟩
    exact ⟨values, text, valid, trailing, split.symm⟩
  · rintro ⟨values, text, valid, trailing, rfl⟩
    rcases parseCommand_of_request valid trailing with ⟨command, returned, _⟩
    exact ⟨command, returned⟩
  · rintro command values text returned valid ⟨trailing, rfl⟩
    rcases parseCommand_of_request valid trailing with ⟨other, same, strings, used⟩
    rw [returned] at same
    cases same
    exact ⟨strings, used⟩
  · rintro parts trailing nonempty sizes rfl
    exact parseCommand_of_request (request_clientRequest nonempty sizes) trailing

/-- A `GET` with an empty key, sent by the client and followed by one byte. -/
theorem parseCommand_clientRequest_get :
    exists command,
      parseCommand (clientRequest [ascii "GET", []] ++ [42]) = .ok command ∧
        command.name :: command.arguments.range = [ascii "GET", []] ∧
        command.bytesConsumed = (clientRequest [ascii "GET", []]).length := by
  have sizes : Addressable [ascii "GET", []] := by
    refine ⟨by decide, fun part member => ?_⟩
    rcases List.mem_cons.mp member with rfl | member
    · decide
    · rw [List.mem_singleton.mp member]
      decide
  exact (parseCommand_iff_request _).2.2 [ascii "GET", []] [42] (by simp) sizes rfl

end Resp
end Reddish
