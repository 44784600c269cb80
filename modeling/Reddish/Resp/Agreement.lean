import Reddish.Resp.Parser

namespace Reddish

open Library Numeral

namespace Resp

/-!
# The two parsers agree

What a request means is written down once, as a function from bytes to the
strings of the request and the number of bytes it takes.  Both parsers are
shown to compute it, whatever the command they write into held before.
-/

/-! ## What an argument list holds -/

/-- The list stands for these values, in the array that its size selects. -/
structure ArgumentList.Holds (list : ArgumentList) (values : List Bytes) : Prop where
  size_eq : list.size = values.length
  inlined_eq : list.size ≤ inlineCapacity -> list.inlined.toList.take list.size = values
  overflow_eq : inlineCapacity < list.size -> list.overflow = values

namespace ArgumentList

theorem holds_clear (list : ArgumentList) : list.clear.Holds [] where
  size_eq := rfl
  inlined_eq := fun _ => List.take_zero
  overflow_eq := fun large => absurd large (Nat.not_lt_zero _)

theorem length_inlined (list : ArgumentList) : list.inlined.toList.length = inlineCapacity :=
  Vector.length_toList

theorem Holds.pushBack {list : ArgumentList} {values : List Bytes} (holds : list.Holds values)
    (value : Bytes) : (list.pushBack value).Holds (values ++ [value]) := by
  have length := list.length_inlined
  unfold ArgumentList.pushBack
  by_cases inside : list.size < inlineCapacity
  · rw [dif_pos inside]
    refine ⟨?_, fun _ => ?_, fun large => ?_⟩
    · rw [List.length_append, <- holds.size_eq]
      rfl
    · change (list.inlined.set list.size value inside).toList.take (list.size + 1) = _
      rw [Vector.toList_set, List.take_succ_eq_append_getElem (by rw [List.length_set]; omega),
        List.take_set_of_le (Nat.le_refl _), holds.inlined_eq (Nat.le_of_lt inside),
        List.getElem_set_self]
    · exact absurd large (Nat.not_lt.mpr inside)
  · rw [dif_neg inside]
    refine ⟨?_, fun small => ?_, fun _ => ?_⟩
    · rw [List.length_append, <- holds.size_eq]
      rfl
    · exact absurd (show list.size + 1 ≤ inlineCapacity from small) inside
    · by_cases full : list.size = inlineCapacity
      · have all : list.inlined.toList.take list.size = list.inlined.toList := by
          rw [List.take_of_length_le]
          omega
        change (if list.size = inlineCapacity then _ else _) ++ [value] = _
        rw [if_pos full, <- all, holds.inlined_eq (Nat.le_of_eq full)]
      · change (if list.size = inlineCapacity then _ else _) ++ [value] = _
        rw [if_neg full, holds.overflow_eq (by omega)]

theorem Holds.range_eq {list : ArgumentList} {values : List Bytes} (holds : list.Holds values) :
    list.range = values := by
  unfold range data
  by_cases small : list.size ≤ inlineCapacity
  · rw [if_pos small, holds.inlined_eq small]
  · rw [if_neg small, holds.overflow_eq (Nat.lt_of_not_le small), holds.size_eq,
      List.take_length]

theorem Holds.get_eq {list : ArgumentList} {values : List Bytes} (holds : list.Holds values)
    {index : Nat} (inside : index < list.size) : list.get index = values.getD index [] := by
  rw [<- holds.range_eq]
  unfold get range
  rw [List.getD_eq_getElem?_getD, List.getD_eq_getElem?_getD, List.getElem?_take_of_lt inside]

end ArgumentList

/-- The command stands for the strings of a request read so far. -/
structure Command.Holds (command : Command) (values : List Bytes) : Prop where
  name_eq : command.name = values.headD []
  arguments_eq : command.arguments.Holds values.tail

namespace Command

theorem holds_reset (command : Command) : command.reset.Holds [] where
  name_eq := rfl
  arguments_eq := ArgumentList.holds_clear _

theorem Holds.store {command : Command} {values : List Bytes} (holds : command.Holds values)
    (value : Bytes) : (command.store values.length value).Holds (values ++ [value]) := by
  unfold Command.store
  cases values with
  | nil => exact ⟨rfl, holds.arguments_eq⟩
  | cons head tail =>
      rw [if_neg (by simp)]
      exact ⟨holds.name_eq, holds.arguments_eq.pushBack value⟩

end Command

/-! ## Numeric headers -/

/-- The input starts with decimal digits and a line end. -/
def Header (input : Bytes) (value : Nat) (rest : Bytes) : Prop :=
  exists text, parseDigits text = some value ∧ value < 2 ^ 64 ∧ input = text ++ (crlf ++ rest)

/-- The unsigned difference singles out the digits. -/
theorem digitValue_eq (byte : UInt8) :
    digitValue byte = if digit byte > 9 then none else some (digit byte) := by
  have small := byte.toNat_lt
  unfold digitValue digit sub32
  by_cases isDigit : 48 ≤ byte.toNat ∧ byte.toNat ≤ 57
  · rw [if_pos isDigit, if_neg (by omega)]
    exact congrArg some (by omega)
  · rw [if_neg isDigit, if_pos (by omega)]

theorem digitsFrom_cons {byte : UInt8} {rest : Bytes} {sofar value : Nat} :
    digitsFrom sofar (byte :: rest) = some value <->
      digit byte ≤ 9 ∧ digitsFrom (sofar * 10 + digit byte) rest = some value := by
  rw [digitsFrom, digitValue_eq]
  by_cases large : digit byte > 9
  · rw [if_pos large]
    constructor
    · intro read
      cases read
    · intro read
      omega
  · rw [if_neg large]
    exact ⟨fun read => ⟨by omega, read⟩, fun read => read.2⟩

theorem le_of_digitsFrom {text : Bytes} {sofar value : Nat}
    (read : digitsFrom sofar text = some value) : sofar ≤ value := by
  induction text generalizing sofar with
  | nil =>
      cases read
      exact Nat.le_refl _
  | cons head tail ih =>
      have later := ih (digitsFrom_cons.mp read).2
      omega

theorem digit_of_mem {text : Bytes} {sofar value : Nat}
    (read : digitsFrom sofar text = some value) {byte : UInt8} (member : byte ∈ text) :
    digit byte ≤ 9 := by
  induction text generalizing sofar with
  | nil => cases member
  | cons head tail ih =>
      have parts := digitsFrom_cons.mp read
      rcases List.mem_cons.mp member with same | later
      · rw [same]
        exact parts.1
      · exact ih parts.2 later

/-- The loop stops behind the digits, whose value fits into 64 bits. -/
theorem lengthLoop_sound {input position : Bytes} {sofar value : Nat} (small : sofar < 2 ^ 64)
    (read : lengthLoop sofar input = some (value, position)) :
    exists text, input = text ++ position ∧ digitsFrom sofar text = some value ∧
      value < 2 ^ 64 := by
  induction input generalizing sofar with
  | nil =>
      cases read
      exact ⟨[], rfl, rfl, small⟩
  | cons byte rest ih =>
      rw [lengthLoop] at read
      by_cases other : digit byte > 9
      · rw [if_pos other] at read
        cases read
        exact ⟨[], rfl, rfl, small⟩
      · rw [if_neg other] at read
        by_cases overflow : sofar > (2 ^ 64 - 1 - digit byte) / 10
        · rw [if_pos overflow] at read
          cases read
        · rw [if_neg overflow] at read
          rcases ih (by omega) read with ⟨text, split, digits, bound⟩
          exact ⟨byte :: text, by rw [split, List.cons_append],
            digitsFrom_cons.mpr ⟨by omega, digits⟩, bound⟩

/-- The loop reads every text of digits whose value fits into 64 bits. -/
theorem lengthLoop_complete {text : Bytes} {sofar value : Nat}
    (digits : digitsFrom sofar text = some value) (bound : value < 2 ^ 64) (rest : Bytes) :
    lengthLoop sofar (text ++ (crlf ++ rest)) = some (value, crlf ++ rest) := by
  induction text generalizing sofar with
  | nil =>
      cases digits
      change lengthLoop _ (13 :: 10 :: rest) = some (_, 13 :: 10 :: rest)
      rw [lengthLoop, if_pos (by decide)]
  | cons byte tail ih =>
      have parts := digitsFrom_cons.mp digits
      have grows := le_of_digitsFrom parts.2
      rw [List.cons_append, lengthLoop, if_neg (by omega), if_neg (by omega)]
      exact ih parts.2

theorem parseDigits_eq_some {text : Bytes} {value : Nat} :
    parseDigits text = some value <-> text ≠ [] ∧ digitsFrom 0 text = some value := by
  cases text with
  | nil => simp [parseDigits]
  | cons byte rest => exact ⟨fun read => ⟨List.cons_ne_nil _ _, read⟩, fun read => read.2⟩

theorem crlf_of_getD {cursor : Bytes} (long : 2 ≤ cursor.length) (first : cursor.getD 0 0 = 13)
    (second : cursor.getD 1 0 = 10) : cursor = crlf ++ cursor.drop 2 := by
  rcases cursor with _ | ⟨a, _ | ⟨b, rest⟩⟩
  · cases long
  · simp at long
  · cases first
    cases second
    rfl

theorem readLength_sound {cursor rest : Bytes} {value : Nat}
    (read : readLength cursor = some (value, rest)) : Header cursor value rest := by
  unfold readLength at read
  by_cases short : cursor.length < 3
  · rw [if_pos short] at read
    cases read
  rcases cursor with _ | ⟨a, _ | ⟨b, _ | ⟨c, tail⟩⟩⟩
  · simp at short
  · simp at short
  · simp at short
  simp only [if_neg short, List.getD_cons_zero, List.getD_cons_succ, List.drop_succ_cons,
    List.drop_zero] at read
  by_cases firstOther : digit a > 9
  · rw [if_pos firstOther] at read
    cases read
  rw [if_neg firstOther] at read
  by_cases firstEnd : b = 13 ∧ c = 10
  · rw [if_pos firstEnd] at read
    rcases Prod.mk.inj (Option.some.inj read) with ⟨rfl, rfl⟩
    rcases firstEnd with ⟨rfl, rfl⟩
    refine ⟨[a], ?_, by omega, rfl⟩
    exact parseDigits_eq_some.mpr ⟨List.cons_ne_nil _ _,
      digitsFrom_cons.mpr ⟨by omega, by rw [Nat.zero_mul, Nat.zero_add]; rfl⟩⟩
  rw [if_neg firstEnd] at read
  by_cases four : (a :: b :: c :: tail).length < 4
  · rw [if_pos four] at read
    cases read
  rcases tail with _ | ⟨d, tail⟩
  · simp at four
  rw [if_neg four] at read
  by_cases secondOther : digit b > 9
  · rw [if_pos secondOther] at read
    cases read
  simp only [if_neg secondOther, List.getD_cons_zero, List.drop_succ_cons, List.drop_zero] at read
  by_cases secondEnd : c = 13 ∧ d = 10
  · rw [if_pos secondEnd] at read
    rcases Prod.mk.inj (Option.some.inj read) with ⟨rfl, rfl⟩
    rcases secondEnd with ⟨rfl, rfl⟩
    refine ⟨[a, b], ?_, by omega, rfl⟩
    refine parseDigits_eq_some.mpr ⟨List.cons_ne_nil _ _, ?_⟩
    refine digitsFrom_cons.mpr ⟨by omega, digitsFrom_cons.mpr ⟨by omega, ?_⟩⟩
    rw [Nat.zero_mul, Nat.zero_add]
    rfl
  rw [if_neg secondEnd] at read
  rcases looped : lengthLoop 0 (a :: b :: c :: d :: tail) with _ | ⟨total, position⟩
  · rw [looped] at read
    cases read
  rw [looped] at read
  by_cases wrong : position.length < 2 ∨ position.getD 0 0 ≠ 13 ∨ position.getD 1 0 ≠ 10
  · simp only [if_pos wrong] at read
    cases read
  simp only [if_neg wrong] at read
  rcases Prod.mk.inj (Option.some.inj read) with ⟨rfl, rfl⟩
  rcases lengthLoop_sound (by decide) looped with ⟨text, split, digits, bound⟩
  rw [not_or, not_or, not_not, not_not, Nat.not_lt] at wrong
  have ending := crlf_of_getD wrong.1 wrong.2.1 wrong.2.2
  refine ⟨text, parseDigits_eq_some.mpr ⟨?_, digits⟩, bound, ?_⟩
  · rintro rfl
    rw [List.nil_append] at split
    rw [<- split] at ending
    cases ending
    exact firstOther (by decide)
  · rw [split, <- ending]

/-- `read_length` reads exactly the numeric headers. -/
theorem readLength_eq_some {cursor rest : Bytes} {value : Nat} :
    readLength cursor = some (value, rest) <-> Header cursor value rest := by
  refine ⟨readLength_sound, ?_⟩
  rintro ⟨text, digits, bound, rfl⟩
  rcases parseDigits_eq_some.mp digits with ⟨nonempty, digits⟩
  have isDigit : forall byte, byte ∈ text -> digit byte ≤ 9 := fun byte => digit_of_mem digits
  have notReturn : forall byte, digit byte ≤ 9 -> byte ≠ 13 := by
    rintro byte small rfl
    exact absurd small (by decide)
  have looped := lengthLoop_complete digits bound rest
  unfold readLength
  rcases text with _ | ⟨a, _ | ⟨b, tail⟩⟩
  · exact absurd rfl nonempty
  · have aDigit := isDigit a List.mem_cons_self
    have same := (digitsFrom_cons.mp digits).2
    rw [Nat.zero_mul, Nat.zero_add] at same
    cases Option.some.inj same
    simp only [crlf, List.cons_append, List.nil_append, List.getD_cons_zero, List.getD_cons_succ,
      List.drop_succ_cons, List.drop_zero, List.length_cons]
    rw [if_neg (by omega), if_neg (by omega), if_pos (by simp)]
  · have aDigit := isDigit a List.mem_cons_self
    have bDigit := isDigit b (List.mem_cons_of_mem _ List.mem_cons_self)
    have long : 4 ≤ (a :: b :: tail ++ (crlf ++ rest)).length := by
      simp only [crlf, List.length_append, List.length_cons, List.length_nil]
      omega
    simp only [List.cons_append, List.getD_cons_zero, List.getD_cons_succ, List.drop_succ_cons]
      at long looped ⊢
    rw [if_neg (by omega), if_neg (by omega), if_neg (fun both => notReturn b bDigit both.1),
      if_neg (by omega), if_neg (by omega)]
    rcases tail with _ | ⟨c, tail⟩
    · have same := (digitsFrom_cons.mp (digitsFrom_cons.mp digits).2).2
      rw [Nat.zero_mul, Nat.zero_add] at same
      cases Option.some.inj same
      rw [if_pos ⟨rfl, rfl⟩]
      rfl
    · have cDigit := isDigit c
        (List.mem_cons_of_mem _ (List.mem_cons_of_mem _ List.mem_cons_self))
      rw [if_neg (fun both => notReturn c cDigit both.1), looped]
      simp only [crlf, List.cons_append, List.nil_append, List.getD_cons_zero, List.getD_cons_succ,
        List.drop_succ_cons, List.drop_zero, List.length_cons]
      rw [if_neg (by simp)]

theorem findCrlf_split {input : Bytes} {size : Nat} (found : findCrlf input = some size) :
    input = input.take size ++ (crlf ++ input.drop (size + 2)) := by
  induction input generalizing size with
  | nil => cases found
  | cons byte rest ih =>
      rw [findCrlf] at found
      by_cases here : byte = 13 ∧ rest.head? = some 10
      · rw [if_pos here] at found
        cases found
        rcases here with ⟨rfl, second⟩
        rcases rest with _ | ⟨next, rest⟩
        · cases second
        · cases second
          rfl
      · rw [if_neg here] at found
        rcases Option.map_eq_some_iff.mp found with ⟨shorter, earlier, rfl⟩
        rw [List.take_succ_cons, List.cons_append, List.drop_succ_cons]
        exact congrArg (List.cons byte) (ih earlier)

/-- The first line end in front of which there is no carriage return. -/
theorem findCrlf_append {text : Bytes} (clean : forall byte, byte ∈ text -> byte ≠ 13)
    (rest : Bytes) : findCrlf (text ++ (crlf ++ rest)) = some text.length := by
  induction text with
  | nil => rfl
  | cons byte tail ih =>
      have first := clean byte List.mem_cons_self
      rw [List.cons_append, findCrlf, if_neg (fun both => first both.1),
        ih (fun other member => clean other (List.mem_cons_of_mem _ member))]
      rfl

/-- A line end stays the first one when more input follows. -/
theorem findCrlf_more {input : Bytes} {size : Nat} (found : findCrlf input = some size)
    (more : Bytes) : findCrlf (input ++ more) = some size := by
  induction input generalizing size with
  | nil => cases found
  | cons byte rest ih =>
      rw [findCrlf] at found
      rw [List.cons_append, findCrlf]
      by_cases here : byte = 13 ∧ rest.head? = some 10
      · rw [if_pos here] at found
        rw [if_pos ⟨here.1, by rw [List.head?_append, here.2]; rfl⟩]
        exact found
      · rw [if_neg here] at found
        rcases Option.map_eq_some_iff.mp found with ⟨shorter, earlier, rfl⟩
        have nonempty : rest ≠ [] := by
          rintro rfl
          cases earlier
        rw [if_neg (by rw [List.head?_append_of_ne_nil _ nonempty]; exact here),
          ih earlier]
        rfl

/-- The slow parser's reading of a numeric header. -/
def slowLength (code : ErrorCode) (input : Bytes) : Except ErrorCode (Nat × Bytes) := do
  let (line, rest) <- readline input
  let value <- parseNumber line code
  pure (value, rest)

theorem slowLength_missing {input : Bytes} (missing : findCrlf input = none) (code : ErrorCode) :
    slowLength code input = .error .missingCrlf := by
  simp only [slowLength, readline, missing]
  rfl

theorem slowLength_found {input : Bytes} {size : Nat} (found : findCrlf input = some size)
    (code : ErrorCode) :
    slowLength code input =
      (parseNumber (input.take size) code).map (fun value => (value, input.drop (size + 2))) := by
  simp only [slowLength, readline, found]
  change (parseNumber (input.take size) code).bind _ = _
  cases parseNumber (input.take size) code with
  | error thrown => rfl
  | ok value => rfl

theorem parseNumber_eq_ok {text : Bytes} {code : ErrorCode} {value : Nat} :
    parseNumber text code = .ok value <-> parseDigits text = some value ∧ value < 2 ^ 64 := by
  unfold parseNumber
  cases parseDigits text with
  | none => simp
  | some other =>
      by_cases small : other < 2 ^ 64
      · simp only [if_pos small, Except.ok.injEq, Option.some.injEq]
        exact ⟨fun same => ⟨same, same ▸ small⟩, fun both => both.1⟩
      · simp only [if_neg small, Option.some.injEq]
        constructor
        · intro same
          cases same
        · rintro ⟨rfl, bound⟩
          exact absurd bound small

/-- The slow parser reads exactly the numeric headers. -/
theorem slowLength_eq_ok {code : ErrorCode} {input rest : Bytes} {value : Nat} :
    slowLength code input = .ok (value, rest) <-> Header input value rest := by
  constructor
  · intro read
    rcases found : findCrlf input with _ | size
    · rw [slowLength_missing found] at read
      cases read
    · rw [slowLength_found found] at read
      rcases number : parseNumber (input.take size) code with thrown | other
      · rw [number] at read
        cases read
      · rw [number] at read
        cases read
        rcases parseNumber_eq_ok.mp number with ⟨digits, bound⟩
        exact ⟨input.take size, digits, bound, findCrlf_split found⟩
  · rintro ⟨text, digits, bound, rfl⟩
    have clean : forall byte, byte ∈ text -> byte ≠ 13 := by
      rintro byte member rfl
      exact absurd (digit_of_mem (parseDigits_eq_some.mp digits).2 member) (by decide)
    rw [slowLength_found (findCrlf_append clean rest), List.take_left,
      parseNumber_eq_ok.mpr ⟨digits, bound⟩, <- List.drop_drop, List.drop_left]
    rfl

/-- Both parsers read the same numeric headers, with the same values. -/
theorem readLength_eq (code : ErrorCode) (cursor : Bytes) :
    readLength cursor = (slowLength code cursor).toOption := by
  apply Option.ext
  rintro ⟨value, rest⟩
  rw [readLength_eq_some, <- @slowLength_eq_ok code]
  cases slowLength code cursor with
  | error | ok => simp [Except.toOption]

/-! ## The meaning of a request -/

/-- One bulk string and the input behind it. -/
def item (input : Bytes) : Except ErrorCode (Bytes × Bytes) :=
  if input = [] then .error .missingBulkStringPrefix
  else if input.getD 0 0 ≠ 36 then .error .expectedBulkStringPrefix
  else
    match slowLength .invalidBulkStringLength (input.drop 1) with
    | .error code => .error code
    | .ok (length, rest) =>
        if rest.length < length + 2 then .error .incompleteBulkStringData
        else if (rest.drop length).take 2 ≠ crlf then .error .missingBulkStringTerminator
        else .ok (rest.take length, rest.drop (length + 2))

/-- So many bulk strings and the input behind them. -/
def items : Nat -> Bytes -> Except ErrorCode (List Bytes × Bytes)
  | 0, input => .ok ([], input)
  | count + 1, input =>
      match item input with
      | .error code => .error code
      | .ok (value, rest) =>
          match items count rest with
          | .error code => .error code
          | .ok (values, rest) => .ok (value :: values, rest)

/-- The strings of the request at the front of the input, and its size. -/
def request (input : Bytes) : Except ErrorCode (List Bytes × Nat) :=
  if input = [] then .error .emptyRespInput
  else if input.getD 0 0 ≠ 42 then .error .expectedRespArrayPrefix
  else
    match slowLength .invalidRespArrayLength (input.drop 1) with
    | .error code => .error code
    | .ok (count, rest) =>
        if count = 0 then .error .emptyRespArray
        else
          match items count rest with
          | .error code => .error code
          | .ok (values, rest) => .ok (values, input.length - rest.length)

/-! ## The slow parser -/

/-- Reading a line and then a number from it reads a numeric header. -/
theorem wp_slowLength {code : ErrorCode} {input : Bytes} {command : Command}
    {after : Bytes × Bytes -> Nat -> Command -> Prop} {failed : ErrorCode -> Command -> Prop}
    (read : forall line value rest, slowLength code input = .ok (value, rest) ->
      after (line, rest) value command)
    (threw : forall thrown, slowLength code input = .error thrown -> failed thrown command) :
    (Cmd.lift (readline input) : Cmd ErrorCode Command (Bytes × Bytes)).wp
      (fun pair later => (Cmd.lift (parseNumber pair.1 code) : Cmd ErrorCode Command Nat).wp
        (fun value last => after pair value last) failed later) failed command := by
  rcases found : findCrlf input with _ | size
  · have outcome : readline input = .error .missingCrlf := by
      rw [readline, found]
    rw [outcome]
    exact threw _ (slowLength_missing found code)
  · have outcome : readline input = .ok (input.take size, input.drop (size + 2)) := by
      rw [readline, found]
    have whole := slowLength_found found code
    rw [outcome]
    change (Cmd.lift (parseNumber (input.take size) code) : Cmd ErrorCode Command Nat).wp _ _ _
    rcases number : parseNumber (input.take size) code with thrown | value
    · rw [number] at whole
      exact threw _ whole
    · rw [number] at whole
      exact read _ _ _ whole

/-- A round of the slow loop stores the next string or throws its error. -/
theorem slowItem_spec (index : Nat) (input : Bytes) (command : Command) :
    (slowItem index input).wp
      (fun rest later => exists value, item input = .ok (value, rest) ∧
        later = command.store index value)
      (fun code _ => item input = .error code) command := by
  unfold slowItem
  simp only [Cmd.wp_bind]
  refine Cmd.wp_require (fun nonempty => ?_) (fun empty => ?_)
  swap
  · rw [item, if_pos (not_not.mp empty)]
  refine Cmd.wp_require (fun dollar => ?_) (fun other => ?_)
  swap
  · rw [item, if_neg nonempty, if_pos other]
  refine wp_slowLength (fun line length rest header => ?_) (fun thrown header => ?_)
  swap
  · rw [item, if_neg nonempty, if_neg (not_not.mpr dollar), header]
  have meaning : item input =
      if rest.length < length + 2 then .error .incompleteBulkStringData
      else if (rest.drop length).take 2 ≠ crlf then .error .missingBulkStringTerminator
      else .ok (rest.take length, rest.drop (length + 2)) := by
    rw [item, if_neg nonempty, if_neg (not_not.mpr dollar), header]
  dsimp only
  refine Cmd.wp_require (fun enough => ?_) (fun short => ?_)
  swap
  · rw [meaning, if_pos (by omega)]
  rw [Cmd.wp_update]
  rw [if_neg (by omega)] at meaning
  refine Cmd.wp_require (fun _ => ?_) (fun short => ?_)
  swap
  · rw [List.length_drop] at short
    omega
  refine Cmd.wp_require (fun ending => ?_) (fun other => ?_)
  swap
  · rw [meaning, if_pos other]
  rw [if_neg (not_not.mpr ending)] at meaning
  rw [Cmd.wp_pure, List.drop_drop]
  exact ⟨_, meaning, rfl⟩

/-- The slow loop stores all strings of a request or throws an error. -/
theorem slowItems_spec (count : Nat) (input : Bytes) {command : Command} {values : List Bytes}
    (holds : command.Holds values) :
    (slowItems count values.length input).wp
      (fun rest later => exists more, items count input = .ok (more, rest) ∧
        later.Holds (values ++ more))
      (fun code _ => items count input = .error code) command := by
  induction count generalizing input command values with
  | zero =>
      refine ⟨[], rfl, ?_⟩
      rw [List.append_nil]
      exact holds
  | succ count ih =>
      change (slowItem values.length input >>=
        fun rest => slowItems count (values.length + 1) rest).wp _ _ _
      refine Cmd.wp_step (slowItem_spec values.length input command) ?_ ?_
      · rintro rest later ⟨value, read, rfl⟩
        have stored := ih rest (holds.store value)
        rw [List.length_append, List.length_singleton] at stored
        refine Cmd.wp_mono stored ?_ ?_
        · rintro last after ⟨more, continued, held⟩
          refine ⟨value :: more, ?_, ?_⟩
          · simp only [items, read, continued]
          · rw [List.append_assoc] at held
            exact held
        · intro code after failed
          simp only [items, read, failed]
      · intro code later failed
        simp only [items, failed]

/-- The command holds the strings of the request at the front of the input. -/
def Parsed (input : Bytes) (command : Command) : Prop :=
  exists values, request input = .ok (values, command.bytesConsumed) ∧ command.Holds values

/-- The slow parser computes the meaning of its input. -/
theorem parseCommandSlow_spec (input : Bytes) (command : Command) :
    (parseCommandSlow input).wp (fun _ later => Parsed input later)
      (fun code _ => request input = .error code) command := by
  unfold parseCommandSlow
  simp only [Cmd.wp_bind]
  rw [Cmd.wp_update]
  refine Cmd.wp_require (fun nonempty => ?_) (fun empty => ?_)
  swap
  · rw [request, if_pos (not_not.mp empty)]
  refine Cmd.wp_require (fun star => ?_) (fun other => ?_)
  swap
  · rw [request, if_neg nonempty, if_pos other]
  refine wp_slowLength (fun line argc rest header => ?_) (fun thrown header => ?_)
  swap
  · rw [request, if_neg nonempty, if_neg (not_not.mpr star), header]
  refine Cmd.wp_require (fun positive => ?_) (fun zero => ?_)
  swap
  · rw [request, if_neg nonempty, if_neg (not_not.mpr star), header]
    exact if_pos (not_not.mp zero)
  refine Cmd.wp_mono (slowItems_spec argc rest (Command.holds_reset command)) ?_ ?_
  · rintro last later ⟨values, read, held⟩
    refine ⟨values, ?_, held.name_eq, held.arguments_eq⟩
    rw [request, if_neg nonempty, if_neg (not_not.mpr star), header]
    simp only [if_neg positive, read]
  · intro code later failed
    rw [request, if_neg nonempty, if_neg (not_not.mpr star), header]
    simp only [if_neg positive, failed]

/-! ## The fast parser -/

theorem take_two_eq_crlf {rest : Bytes} {length : Nat} (enough : length + 2 ≤ rest.length) :
    (rest.drop length).take 2 = crlf <->
      rest.getD length 0 = 13 ∧ rest.getD (length + 1) 0 = 10 := by
  have shifted : forall place, (rest.drop length).getD place 0 = rest.getD (length + place) 0 := by
    intro place
    rw [List.getD_eq_getElem?_getD, List.getD_eq_getElem?_getD, List.getElem?_drop]
  have long : 2 ≤ (rest.drop length).length := by
    rw [List.length_drop]
    omega
  rw [<- Nat.add_zero length, <- shifted 0, Nat.add_zero, <- shifted 1]
  clear shifted
  generalize rest.drop length = tail at long ⊢
  rcases tail with _ | ⟨a, _ | ⟨b, tail⟩⟩
  · cases long
  · simp at long
  · simp [crlf]

/-- The fast parser reads the same bulk strings as the slow one. -/
theorem fastItem_eq (cursor : Bytes) : fastItem cursor = (item cursor).toOption := by
  unfold fastItem item
  by_cases empty : cursor = []
  · rw [if_pos (Or.inl empty), if_pos empty]
    rfl
  by_cases other : cursor.getD 0 0 ≠ 36
  · rw [if_pos (Or.inr other), if_neg empty, if_pos other]
    rfl
  rw [if_neg (not_or.mpr ⟨empty, other⟩), if_neg empty, if_neg other,
    readLength_eq .invalidBulkStringLength]
  rcases slowLength .invalidBulkStringLength (cursor.drop 1) with code | ⟨length, rest⟩
  · rfl
  simp only [Except.toOption]
  by_cases short : rest.length < length + 2
  · rw [if_pos (by omega), if_pos short]
  rw [if_neg (by omega), if_neg short]
  have ending := take_two_eq_crlf (Nat.le_of_not_lt short)
  by_cases wrong : (rest.drop length).take 2 ≠ crlf
  · rw [if_pos wrong, if_pos]
    rw [ne_eq, ending] at wrong
    exact not_and_or.mp wrong
  · rw [if_neg wrong, if_neg]
    rw [ne_eq, not_not, ending] at wrong
    rw [not_or, not_not, not_not]
    exact wrong

/-- The fast loop stores all strings of a request, or gives up where there is
an error. -/
theorem fastItems_spec (count : Nat) (cursor : Bytes) {command : Command} {values : List Bytes}
    (holds : command.Holds values) :
    (fastItems count values.length cursor).wp
      (fun reached later => forall rest, reached = some rest ->
        exists more, items count cursor = .ok (more, rest) ∧ later.Holds (values ++ more))
      (fun _ _ => False) command := by
  induction count generalizing cursor command values with
  | zero =>
      rintro rest ⟨rfl⟩
      refine ⟨[], rfl, ?_⟩
      rw [List.append_nil]
      exact holds
  | succ count ih =>
      rw [fastItems]
      rcases read : fastItem cursor with _ | ⟨value, rest⟩
      · rintro rest ⟨⟩
      · change (Cmd.update (Command.store values.length value) >>=
          fun _ => fastItems count (values.length + 1) rest).wp _ _ _
        rw [Cmd.wp_bind, Cmd.wp_update]
        have first : item cursor = .ok (value, rest) := by
          rw [fastItem_eq] at read
          cases outcome : item cursor with
          | error code =>
              rw [outcome] at read
              cases read
          | ok pair =>
              rw [outcome] at read
              cases read
              rfl
        have stored := ih rest (holds.store value)
        rw [List.length_append, List.length_singleton] at stored
        refine Cmd.wp_mono stored ?_ (fun _ _ never => never)
        intro reached later continued last here
        rcases continued last here with ⟨more, itemsRead, held⟩
        refine ⟨value :: more, ?_, ?_⟩
        · simp only [items, first, itemsRead]
        · rw [List.append_assoc] at held
          exact held

/-- The fast parser computes the meaning of its input, whatever its command
held before. -/
theorem parseCommandInto_spec (input : Bytes) (command : Command) :
    (parseCommandInto input).wp (fun _ later => Parsed input later)
      (fun code _ => request input = .error code) command := by
  unfold parseCommandInto
  refine Cmd.wp_ite (fun _ => parseCommandSlow_spec input command) (fun usual => ?_)
  rw [not_or, not_not] at usual
  have nonempty : input ≠ [] := by
    rintro rfl
    exact usual.1 (by decide)
  rw [Cmd.wp_bind, Cmd.wp_update]
  rcases read : readLength (input.drop 1) with _ | ⟨count, cursor⟩
  · exact parseCommandSlow_spec input _
  refine Cmd.wp_ite (fun _ => parseCommandSlow_spec input _) (fun positive => ?_)
  rw [Cmd.wp_bind]
  have header : slowLength .invalidRespArrayLength (input.drop 1) = .ok (count, cursor) :=
    slowLength_eq_ok.mpr (readLength_eq_some.mp read)
  refine Cmd.wp_mono (fastItems_spec count cursor (Command.holds_reset command)) ?_
    (fun _ _ never => never.elim)
  intro reached later continued
  cases reached with
  | none => exact parseCommandSlow_spec input later
  | some rest =>
      rcases continued rest rfl with ⟨values, itemsRead, held⟩
      refine ⟨values, ?_, held.name_eq, held.arguments_eq⟩
      rw [request, if_neg nonempty, if_neg (not_not.mpr usual.2), header]
      simp only [if_neg positive, itemsRead]

/-! ## Agreement -/

/-- The commands cannot be told apart through `name`, `bytes_consumed` and the
members of `ArgumentList`. -/
structure Command.Same (first second : Command) : Prop where
  name_eq : first.name = second.name
  size_eq : first.arguments.size = second.arguments.size
  range_eq : first.arguments.range = second.arguments.range
  get_eq : forall index, index < first.arguments.size ->
    first.arguments.get index = second.arguments.get index
  bytesConsumed_eq : first.bytesConsumed = second.bytesConsumed

theorem Parsed.same {input : Bytes} {first second : Command} (one : Parsed input first)
    (other : Parsed input second) : first.Same second := by
  rcases one with ⟨values, meaning, holds⟩
  rcases other with ⟨others, otherMeaning, otherHolds⟩
  rw [meaning] at otherMeaning
  rcases Prod.mk.inj (Except.ok.inj otherMeaning) with ⟨rfl, consumed⟩
  have sizes : first.arguments.size = second.arguments.size := by
    rw [holds.arguments_eq.size_eq, otherHolds.arguments_eq.size_eq]
  refine ⟨?_, sizes, ?_, ?_, consumed⟩
  · rw [holds.name_eq, otherHolds.name_eq]
  · rw [holds.arguments_eq.range_eq, otherHolds.arguments_eq.range_eq]
  · intro index inside
    rw [holds.arguments_eq.get_eq inside, otherHolds.arguments_eq.get_eq (sizes ▸ inside)]

/-- A run of a parser that meets the specification: what it returns is the
meaning of the input, and the command it leaves is what it read. -/
theorem outcome_of_spec {parser : Cmd ErrorCode Command Unit} {input : Bytes} {command : Command}
    (spec : parser.wp (fun _ later => Parsed input later)
      (fun code _ => request input = .error code) command) :
    (parser command).1 = (request input).map (fun _ => ()) ∧
      ((parser command).1 = .ok () -> Parsed input (parser command).2) := by
  unfold Cmd.wp at spec
  rcases outcome : parser command with ⟨code | value, later⟩
  · rw [outcome] at spec
    rw [show request input = .error code from spec]
    exact ⟨rfl, fun ok => by cases ok⟩
  · rw [outcome] at spec
    rcases spec with ⟨values, meaning, holds⟩
    rw [meaning]
    exact ⟨rfl, fun _ => ⟨values, meaning, holds⟩⟩

/-- The fast parser, writing into any command, returns what the slow parser
returns on a fresh one and leaves the same command; both read the same numeric
headers with the same values. -/
theorem parseCommandInto_eq_parseCommandSlow (input : Bytes) (slot : Command) :
    (parseCommandInto input slot).1 = (parseCommandSlow input Command.fresh).1 ∧
      ((parseCommandInto input slot).1 = .ok () ->
        (parseCommandInto input slot).2.Same (parseCommandSlow input Command.fresh).2) ∧
      forall code cursor, readLength cursor = (slowLength code cursor).toOption := by
  have fast := outcome_of_spec (parseCommandInto_spec input slot)
  have slow := outcome_of_spec (parseCommandSlow_spec input Command.fresh)
  have codes := fast.1.trans slow.1.symm
  refine ⟨codes, fun returned => ?_, readLength_eq⟩
  exact (fast.2 returned).same (slow.2 (codes ▸ returned))

/-- A command that held nine arguments, so that they were not kept in place. -/
def overflowed : Command :=
  ((List.range 10).foldl (fun command index => command.store index [107]) Command.fresh)

/-- `PING` read into a command whose arguments had overflowed. -/
theorem parseCommandInto_ping :
    (parseCommandInto (ascii "*1\r\n$4\r\nPING\r\n") overflowed).2.Same
      (parseCommandSlow (ascii "*1\r\n$4\r\nPING\r\n") Command.fresh).2 := by
  have returned : (parseCommandInto (ascii "*1\r\n$4\r\nPING\r\n") overflowed).1 = .ok () := by
    decide
  exact (parseCommandInto_eq_parseCommandSlow _ overflowed).2.1 returned

end Resp
end Reddish
