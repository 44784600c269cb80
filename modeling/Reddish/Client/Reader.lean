import Reddish.Library.Buffer
import Reddish.Resp.Grammar
import Reddish.Resp.Values

namespace Reddish

open Library Numeral

namespace Client

open Resp (crlf clientRequest Element Counted Complete)

/-!
# The client's reader

`Client::execute` sends a request and collects the reply from chunks of any
size.  It keeps what has been received, the position of the next element and
the number of values that are still expected, and looks at the element again
whenever more has arrived.
-/

/-! ## The code -/

/-- What one call of `recv` puts into the buffer. -/
structure Chunk where
  bytes : Bytes
  nonempty : bytes ≠ []
  small : bytes.length ≤ 4096

/-- The outcomes of `recv`: bytes, a signal, or the end of the connection. -/
inductive Recv where
  | data (chunk : Chunk)
  | interrupted
  | ended

/-- `Socket::receive`.  When no outcome is left the peer has closed. -/
def receive : List Recv -> Except String Chunk × List Recv
  | [] => (.error "Server closed connection", [])
  | .interrupted :: rest => receive rest
  | .ended :: rest => (.error "Server closed connection", rest)
  | .data chunk :: rest => (.ok chunk, rest)

def limit : Nat := 16 * 1024 * 1024

/-- A sum of two sizes, unless it leaves the range of `std::size_t`. -/
def addSize (first second : Nat) : Option Nat :=
  if first + second < 2 ^ 64 then some (first + second) else none

/-- `find` for the end of a line. -/
def lineEnd : Bytes -> Option Nat
  | first :: second :: rest =>
      if first = 13 ∧ second = 10 then some 0 else (lineEnd (second :: rest)).map (· + 1)
  | _ => none

/-- The number in the first line of an element; lines of text have none. -/
def headerLength (type : UInt8) (text : Bytes) : Except String Int64 :=
  if type = 58 then
    match parseInt64 text with
    | none => .error "Invalid RESP integer"
    | some length => .ok length
  else if type = 36 ∨ type = 42 then
    match parseInt64 text with
    | none => .error "Invalid RESP length"
    | some length =>
        if length.toInt < -1 ∨ (limit : Int) < length.toInt then .error "Invalid RESP length"
        else .ok length
  else if type ≠ 43 ∧ type ≠ 45 then .error "Invalid RESP reply type"
  else .ok 0

/-- What the reader makes of the next element. -/
inductive Step where
  | incomplete
  | invalid (message : String)
  | next (position pending : Nat)

/-- The element is complete: count it, and the items that it announces. -/
def advance (type : UInt8) (length : Int64) (next pending : Nat) : Option Step :=
  (if type = 42 ∧ 0 < length.toInt then addSize (pending - 1) length.toInt.toNat
    else some (pending - 1)).map fun pending =>
      if limit < pending then .invalid "RESP reply too large" else .next next pending

/-- The bytes of a string follow its header. -/
def bulkBody (response : Bytes) (length : Int64) (next pending : Nat) : Option Step :=
  (addSize length.toInt.toNat 2).bind fun body => (addSize next body).bind fun next =>
    if limit < next then some (.invalid "RESP reply too large")
    else if response.length < next then some .incomplete
    else if Buffer.slice (next - 2) 2 response ≠ crlf then
      some (.invalid "Invalid RESP bulk terminator")
    else advance 36 length next pending

/-- What follows the first line of an element. -/
def proceed (response : Bytes) (type : UInt8) (line pending : Nat) :
    Except String Int64 -> Option Step
  | .error message => some (.invalid message)
  | .ok length =>
      (addSize line 2).bind fun next =>
        if type = 36 ∧ 0 ≤ length.toInt then bulkBody response length next pending
        else advance type length next pending

/-- One round of the loop up to the point at which more is received. -/
def step (response : Bytes) (position pending : Nat) : Option Step :=
  match lineEnd (response.drop position) with
  | none => some .incomplete
  | some size =>
      proceed response (response.getD position 0) (position + size) pending
        (headerLength (response.getD position 0)
          (Buffer.slice (position + 1) (size - 1) response))

/-! ## Lines -/

section Lines

variable {line rest more text whole : Bytes}

theorem lineEnd_append (clean : ¬ crlf <:+: line) :
    lineEnd (line ++ (crlf ++ rest)) = some line.length := by
  induction line with
  | nil => rfl
  | cons first line ih =>
      have later := ih fun inside => clean (inside.trans (List.suffix_cons _ _).isInfix)
      cases line with
      | nil =>
          have different : ¬ (first = 13 ∧ (13 : UInt8) = 10) := fun both => absurd both.2 (by decide)
          exact if_neg different
      | cons second line =>
          have different : ¬ (first = 13 ∧ second = 10) := by
            rintro ⟨rfl, rfl⟩
            exact clean ⟨[], line, rfl⟩
          refine (if_neg different).trans ?_
          rw [List.cons_append] at later
          exact congrArg (Option.map (· + 1)) later

theorem lineEnd_some {size : Nat} (found : lineEnd text = some size) :
    exists line rest, text = line ++ (crlf ++ rest) ∧ line.length = size ∧ ¬ crlf <:+: line := by
  fun_induction lineEnd text generalizing size with
  | case1 first second rest isEnd =>
      cases found
      rcases isEnd with ⟨rfl, rfl⟩
      refine ⟨[], rest, rfl, rfl, ?_⟩
      rintro ⟨front, back, impossible⟩
      cases front with
      | nil => cases impossible
      | cons _ _ => cases impossible
  | case2 first second rest notEnd ih =>
      rcases Option.map_eq_some_iff.mp found with ⟨later, isLater, rfl⟩
      rcases ih isLater with ⟨line, tail, split, rfl, clean⟩
      refine ⟨first :: line, tail, by rw [split]; rfl, rfl, ?_⟩
      rw [List.infix_cons_iff]
      rintro (⟨back, starts⟩ | inside)
      · cases line with
        | nil => cases starts
        | cons other line =>
            cases starts
            cases split
            exact notEnd ⟨rfl, rfl⟩
      · exact clean inside
  | case3 => cases found

/-- A part of a text either stops before the end of the first line or contains
the line. -/
theorem line_cut (clean : ¬ crlf <:+: line) (whole : text ++ more = line ++ (crlf ++ rest)) :
    lineEnd text = none ∧ more ≠ [] ∨
      exists tail, text = line ++ (crlf ++ tail) ∧ rest = tail ++ more := by
  cases found : lineEnd text with
  | none =>
      refine Or.inl ⟨rfl, ?_⟩
      rintro rfl
      rw [List.append_nil] at whole
      rw [whole, lineEnd_append clean] at found
      cases found
  | some size =>
      rcases lineEnd_some found with ⟨other, tail, rfl, -, otherClean⟩
      have first := @lineEnd_append other (tail ++ more) otherClean
      simp only [List.append_assoc] at whole
      rw [whole, lineEnd_append clean] at first
      rcases List.append_inj whole (Option.some.inj first).symm with ⟨rfl, behind⟩
      exact Or.inr ⟨tail, rfl, (List.append_cancel_left behind).symm⟩

theorem clean_cons {kind : UInt8} (different : kind ≠ 13) (clean : ¬ crlf <:+: text) :
    ¬ crlf <:+: kind :: text := by
  rw [List.infix_cons_iff]
  rintro (⟨back, starts⟩ | inside)
  · exact different (List.cons.inj starts).1.symm
  · exact clean inside

theorem digit_of_digitsFrom {sofar n : Nat} (parsed : digitsFrom sofar text = some n) :
    (13 : UInt8) ∉ text := by
  induction text generalizing sofar with
  | nil => exact List.not_mem_nil
  | cons byte rest ih =>
      unfold digitsFrom at parsed
      cases digit : digitValue byte with
      | none =>
          rw [digit] at parsed
          cases parsed
      | some value =>
          rw [digit] at parsed
          rw [List.mem_cons, not_or]
          refine ⟨?_, ih parsed⟩
          rintro rfl
          cases digit

theorem clean_number {n : Int64} (spelled : parseInt64 text = some n) : ¬ crlf <:+: text := by
  have digits : forall {text : Bytes} {n : Nat}, parseDigits text = some n ->
    (13 : UInt8) ∉ text := by
    intro text n parsed
    cases text with
    | nil => exact List.not_mem_nil
    | cons byte rest => exact digit_of_digitsFrom parsed
  have absent : (13 : UInt8) ∉ text := by
    cases text with
    | nil => exact List.not_mem_nil
    | cons byte rest =>
        simp only [parseInt64] at spelled
        by_cases minus : byte = minusByte
        · rw [if_pos minus] at spelled
          cases parsed : parseDigits rest with
          | none =>
              rw [parsed] at spelled
              cases spelled
          | some n =>
              rw [List.mem_cons, not_or, minus]
              exact ⟨by decide, digits parsed⟩
        · rw [if_neg minus] at spelled
          cases parsed : parseDigits (byte :: rest) with
          | none =>
              rw [parsed] at spelled
              cases spelled
          | some n => exact digits parsed
  exact fun inside => absent (inside.subset List.mem_cons_self)

end Lines

/-! ## One element -/

section Elements

variable {response text more rest : Bytes} {position pending items next : Nat} {kind : UInt8}
variable {length : Int64}

theorem addSize_of_lt {first second : Nat} (small : first + second < 2 ^ 64) :
    addSize first second = some (first + second) :=
  if_pos small

theorem step_incomplete (unended : lineEnd (response.drop position) = none) :
    step response position pending = some .incomplete := by
  rw [step, unended]

theorem step_line (clean : ¬ crlf <:+: kind :: text)
    (there : response.drop position = kind :: (text ++ (crlf ++ rest))) :
    step response position pending =
      proceed response kind (position + (text.length + 1)) pending (headerLength kind text) := by
  have found : lineEnd (response.drop position) = some (text.length + 1) := by
    rw [there]
    exact @lineEnd_append (kind :: text) rest clean
  have first : response.getD position 0 = kind := by
    have same : response.getD position 0 = (response.drop position).getD 0 0 := by
      simp [List.getD_eq_getElem?_getD, List.getElem?_drop]
    rw [same, there]
    rfl
  have header : Buffer.slice (position + 1) (text.length + 1 - 1) response = text := by
    rw [Buffer.slice, <- List.drop_drop, there, Nat.add_sub_cancel]
    exact List.take_left
  rw [step, found]
  simp only
  rw [first, header]

theorem advance_value (plain : kind ≠ 42 ∨ length.toInt ≤ 0) (few : pending ≤ limit) :
    advance kind length next (pending + 1) = some (.next next pending) := by
  have condition : ¬ (kind = 42 ∧ 0 < length.toInt) := by
    rintro ⟨isArray, positive⟩
    rcases plain with other | negative
    · exact other isArray
    · omega
  rw [advance, if_neg condition, Option.map_some, Nat.add_sub_cancel, if_neg (Nat.not_lt.mpr few)]

theorem advance_array (size : length.toInt = items) (few : pending + items ≤ limit) :
    advance 42 length next (pending + 1) = some (.next next (pending + items)) := by
  have bound : limit = 16777216 := rfl
  cases items with
  | zero => exact advance_value (Or.inr (by omega)) few
  | succ items =>
      rw [advance, if_pos ⟨rfl, by omega⟩, size, Int.toNat_natCast, Nat.add_sub_cancel,
        addSize_of_lt (by omega), Option.map_some, if_neg (Nat.not_lt.mpr few)]

theorem proceed_plain {line : Nat} (plain : kind ≠ 36 ∨ length.toInt < 0) (small : line ≤ limit) :
    proceed response kind line pending (.ok length) = advance kind length (line + 2) pending := by
  have bound : limit = 16777216 := rfl
  have condition : ¬ (kind = 36 ∧ 0 ≤ length.toInt) := by
    rintro ⟨isBulk, positive⟩
    rcases plain with other | negative
    · exact other isBulk
    · omega
  rw [proceed, addSize_of_lt (by omega), Option.bind_some, if_neg condition]

theorem headerLength_line (isLine : kind = 43 ∨ kind = 45) : headerLength kind text = .ok 0 := by
  rcases isLine with rfl | rfl
  · rfl
  · rfl

theorem headerLength_integer (spelled : parseInt64 text = some length) :
    headerLength 58 text = .ok length := by
  rw [headerLength, if_pos rfl, spelled]

theorem headerLength_size (sized : kind = 36 ∨ kind = 42) (spelled : parseInt64 text = some length)
    (lower : -1 ≤ length.toInt) (upper : length.toInt ≤ limit) :
    headerLength kind text = .ok length := by
  have other : kind ≠ 58 := by
    rcases sized with rfl | rfl
    · decide
    · decide
  rw [headerLength, if_neg other, if_pos sized, spelled]
  exact if_neg (by omega)

/-- A line of a whole reply that is not followed by anything belonging to it. -/
theorem step_plain {whole : Bytes} (clean : ¬ crlf <:+: kind :: text)
    (header : headerLength kind text = .ok length)
    (cut : response.drop position ++ more = kind :: (text ++ crlf) ++ whole)
    (plain : kind ≠ 36 ∨ length.toInt < 0)
    (bound : position + (kind :: (text ++ crlf)).length ≤ limit) :
    step response position pending = some .incomplete ∧ more ≠ [] ∨
      exists tail, response.drop position = kind :: (text ++ crlf) ++ tail ∧ whole = tail ++ more ∧
        step response position pending =
          advance kind length (position + (kind :: (text ++ crlf)).length) pending := by
  have two : crlf.length = 2 := rfl
  rw [List.cons_append, List.append_assoc, <- List.cons_append] at cut
  rcases line_cut clean cut with ⟨unended, missing⟩ | ⟨tail, there, behind⟩
  · exact Or.inl ⟨step_incomplete unended, missing⟩
  · refine Or.inr ⟨tail, by rw [there]; simp, behind, ?_⟩
    simp only [List.length_cons, List.length_append, two] at bound ⊢
    rw [step_line clean there, header, proceed_plain plain (by omega)]
    rfl

/-- What a round does at an element of a reply of which the first part has
arrived: it waits, or it goes on to the next element. -/
def Passes (response more whole piece : Bytes) (position pending items : Nat) : Prop :=
  step response position (pending + 1) = some .incomplete ∧ more ≠ [] ∨
    exists tail, response.drop position = piece ++ tail ∧ whole = tail ++ more ∧
      step response position (pending + 1) = some (.next (position + piece.length) (pending + items))

theorem passes_plain {whole : Bytes} (clean : ¬ crlf <:+: kind :: text)
    (header : headerLength kind text = .ok length)
    (cut : response.drop position ++ more = kind :: (text ++ crlf) ++ whole)
    (plain : kind ≠ 36 ∨ length.toInt < 0)
    (bound : position + (kind :: (text ++ crlf)).length ≤ limit)
    (advanced : forall next, advance kind length next (pending + 1) =
      some (.next next (pending + items))) :
    Passes response more whole (kind :: (text ++ crlf)) position pending items := by
  rcases @step_plain response text more position (pending + 1) kind length whole clean header cut
    plain bound with incomplete | ⟨tail, there, behind, stepped⟩
  · exact Or.inl incomplete
  · exact Or.inr ⟨tail, there, behind, stepped.trans (advanced _)⟩

theorem bulkBody_passes {data tail whole : Bytes} (size : length.toInt = data.length)
    (there : response.drop next = tail) (inside : next ≤ response.length)
    (cut : tail ++ more = data ++ (crlf ++ whole)) (bound : next + (data.length + 2) ≤ limit)
    (few : pending ≤ limit) :
    bulkBody response length next (pending + 1) = some .incomplete ∧ more ≠ [] ∨
      exists behind, tail = data ++ (crlf ++ behind) ∧ whole = behind ++ more ∧
        bulkBody response length next (pending + 1) =
          some (.next (next + (data.length + 2)) pending) := by
  have top : limit = 16777216 := rfl
  have two : crlf.length = 2 := rfl
  have rest : tail.length = response.length - next := by
    rw [<- there, List.length_drop]
  unfold bulkBody
  rw [size, Int.toNat_natCast, addSize_of_lt (by omega), Option.bind_some, addSize_of_lt (by omega),
    Option.bind_some, if_neg (by omega)]
  by_cases short : response.length < next + (data.length + 2)
  · refine Or.inl ⟨if_pos short, ?_⟩
    rintro rfl
    have lengths := congrArg List.length cut
    simp only [List.length_append, List.length_nil, two] at lengths
    omega
  · -- The string and its terminator have arrived.
    rw [<- List.append_assoc] at cut
    have front : (data ++ crlf).length ≤ tail.length := by
      rw [List.length_append, two]
      omega
    have starts : data ++ crlf <+: tail :=
      List.prefix_of_prefix_length_le ⟨whole, cut.symm⟩ ⟨more, rfl⟩ front
    rcases starts with ⟨behind, rfl⟩
    rw [List.append_assoc] at cut
    have terminator : Buffer.slice (next + (data.length + 2) - 2) 2 response = crlf := by
      rw [<- Nat.add_assoc, Nat.add_sub_cancel, Buffer.slice, <- List.drop_drop, there,
        List.append_assoc, List.drop_left]
      rfl
    refine Or.inr ⟨behind, List.append_assoc .., (List.append_cancel_left cut).symm, ?_⟩
    rw [if_neg short, if_neg (not_not.mpr terminator)]
    exact advance_value (Or.inl (by decide)) few

theorem step_element {piece whole : Bytes} (element : Element piece items)
    (cut : response.drop position ++ more = piece ++ whole)
    (bound : position + piece.length ≤ limit) (few : pending + items ≤ limit) :
    Passes response more whole piece position pending items := by
  cases element with
  | @simple line clean =>
      refine passes_plain (clean_cons (by decide) clean) (headerLength_line (Or.inl rfl)) cut
        (Or.inl (by decide)) bound fun next => advance_value (Or.inl (by decide)) few
  | @error line clean =>
      refine passes_plain (clean_cons (by decide) clean) (headerLength_line (Or.inr rfl)) cut
        (Or.inl (by decide)) bound fun next => advance_value (Or.inl (by decide)) few
  | @integer digits n spelled =>
      refine passes_plain (clean_cons (by decide) (clean_number spelled))
        (headerLength_integer spelled) cut (Or.inl (by decide)) bound
        fun next => advance_value (Or.inl (by decide)) few
  | @bulk digits data length spelled size =>
      have two : crlf.length = 2 := rfl
      have top : limit = 16777216 := rfl
      simp only [List.length_cons, List.length_append, two] at bound
      have clean := clean_cons (show (36 : UInt8) ≠ 13 by decide) (clean_number spelled)
      have header : headerLength 36 digits = .ok length :=
        headerLength_size (Or.inl rfl) spelled (by omega) (by omega)
      simp only [List.cons_append, List.append_assoc] at cut
      rw [<- List.cons_append] at cut
      rcases line_cut clean cut with ⟨unended, missing⟩ | ⟨tail, there, behind⟩
      · exact Or.inl ⟨step_incomplete unended, missing⟩
      have stepped : step response position (pending + 1) =
          bulkBody response length (position + (digits.length + 1) + 2) (pending + 1) := by
        rw [step_line clean there, header, proceed, addSize_of_lt (by omega), Option.bind_some,
          if_pos ⟨rfl, by omega⟩]
      have rest : response.drop (position + (digits.length + 1) + 2) = tail := by
        have header : (36 :: digits ++ crlf).length = digits.length + 1 + 2 := by
          simp only [List.length_append, List.length_cons, two]
        rw [Nat.add_assoc, <- List.drop_drop, there, <- List.append_assoc, <- header, List.drop_left]
      have inside : position + (digits.length + 1) + 2 ≤ response.length := by
        have lengths := congrArg List.length there
        simp only [List.length_drop, List.length_append, List.length_cons, two] at lengths
        omega
      rcases @bulkBody_passes response more pending _ length data tail whole size rest inside
        behind.symm (by omega) few with ⟨incomplete, missing⟩ | ⟨last, isTail, isWhole, passed⟩
      · exact Or.inl ⟨stepped.trans incomplete, missing⟩
      · refine Or.inr ⟨last, ?_, isWhole, ?_⟩
        · rw [there, isTail]
          simp
        · rw [stepped, passed]
          simp only [List.length_cons, List.length_append, two, Nat.add_zero]
          congr 2
          omega
  | @nullBulk digits spelled =>
      have minus : (-1 : Int64).toInt = -1 := rfl
      refine passes_plain (clean_cons (by decide) (clean_number spelled))
        (headerLength_size (Or.inl rfl) spelled (by omega) (by omega)) cut (Or.inr (by omega)) bound
        fun next => advance_value (Or.inl (by decide)) few
  | @array digits count items spelled size =>
      refine passes_plain (clean_cons (by decide) (clean_number spelled))
        (headerLength_size (Or.inr rfl) spelled (by omega) (by omega)) cut (Or.inl (by decide)) bound
        fun next => advance_array size few
  | @nullArray digits spelled =>
      have minus : (-1 : Int64).toInt = -1 := rfl
      refine passes_plain (clean_cons (by decide) (clean_number spelled))
        (headerLength_size (Or.inr rfl) spelled (by omega) (by omega)) cut (Or.inl (by decide)) bound
        fun next => advance_value (Or.inr (by omega)) few

/-! ## What a round has accepted -/

theorem addSize_eq {first second sum : Nat} (added : addSize first second = some sum) :
    sum = first + second := by
  unfold addSize at added
  split at added
  · exact (Option.some.inj added).symm
  · cases added

theorem headerLength_ok (header : headerLength kind text = .ok length) :
    kind = 58 ∧ parseInt64 text = some length ∨
      (kind = 36 ∨ kind = 42) ∧ parseInt64 text = some length ∧ -1 ≤ length.toInt ∧
        length.toInt ≤ limit ∨
      (kind = 43 ∨ kind = 45) ∧ length = 0 := by
  unfold headerLength at header
  by_cases integer : kind = 58
  · rw [if_pos integer] at header
    cases spelled : parseInt64 text with
    | none =>
        rw [spelled] at header
        cases header
    | some n =>
        rw [spelled] at header
        cases header
        exact Or.inl ⟨integer, rfl⟩
  rw [if_neg integer] at header
  by_cases sized : kind = 36 ∨ kind = 42
  · rw [if_pos sized] at header
    cases spelled : parseInt64 text with
    | none =>
        rw [spelled] at header
        cases header
    | some n =>
        rw [spelled] at header
        simp only at header
        split at header
        · cases header
        · cases header
          exact Or.inr (Or.inl ⟨sized, rfl, by omega, by omega⟩)
  rw [if_neg sized] at header
  split at header
  · cases header
  case isFalse isLine =>
    cases header
    refine Or.inr (Or.inr ⟨?_, rfl⟩)
    by_contra neither
    exact isLine (not_or.mp neither)

theorem advance_next {before after : Nat}
    (advanced : advance kind length next before = some (.next position after)) :
    position = next ∧ after ≤ limit ∧
      (¬ (kind = 42 ∧ 0 < length.toInt) ∧ after = before - 1 ∨
        kind = 42 ∧ 0 < length.toInt ∧ after = before - 1 + length.toInt.toNat) := by
  unfold advance at advanced
  rcases Option.map_eq_some_iff.mp advanced with ⟨count, counted, stepped⟩
  split at stepped
  case isTrue => cases stepped
  case isFalse few =>
    cases stepped
    refine ⟨rfl, Nat.not_lt.mp few, ?_⟩
    split at counted
    case isTrue isArray => exact Or.inr ⟨isArray.1, isArray.2, addSize_eq counted⟩
    case isFalse plain => exact Or.inl ⟨plain, (Option.some.inj counted).symm⟩

theorem bulkBody_next {before after : Nat}
    (stepped : bulkBody response length next before = some (.next position after)) :
    position = next + (length.toInt.toNat + 2) ∧ position ≤ response.length ∧
      Buffer.slice (position - 2) 2 response = crlf ∧ after = before - 1 ∧ after ≤ limit := by
  unfold bulkBody at stepped
  rcases Option.bind_eq_some_iff.mp stepped with ⟨body, isBody, stepped⟩
  rcases Option.bind_eq_some_iff.mp stepped with ⟨last, isLast, stepped⟩
  rw [addSize_eq isBody] at isLast
  split at stepped
  case isTrue => cases stepped
  split at stepped
  case isTrue => cases stepped
  case isFalse arrived =>
    split at stepped
    case isTrue => cases stepped
    case isFalse terminated =>
      rcases advance_next stepped with ⟨rfl, few, ⟨-, count⟩ | ⟨impossible, -⟩⟩
      · exact ⟨addSize_eq isLast, Nat.not_lt.mp arrived, not_not.mp terminated, count, few⟩
      · cases impossible

theorem infix_of_cons {kind : UInt8} (clean : ¬ crlf <:+: kind :: text) : ¬ crlf <:+: text :=
  fun inside => clean (inside.trans (List.suffix_cons _ _).isInfix)

theorem element_plain (clean : ¬ crlf <:+: kind :: text)
    (header : headerLength kind text = .ok length) (plain : ¬ (kind = 36 ∧ 0 ≤ length.toInt)) :
    Element (kind :: (text ++ crlf))
      (if kind = 42 ∧ 0 < length.toInt then length.toInt.toNat else 0) := by
  have null : length.toInt = -1 -> length = -1 := fun minus => Int64.toInt_inj.mp minus
  rcases headerLength_ok header with ⟨rfl, spelled⟩ | ⟨sized, spelled, lower, -⟩ | ⟨isLine, -⟩
  · rw [if_neg (fun impossible => absurd impossible.1 (by decide))]
    exact .integer spelled
  · rcases sized with rfl | rfl
    · have minus : length.toInt = -1 := by
        have negative : ¬ 0 ≤ length.toInt := fun positive => plain ⟨rfl, positive⟩
        omega
      rw [if_neg (fun impossible => absurd impossible.1 (by decide))]
      rw [null minus] at spelled
      exact .nullBulk spelled
    · rcases Int.lt_trichotomy length.toInt 0 with negative | zero | positive
      · rw [if_neg (fun impossible => by omega)]
        rw [null (by omega)] at spelled
        exact .nullArray spelled
      · rw [if_neg (fun impossible => by omega)]
        exact .array spelled zero
      · rw [if_pos ⟨rfl, positive⟩]
        exact .array spelled (Int.toNat_of_nonneg (Int.le_of_lt positive)).symm
  · rcases isLine with rfl | rfl
    · rw [if_neg (fun impossible => absurd impossible.1 (by decide))]
      exact .simple (infix_of_cons clean)
    · rw [if_neg (fun impossible => absurd impossible.1 (by decide))]
      exact .error (infix_of_cons clean)

theorem split_terminator {size : Nat} (room : size + 2 ≤ rest.length)
    (terminator : (rest.drop size).take 2 = crlf) :
    rest = rest.take size ++ (crlf ++ rest.drop (size + 2)) ∧ (rest.take size).length = size := by
  refine ⟨?_, List.length_take_of_le (by omega)⟩
  rw [<- terminator, <- List.drop_drop, List.take_append_drop, List.take_append_drop]

theorem bulk_element {before after : Nat}
    (there : response.drop position = 36 :: (text ++ crlf ++ rest))
    (header : headerLength 36 text = .ok length) (positive : 0 ≤ length.toInt)
    (stepped : bulkBody response length (position + (text.length + 1) + 2) before =
      some (.next next after)) :
    exists piece tail items, Element piece items ∧ response.drop position = piece ++ tail ∧
      next = position + piece.length ∧ after = before - 1 + items ∧ after ≤ limit := by
  have two : crlf.length = 2 := rfl
  rcases bulkBody_next stepped with ⟨isNext, arrived, terminator, count, few⟩
  have behind : response.drop (position + (text.length + 1) + 2) = rest := by
    have size : (36 :: (text ++ crlf)).length = text.length + 1 + 2 := by
      simp only [List.length_cons, List.length_append, two]
    rw [Nat.add_assoc, <- List.drop_drop, there, <- size]
    exact @List.drop_left _ (36 :: (text ++ crlf)) rest
  have room : length.toInt.toNat + 2 ≤ rest.length := by
    rw [<- behind, List.length_drop]
    omega
  rw [isNext, <- Nat.add_assoc, Nat.add_sub_cancel, Buffer.slice, <- List.drop_drop, behind]
    at terminator
  rcases split_terminator room terminator with ⟨parts, size⟩
  have spelled : parseInt64 text = some length := by
    rcases headerLength_ok header with ⟨-, spelled⟩ | ⟨-, spelled, -⟩ | ⟨impossible, -⟩
    · exact spelled
    · exact spelled
    · exact absurd impossible (by decide)
  refine ⟨_, rest.drop (length.toInt.toNat + 2), 0,
    @Element.bulk text (rest.take length.toInt.toNat) length spelled ?_, ?_, ?_, count, few⟩
  · rw [size, Int.toNat_of_nonneg positive]
  · rw [there]
    conv_lhs => rw [parts]
    simp
  · rw [isNext]
    simp only [List.length_cons, List.length_append, two, size]
    omega

/-- What a round has passed is an element. -/
theorem step_next {before after : Nat}
    (stepped : step response position before = some (.next next after)) :
    exists piece tail items, Element piece items ∧ response.drop position = piece ++ tail ∧
      next = position + piece.length ∧ after = before - 1 + items ∧ after ≤ limit := by
  have two : crlf.length = 2 := rfl
  cases found : lineEnd (response.drop position) with
  | none =>
      rw [step_incomplete found] at stepped
      cases stepped
  | some size =>
      rcases lineEnd_some found with ⟨line, rest, there, -, clean⟩
      cases line with
      | nil =>
          have first : response.getD position 0 = 13 := by
            have same : response.getD position 0 = (response.drop position).getD 0 0 := by
              simp [List.getD_eq_getElem?_getD, List.getElem?_drop]
            rw [same, there]
            rfl
          rw [step, found, first] at stepped
          cases stepped
      | cons kind text =>
          rw [step_line clean there] at stepped
          cases header : headerLength kind text with
          | error message =>
              rw [header] at stepped
              cases stepped
          | ok length =>
              rw [header, proceed] at stepped
              rcases Option.bind_eq_some_iff.mp stepped with ⟨start, isStart, stepped⟩
              have starts := addSize_eq isStart
              rw [List.cons_append, <- List.append_assoc] at there
              split at stepped
              case isTrue isBulk =>
                rcases isBulk with ⟨rfl, positive⟩
                rename_i body
                rw [starts] at body
                exact bulk_element there header positive body
              case isFalse plain =>
                rcases advance_next stepped with ⟨rfl, few, count⟩
                refine ⟨kind :: (text ++ crlf), rest,
                  if kind = 42 ∧ 0 < length.toInt then length.toInt.toNat else 0, ?_, there, ?_, ?_,
                  few⟩
                · exact element_plain clean header plain
                · rw [starts]
                  simp only [List.length_cons, List.length_append, two]
                  omega
                · rcases count with ⟨other, count⟩ | ⟨isArray, positive, count⟩
                  · rw [if_neg other]
                    exact count
                  · rw [if_pos ⟨isArray, positive⟩]
                    exact count

/-! ## Sizes stay in range -/

theorem advance_some (few : pending ≤ limit) (small : length.toInt ≤ limit ∨ kind ≠ 42) :
    exists result, advance kind length next pending = some result := by
  have top : limit = 16777216 := rfl
  unfold advance
  split
  case isTrue isArray =>
    rcases small with small | other
    · rw [addSize_of_lt (by omega)]
      exact ⟨_, rfl⟩
    · exact absurd isArray.1 other
  case isFalse => exact ⟨_, rfl⟩

theorem bulkBody_some (small : length.toInt ≤ limit) (inside : next ≤ limit + 2)
    (few : pending ≤ limit) : exists result, bulkBody response length next pending = some result := by
  have top : limit = 16777216 := rfl
  unfold bulkBody
  rw [addSize_of_lt (by omega), Option.bind_some, addSize_of_lt (by omega), Option.bind_some]
  split
  · exact ⟨_, rfl⟩
  split
  · exact ⟨_, rfl⟩
  split
  · exact ⟨_, rfl⟩
  · exact advance_some few (Or.inl small)

/-- No sum of a round leaves the range of sizes. -/
theorem step_some (bound : response.length ≤ limit) (few : pending ≤ limit) :
    exists result, step response position pending = some result := by
  have top : limit = 16777216 := rfl
  unfold step
  cases found : lineEnd (response.drop position) with
  | none => exact ⟨_, rfl⟩
  | some size =>
      have inside : position + size ≤ limit := by
        rcases lineEnd_some found with ⟨line, rest, there, isSize, -⟩
        have lengths := congrArg List.length there
        simp only [List.length_drop, List.length_append, isSize] at lengths
        have two : crlf.length = 2 := rfl
        omega
      simp only
      cases header : headerLength (response.getD position 0)
          (Buffer.slice (position + 1) (size - 1) response) with
      | error message => exact ⟨_, rfl⟩
      | ok length =>
          rw [proceed, addSize_of_lt (by omega), Option.bind_some]
          rcases headerLength_ok header with ⟨isKind, -⟩ | ⟨-, -, -, small⟩ | ⟨isKind, rfl⟩
          · have other : response.getD position 0 ≠ 36 ∧ response.getD position 0 ≠ 42 := by
              rw [isKind]
              decide
            rw [if_neg (fun impossible => other.1 impossible.1)]
            exact advance_some few (Or.inr other.2)
          · split
            · exact bulkBody_some small (by omega) few
            · exact advance_some few (Or.inl small)
          · have zero : (0 : Int64).toInt = 0 := rfl
            split
            · exact bulkBody_some (by omega) (by omega) few
            · exact advance_some few (Or.inl (by omega))

theorem step_position {before after : Nat}
    (stepped : step response position before = some (.next next after)) :
    position < next ∧ next ≤ response.length := by
  rcases step_next stepped with ⟨piece, tail, items, element, there, isNext, -, -⟩
  have size := element.length_le
  have lengths := congrArg List.length there
  rw [List.length_drop, List.length_append] at lengths
  omega

end Elements

/-! ## The loops -/

/-- Where the reader stands when it has looked at everything that arrived. -/
inductive Drained where
  | done (position : Nat)
  | waiting (position pending : Nat)
  | invalid (message : String)

/-- The rounds that need no more bytes. -/
def drain (response : Bytes) (position pending : Nat) : Option Drained :=
  if pending = 0 then some (.done position)
  else
    match _ : step response position pending with
    | none => none
    | some .incomplete => some (.waiting position pending)
    | some (.invalid message) => some (.invalid message)
    | some (.next next after) => drain response next after
termination_by response.length - position
decreasing_by
  have moved := step_position ‹_›
  omega

/-- How a call of `execute` ends: its result, whether it closed the connection,
and what it left to be received. -/
structure Outcome where
  result : Except String Bytes
  closed : Bool
  unread : List Recv

/-- Close the connection and return an error. -/
def fail (message : String) (unread : List Recv) : Outcome :=
  ⟨.error message, true, unread⟩

theorem receive_shorter {receives rest : List Recv} {chunk : Chunk}
    (received : receive receives = (.ok chunk, rest)) : rest.length < receives.length := by
  induction receives with
  | nil => cases received
  | cons first others ih =>
      cases first with
      | data other =>
          cases received
          exact Nat.lt_succ_self _
      | interrupted => exact Nat.lt_succ_of_lt (ih received)
      | ended => cases received

/-- The loop of `Client::execute` and what follows it. -/
def read (receives : List Recv) (response : Bytes) (position pending : Nat) : Option Outcome :=
  match drain response position pending with
  | none => none
  | some (.invalid message) => some (fail message receives)
  | some (.done position) =>
      if position ≠ response.length then some (fail "Unexpected data after RESP reply" receives)
      else some ⟨.ok response, false, receives⟩
  | some (.waiting position pending) =>
      match _ : receive receives with
      | (.error message, rest) => some (fail message rest)
      | (.ok chunk, rest) =>
          (addSize response.length chunk.bytes.length).bind fun size =>
            if limit < size then some (fail "RESP reply too large" rest)
            else read rest (response ++ chunk.bytes) position pending
termination_by receives.length
decreasing_by exact receive_shorter ‹_›

/-- `Client::execute`, for what sending the request comes to. -/
def execute (command : List Bytes) (send : Bytes -> Except String Unit) (receives : List Recv) :
    Option Outcome :=
  match send (clientRequest command) with
  | .error message => some (fail message receives)
  | .ok _ => read receives [] 0 1

section Runs

variable {response more : Bytes} {position pending next after : Nat} {receives later : List Recv}

/-! ### What is read is a value -/

/-- What has been passed is the beginning of a value, of which some values are
still expected. -/
structure Begun (response : Bytes) (position pending : Nat) : Prop where
  inside : position ≤ response.length
  bound : response.length ≤ limit
  few : pending ≤ limit
  counted : forall rest, Counted pending rest -> Counted 1 (response.take position ++ rest)

theorem begun_start : Begun [] 0 1 :=
  ⟨Nat.le_refl 0, Nat.zero_le _, by decide, fun _ counted => counted⟩

theorem Begun.step (begun : Begun response position pending) (expected : pending ≠ 0)
    (stepped : step response position pending = some (.next next after)) :
    Begun response next after := by
  rcases step_next stepped with ⟨piece, tail, items, element, there, isNext, isAfter, few⟩
  refine ⟨(step_position stepped).2, begun.bound, few, fun rest counted => ?_⟩
  have passed : response.take next = response.take position ++ piece := by
    rw [isNext, List.take_add, there, List.take_left]
  rw [isAfter] at counted
  have longer := Counted.cons element counted
  rw [Nat.sub_add_cancel (Nat.one_le_iff_ne_zero.mpr expected)] at longer
  rw [passed, List.append_assoc]
  exact begun.counted _ longer

theorem Begun.drain (begun : Begun response position pending) :
    exists drained, drain response position pending = some drained ∧
      (forall last, drained = .done last -> Begun response last 0) ∧
      forall last left, drained = .waiting last left -> Begun response last left := by
  fun_induction Client.drain response position pending with
  | case1 position =>
      refine ⟨_, rfl, fun last equal => ?_, nofun⟩
      cases equal
      exact begun
  | case2 position pending _ stepped =>
      rcases @step_some response position pending begun.bound begun.few with ⟨result, same⟩
      rw [stepped] at same
      cases same
  | case3 position pending _ stepped =>
      refine ⟨_, rfl, nofun, fun last left equal => ?_⟩
      cases equal
      exact begun
  | case4 position pending _ message stepped =>
      exact ⟨_, rfl, nofun, nofun⟩
  | case5 position pending expected next after stepped ih =>
      exact ih (begun.step expected stepped)

/-- More bytes do not change what has been passed. -/
theorem Begun.receive (begun : Begun response position pending)
    (bound : (response ++ more).length ≤ limit) : Begun (response ++ more) position pending where
  inside := by
    rw [List.length_append]
    exact Nat.le_add_right_of_le begun.inside
  bound := bound
  few := begun.few
  counted := by
    intro rest counted
    rw [List.take_append_of_le_length begun.inside]
    exact begun.counted rest counted

/-- The bytes that calls of `recv` bring. -/
def payload (receives : List Recv) : Bytes :=
  receives.flatMap fun received =>
    match received with
    | .data chunk => chunk.bytes
    | _ => []

theorem receive_ok {rest : List Recv} {chunk : Chunk}
    (received : receive receives = (.ok chunk, rest)) :
    exists used, receives = used ++ rest ∧ payload used = chunk.bytes := by
  induction receives with
  | nil => cases received
  | cons first others ih =>
      cases first with
      | data other =>
          cases received
          exact ⟨[.data chunk], rfl, by simp [payload]⟩
      | interrupted =>
          rcases ih received with ⟨used, rfl, brought⟩
          exact ⟨.interrupted :: used, rfl, brought⟩
      | ended => cases received

/-- How a call may end: with a value that is all that was received, or with an
error after closing the connection. -/
structure Reads (receives : List Recv) (response : Bytes) (outcome : Outcome) : Prop where
  value : forall text, outcome.result = .ok text -> Counted 1 text ∧
    exists used, receives = used ++ outcome.unread ∧ text = response ++ payload used
  closed : forall message, outcome.result = .error message -> outcome.closed = true

theorem reads_fail (message : String) (unread : List Recv) :
    Reads receives response (fail message unread) :=
  ⟨nofun, fun _ _ => rfl⟩

theorem Begun.read (begun : Begun response position pending) :
    exists outcome, read receives response position pending = some outcome ∧
      Reads receives response outcome := by
  have top : limit = 16777216 := rfl
  fun_induction Client.read receives response position pending with
  | case1 receives response position pending drained =>
      rcases begun.drain with ⟨result, same, -⟩
      rw [drained] at same
      cases same
  | case2 receives response position pending message drained => exact ⟨_, rfl, reads_fail _ _⟩
  | case3 receives response position pending last drained other => exact ⟨_, rfl, reads_fail _ _⟩
  | case4 receives response position pending last drained whole =>
      rcases begun.drain with ⟨result, same, done, -⟩
      rw [drained] at same
      cases same
      have all := (done last rfl).counted [] .nil
      rw [not_not.mp whole, List.take_length, List.append_nil] at all
      refine ⟨_, rfl, fun text equal => ?_, nofun⟩
      cases equal
      exact ⟨all, [], rfl, (List.append_nil _).symm⟩
  | case5 receives response position pending last left drained message rest received =>
      exact ⟨_, rfl, reads_fail _ _⟩
  | case6 receives response position pending last left drained chunk rest received
      ih =>
      have small := chunk.small
      rcases begun.drain with ⟨result, same, -, waiting⟩
      rw [drained] at same
      cases same
      have begun := waiting last left rfl
      have bound := begun.bound
      rw [addSize_of_lt (by omega), Option.bind_some]
      split
      · exact ⟨_, rfl, reads_fail _ _⟩
      case isFalse within =>
        have longer : Begun (response ++ chunk.bytes) last left :=
          begun.receive (by rw [List.length_append]; omega)
        rcases ih longer with ⟨outcome, ran, reads⟩
        refine ⟨outcome, ran, fun text equal => ?_, reads.closed⟩
        rcases reads.value text equal with ⟨counted, used, rfl, isText⟩
        rcases receive_ok received with ⟨first, rfl, brought⟩
        refine ⟨counted, first ++ used, (List.append_assoc ..).symm, ?_⟩
        have both : payload (first ++ used) = payload first ++ payload used := List.flatMap_append
        rw [isText, both, brought, List.append_assoc]

/-! ### Every value is read -/

/-- The first part of a value has been received and the rest is to come. -/
structure Arriving (response more : Bytes) (position pending : Nat) : Prop where
  inside : position ≤ response.length
  bound : (response ++ more).length ≤ limit
  counted : Counted pending ((response ++ more).drop position)

theorem Arriving.step (arriving : Arriving response more position pending) (expected : pending ≠ 0) :
    step response position pending = some .incomplete ∧ more ≠ [] ∨
      exists next after, step response position pending = some (.next next after) ∧
        Arriving response more next after := by
  have bound := arriving.bound
  have cut : (response ++ more).drop position = response.drop position ++ more :=
    List.drop_append_of_le_length arriving.inside
  cases pending with
  | zero => exact absurd rfl expected
  | succ pending =>
      rcases arriving with ⟨inside, -, counted⟩
      generalize isWhole : (response ++ more).drop position = whole at counted
      cases counted with
      | @cons _ items piece rest element others =>
          rw [isWhole] at cut
          have lengths := congrArg List.length isWhole
          have few := others.le_length
          have within := bound
          rw [List.length_drop, List.length_append, List.length_append] at lengths
          rw [List.length_append] at within
          have passes : Passes response more rest piece position pending items :=
            step_element element cut.symm (by omega) (by omega)
          rcases passes with incomplete | ⟨tail, there, behind, stepped⟩
          · exact Or.inl incomplete
          · refine Or.inr ⟨_, _, stepped, (step_position stepped).2, bound, ?_⟩
            rw [<- List.drop_drop, isWhole, List.drop_left]
            exact others

theorem Arriving.drain (arriving : Arriving response more position pending) :
    (exists last left, drain response position pending = some (.waiting last left) ∧ more ≠ [] ∧
        Arriving response more last left) ∨
      more = [] ∧ drain response position pending = some (.done response.length) := by
  fun_induction Client.drain response position pending with
  | case1 position =>
      have bound := arriving.bound
      have inside := arriving.inside
      rcases arriving with ⟨-, -, counted⟩
      generalize isWhole : (response ++ more).drop position = whole at counted
      cases counted
      have used := List.drop_eq_nil_iff.mp isWhole
      rw [List.length_append] at used
      have nothing : more = [] := List.length_eq_zero_iff.mp (by omega)
      rw [nothing, List.length_nil] at used
      exact Or.inr ⟨nothing, congrArg (fun last => some (Drained.done last)) (by omega)⟩
  | case2 position pending expected stepped =>
      rcases arriving.step expected with ⟨same, -⟩ | ⟨next, after, same, -⟩
      · rw [stepped] at same
        cases same
      · rw [stepped] at same
        cases same
  | case3 position pending expected stepped =>
      rcases arriving.step expected with ⟨-, missing⟩ | ⟨next, after, same, -⟩
      · exact Or.inl ⟨position, pending, rfl, missing, arriving⟩
      · rw [stepped] at same
        cases same
  | case4 position pending expected message stepped =>
      rcases arriving.step expected with ⟨same, -⟩ | ⟨next, after, same, -⟩
      · rw [stepped] at same
        cases same
      · rw [stepped] at same
        cases same
  | case5 position pending expected next after stepped ih =>
      rcases arriving.step expected with ⟨same, -⟩ | ⟨other, left, same, moved⟩
      · rw [stepped] at same
        cases same
      · rw [stepped] at same
        cases same
        exact ih moved

/-- Where bytes are still to come the next call of `receive` brings some. -/
theorem receive_brings (lasts : Recv.ended ∉ receives) (something : payload receives ≠ []) :
    exists chunk rest, receive (receives ++ later) = (.ok chunk, rest ++ later) ∧
      rest.length < receives.length ∧ Recv.ended ∉ rest ∧
      payload receives = chunk.bytes ++ payload rest := by
  induction receives with
  | nil => exact absurd rfl something
  | cons first others ih =>
      rw [List.mem_cons, not_or] at lasts
      cases first with
      | data chunk =>
          exact ⟨chunk, others, rfl, Nat.lt_succ_self _, lasts.2, by simp [payload]⟩
      | interrupted =>
          rcases ih lasts.2 something with ⟨chunk, rest, received, shorter, more⟩
          exact ⟨chunk, rest, received, Nat.lt_succ_of_lt shorter, more⟩
      | ended => exact absurd rfl lasts.1

theorem Arriving.read (arriving : Arriving response (payload receives) position pending)
    (lasts : Recv.ended ∉ receives) :
    exists unread, read (receives ++ later) response position pending =
      some ⟨.ok (response ++ payload receives), false, unread⟩ ∧ later <:+ unread := by
  induction size : receives.length using Nat.strong_induction_on generalizing receives response
    position pending with
  | h size ih =>
      have top : limit = 16777216 := rfl
      unfold Client.read
      rcases arriving.drain with ⟨last, left, drained, missing, waiting⟩ | ⟨nothing, drained⟩
      · rcases @receive_brings receives later lasts missing with
          ⟨chunk, rest, received, shorter, remains, parts⟩
        have bound := waiting.bound
        rw [parts, <- List.append_assoc] at bound
        have arrived : (response ++ chunk.bytes).length ≤ limit := by
          rw [List.length_append] at bound
          omega
        have next : Arriving (response ++ chunk.bytes) (payload rest) last left := by
          refine ⟨?_, bound, ?_⟩
          · rw [List.length_append]
            exact Nat.le_add_right_of_le waiting.inside
          · rw [List.append_assoc, <- parts]
            exact waiting.counted
        rw [List.length_append] at arrived
        rcases ih rest.length (by omega) next remains rfl with ⟨unread, ran, keeps⟩
        refine ⟨unread, ?_, keeps⟩
        rw [drained]
        simp only
        split
        case h_1 message other failed =>
          rw [received] at failed
          cases failed
        case h_2 other others succeeded =>
          rw [received] at succeeded
          cases succeeded
          rw [addSize_of_lt (by omega), Option.bind_some, if_neg (Nat.not_lt.mpr arrived), ran, parts,
            List.append_assoc]
      · rw [drained, nothing, List.append_nil]
        simp only
        rw [if_neg (fun other => other rfl)]
        exact ⟨_, rfl, List.suffix_append receives later⟩

end Runs

/-- `Client::execute` reads one value, however it was cut, and returns nothing
but one value. -/
theorem execute_reads_one_value (command : List Bytes) (send : Bytes -> Except String Unit)
    (receives : List Recv) :
    exists outcome, execute command send receives = some outcome ∧
      (forall text, outcome.result = .ok text ->
        Complete text ∧ exists used, receives = used ++ outcome.unread ∧ text = payload used) ∧
      (forall message, outcome.result = .error message -> outcome.closed = true) ∧
      forall early later, send (clientRequest command) = .ok () -> receives = early ++ later ->
        Recv.ended ∉ early -> Complete (payload early) -> (payload early).length ≤ limit ->
        outcome.result = .ok (payload early) ∧ outcome.closed = false ∧ later <:+ outcome.unread := by
  unfold execute
  cases sent : send (clientRequest command) with
  | error message =>
      refine ⟨_, rfl, nofun, fun _ _ => rfl, ?_⟩
      intro early later impossible
      cases impossible
  | ok value =>
      rcases @Begun.read [] 0 1 receives begun_start with ⟨outcome, ran, reads⟩
      refine ⟨outcome, ran, ?_, reads.closed, ?_⟩
      · intro text returned
        rcases reads.value text returned with ⟨counted, used, split, isText⟩
        exact ⟨Resp.complete_iff_counted.mpr counted, used, split, isText⟩
      · rintro early later - rfl lasts complete bound
        have arriving : Arriving [] (payload early) 0 1 :=
          ⟨Nat.le_refl 0, bound, Resp.complete_iff_counted.mp complete⟩
        rcases @Arriving.read [] 0 1 early later arriving lasts with ⟨unread, same, keeps⟩
        rw [ran] at same
        cases same
        exact ⟨rfl, rfl, keeps⟩

/-- The nested reply of the client's test, in six fragments and with a signal
between two of them. -/
theorem execute_nested_reply :
    exists outcome, execute [ascii "PING"] (fun _ => .ok ())
        [.data ⟨ascii "*2\r", by decide, by decide⟩, .data ⟨ascii "\n$5\r\nh", by decide, by decide⟩,
          .interrupted, .data ⟨ascii "ello\r", by decide, by decide⟩,
          .data ⟨ascii "\n*2\r\n:", by decide, by decide⟩,
          .data ⟨ascii "-42\r\n$-1\r", by decide, by decide⟩,
          .data ⟨ascii "\n", by decide, by decide⟩] = some outcome ∧
      outcome.result = .ok (ascii "*2\r\n$5\r\nhello\r\n*2\r\n:-42\r\n$-1\r\n") := by
  have reads := execute_reads_one_value [ascii "PING"] (fun _ => .ok ())
    [.data ⟨ascii "*2\r", by decide, by decide⟩, .data ⟨ascii "\n$5\r\nh", by decide, by decide⟩,
      .interrupted, .data ⟨ascii "ello\r", by decide, by decide⟩,
      .data ⟨ascii "\n*2\r\n:", by decide, by decide⟩,
      .data ⟨ascii "-42\r\n$-1\r", by decide, by decide⟩, .data ⟨ascii "\n", by decide, by decide⟩]
  rcases reads with ⟨outcome, ran, -, -, complete⟩
  refine ⟨outcome, ran, (complete _ [] rfl (List.append_nil _).symm ?_ ?_ ?_).1⟩
  · simp
  · refine ⟨.array [.bulk (ascii "hello"), .array [.integer (-42), .nullBulk]], ?_⟩
    exact @Resp.Spells.array (ascii "2") _ [] 2 _ [] (by decide) (by decide)
      (@Resp.Spells.bulk (ascii "5") (ascii "hello") _ 5 _ (by decide) (by decide)
        (@Resp.Spells.array (ascii "2") _ [] 2 _ [] (by decide) (by decide)
          (@Resp.Spells.integer (ascii "-42") _ (-42) _ (by decide)
            (@Resp.Spells.nullBulk (ascii "-1") _ _ (by decide) .nil)) .nil)) .nil
  · decide

end Client

end Reddish
