import Mathlib

namespace Reddish
namespace Library

/-!
# Cyclic checksums as shift registers

A reflected cyclic checksum shifts a register to the right and adds the
polynomial whenever a one leaves it.  One shift is linear and, if the
polynomial has its highest coefficient, reversible.  Both facts carry over to
any number of shifts, and the usual table method is a consequence of the
first.  A message enters the register one bit at a time; as long as it is not
longer than the register, feeding it is adding it and shifting afterwards, so
that two messages of that length never leave the same register behind.
-/

namespace Crc

variable {w : Nat}

def shift (poly c : BitVec w) : BitVec w :=
  (c >>> 1) ^^^ (if c.getLsbD 0 then poly else 0#w)

variable {poly : BitVec w}

theorem shift_xor (x y : BitVec w) : shift poly (x ^^^ y) = shift poly x ^^^ shift poly y := by
  unfold shift
  rw [BitVec.ushiftRight_xor_distrib, BitVec.getLsbD_xor]
  cases x.getLsbD 0 with
  | false =>
      cases y.getLsbD 0 with
      | false => simp
      | true => simp [BitVec.xor_assoc]
  | true =>
      cases y.getLsbD 0 with
      | false =>
          simp only [Bool.xor_false, if_true, Bool.false_eq_true, if_false, BitVec.xor_zero]
          ac_rfl
      | true =>
          simp only [Bool.xor_true, Bool.not_true, Bool.false_eq_true, if_false, if_true,
            BitVec.xor_zero]
          calc
            x >>> 1 ^^^ y >>> 1 = x >>> 1 ^^^ y >>> 1 ^^^ (poly ^^^ poly) := by
              rw [BitVec.xor_self, BitVec.xor_zero]
            _ = x >>> 1 ^^^ poly ^^^ (y >>> 1 ^^^ poly) := by ac_rfl

theorem shifts_xor (n : Nat) (x y : BitVec w) :
    (shift poly)^[n] (x ^^^ y) = (shift poly)^[n] x ^^^ (shift poly)^[n] y := by
  induction n generalizing x y with
  | zero => rfl
  | succ n ih =>
      rw [Function.iterate_succ_apply, Function.iterate_succ_apply, Function.iterate_succ_apply,
        shift_xor, ih]

/-- Only the empty register becomes empty. -/
theorem shift_eq_zero (top : poly.msb = true) {c : BitVec w} (empty : shift poly c = 0#w) :
    c = 0#w := by
  unfold shift at empty
  cases low : c.getLsbD 0 with
  | true =>
      rw [low, if_pos rfl, BitVec.xor_eq_zero_iff] at empty
      have shifted : (c >>> 1).msb = false := by simp [BitVec.msb_ushiftRight]
      rw [empty, top] at shifted
      cases shifted
  | false =>
      rw [low, if_neg Bool.false_ne_true, BitVec.xor_zero] at empty
      apply BitVec.eq_of_getLsbD_eq
      intro i small
      cases i with
      | zero => rw [low, BitVec.getLsbD_zero]
      | succ i =>
          have bit := congrArg (fun register => register.getLsbD i) empty
          simp only [BitVec.getLsbD_ushiftRight, BitVec.getLsbD_zero] at bit
          rw [Nat.add_comm, bit, BitVec.getLsbD_zero]

theorem shift_injective (top : poly.msb = true) : Function.Injective (shift poly) := by
  intro x y same
  have difference : shift poly (x ^^^ y) = 0#w := by
    rw [shift_xor, same, BitVec.xor_self]
  exact BitVec.xor_eq_zero_iff.mp (shift_eq_zero top difference)

theorem shifts_injective (top : poly.msb = true) (n : Nat) :
    Function.Injective ((shift poly)^[n]) :=
  (shift_injective top).iterate n

/-- Zeros that leave the register change nothing else. -/
theorem shifts_of_low_zero (n : Nat) {c : BitVec w}
    (low : forall i, i < n -> c.getLsbD i = false) : (shift poly)^[n] c = c >>> n := by
  induction n generalizing c with
  | zero => simp
  | succ n ih =>
      have one : shift poly c = c >>> 1 := by
        rw [shift, low 0 (Nat.succ_pos n), if_neg Bool.false_ne_true, BitVec.xor_zero]
      rw [Function.iterate_succ_apply, one, ih, <- BitVec.shiftRight_add,
        Nat.add_comm]
      intro i small
      rw [BitVec.getLsbD_ushiftRight]
      exact low (1 + i) (by omega)

/-- The table method: the shifts of the low part are looked up, the rest only
moves. -/
theorem shifts_split (n : Nat) (mask c : BitVec w)
    (isMask : forall i, mask.getLsbD i = decide (i < n ∧ i < w)) :
    (shift poly)^[n] c = (shift poly)^[n] (c &&& mask) ^^^ (c >>> n) := by
  have whole : c = (c &&& mask) ^^^ (c &&& ~~~ mask) := by
    apply BitVec.eq_of_getLsbD_eq
    intro i small
    simp only [BitVec.getLsbD_xor, BitVec.getLsbD_and, BitVec.getLsbD_not, small, decide_true,
      Bool.true_and]
    cases c.getLsbD i with
    | false => rfl
    | true =>
        cases mask.getLsbD i with
        | false => rfl
        | true => rfl
  have high : (shift poly)^[n] (c &&& ~~~ mask) = (c &&& ~~~ mask) >>> n := by
    apply shifts_of_low_zero
    intro i small
    simp only [BitVec.getLsbD_and, BitVec.getLsbD_not, isMask, small, true_and]
    by_cases inside : i < w
    · simp [inside]
    · simp [inside]
  have moved : (c &&& ~~~ mask) >>> n = c >>> n := by
    apply BitVec.eq_of_getLsbD_eq
    intro i small
    simp only [BitVec.getLsbD_ushiftRight, BitVec.getLsbD_and, BitVec.getLsbD_not, isMask]
    by_cases inside : n + i < w
    · simp [inside]
    · simp [inside, BitVec.getLsbD_of_ge c (n + i) (Nat.not_lt.mp inside)]
  conv_lhs => rw [whole]
  rw [shifts_xor, high, moved]

/-! ## Messages -/

/-- A single bit at the low end of a register. -/
def bit (value : Bool) : BitVec w :=
  if value then 1#w else 0#w

/-- A bit of a message is added at the low end before the register shifts. -/
def feed (poly c : BitVec w) (value : Bool) : BitVec w :=
  shift poly (c ^^^ bit value)

/-- A message as the contents of a register, with its first bit lowest. -/
def word : List Bool -> BitVec w
  | [] => 0#w
  | value :: rest => bit value ^^^ (word rest <<< 1)

theorem getLsbD_bit (value : Bool) (i : Nat) :
    (bit value : BitVec w).getLsbD i = (decide (i = 0 ∧ i < w) && value) := by
  cases value with
  | false => simp [bit]
  | true =>
      rw [bit, if_pos rfl, BitVec.getLsbD_one, Bool.and_true, <- Bool.decide_and]
      by_cases low : i = 0
      · subst low
        simp
      · simp [low]

theorem getLsbD_word (message : List Bool) : forall i,
    (word message : BitVec w).getLsbD i = (decide (i < w) && message.getD i false) := by
  induction message with
  | nil => simp [word]
  | cons value rest ih =>
      intro i
      rw [word, BitVec.getLsbD_xor, getLsbD_bit, BitVec.getLsbD_shiftLeft, ih]
      cases i with
      | zero => simp
      | succ i =>
          by_cases inside : i + 1 < w
          · have before : i < w := by omega
            simp [inside, before]
          · simp [inside]

/-- Messages that fit the register are told apart by it. -/
theorem word_injective {first second : List Bool} (length : first.length = second.length)
    (short : first.length ≤ w) (same : (word first : BitVec w) = word second) :
    first = second := by
  refine List.ext_getElem length fun i inside other => ?_
  have bits := congrArg (fun register => register.getLsbD i) same
  simp only [getLsbD_word] at bits
  rw [decide_eq_true (Nat.lt_of_lt_of_le inside short), Bool.true_and, Bool.true_and,
    List.getD_eq_getElem _ _ inside, List.getD_eq_getElem _ _ other] at bits
  exact bits

/-- A register that was moved away from the low end comes back. -/
theorem shift_shiftLeft {c : BitVec w} (top : c.msb = false) : shift poly (c <<< 1) = c := by
  have low : (c <<< 1).getLsbD 0 = false := by simp
  rw [shift, low, if_neg Bool.false_ne_true, BitVec.xor_zero]
  apply BitVec.eq_of_getLsbD_eq
  intro i inside
  rw [BitVec.getLsbD_ushiftRight, BitVec.getLsbD_shiftLeft]
  by_cases last : 1 + i < w
  · simp [last]
  · have position : i = w - 1 := by omega
    rw [BitVec.msb_eq_getLsbD_last] at top
    rw [position, top]
    simp
    omega

/-- Feeding a message that fits is adding it and shifting. -/
theorem feed_eq_shifts (message : List Bool) : forall c : BitVec w, message.length ≤ w ->
    message.foldl (feed poly) c = (shift poly)^[message.length] (c ^^^ word message) := by
  induction message with
  | nil =>
      intro c _
      rw [word, BitVec.xor_zero]
      rfl
  | cons value rest ih =>
      intro c short
      rw [List.length_cons] at short ⊢
      have clear : (word rest : BitVec w).msb = false := by
        rw [BitVec.msb_eq_getLsbD_last, getLsbD_word, List.getD_eq_default _ _ (by omega),
          Bool.and_false]
      rw [List.foldl_cons, ih _ (by omega), Function.iterate_succ_apply, word,
        <- BitVec.xor_assoc, shift_xor, shift_shiftLeft clear]
      rfl

theorem feed_injective (top : poly.msb = true) (value : Bool) {c d : BitVec w}
    (same : feed poly c value = feed poly d value) : c = d :=
  (BitVec.xor_left_inj _).mp (shift_injective top same)

/-- Registers that differ stay different. -/
theorem feeds_injective (top : poly.msb = true) (message : List Bool) {c d : BitVec w}
    (same : message.foldl (feed poly) c = message.foldl (feed poly) d) : c = d := by
  induction message generalizing c d with
  | nil => exact same
  | cons value rest ih => exact feed_injective top value (ih same)

/-- Messages that differ in a part no longer than the register leave different
registers behind. -/
theorem feeds_burst (top : poly.msb = true) (c : BitVec w) {first second : List Bool}
    (length : first.length = second.length) (short : first.length ≤ w) (before after : List Bool)
    (same : (before ++ first ++ after).foldl (feed poly) c =
      (before ++ second ++ after).foldl (feed poly) c) : first = second := by
  rw [List.foldl_append, List.foldl_append, List.foldl_append, List.foldl_append] at same
  have registers := feeds_injective top after same
  rw [feed_eq_shifts first _ short, feed_eq_shifts second _ (length ▸ short), <- length] at registers
  have words := (BitVec.xor_right_inj _).mp (shifts_injective top _ registers)
  exact word_injective length short words

end Crc

end Library
end Reddish
