import Mathlib

namespace Reddish
namespace Library

/-!
# Numbers written as bytes

Two notations are used by the code: fixed-width little-endian words, which
always round trip modulo their width, and decimal text, where reading accepts
more spellings than writing produces.  For decimal text only one direction is
an equation, so the reader is also characterised by the value it computes.
-/

/-- The bytes of a string, a file or a message. -/
abbrev Bytes := List UInt8

namespace Numeral

/-! ## Little-endian words -/

/-- Subtraction of 32-bit words. -/
def sub32 (a b : Nat) : Nat :=
  (a + (2 ^ 32 - b % 2 ^ 32)) % 2 ^ 32

theorem sub32_of_le {a b : Nat} (le : b ≤ a) (small : a < 2 ^ 32) : sub32 a b = a - b := by
  unfold sub32
  omega

/-- The lowest `width` base-256 digits, least significant first. -/
def leBytes : Nat -> Nat -> Bytes
  | 0, _ => []
  | width + 1, n => UInt8.ofNat n :: leBytes width (n / 256)

/-- The number whose base-256 digits are the given bytes. -/
def leNat : Bytes -> Nat
  | [] => 0
  | byte :: rest => byte.toNat + 256 * leNat rest

@[simp] theorem length_leBytes (width n : Nat) : (leBytes width n).length = width := by
  induction width generalizing n with
  | zero => rfl
  | succ width ih =>
      simp only [leBytes, List.length_cons, ih]

theorem leNat_lt (bytes : Bytes) : leNat bytes < 256 ^ bytes.length := by
  induction bytes with
  | nil => simp [leNat]
  | cons byte rest ih =>
      have small := byte.toNat_lt
      simp only [leNat, List.length_cons, Nat.pow_succ]
      omega

theorem leNat_append (first second : Bytes) :
    leNat (first ++ second) = leNat first + 256 ^ first.length * leNat second := by
  induction first with
  | nil => simp [leNat]
  | cons byte rest ih =>
      rw [List.cons_append, leNat, ih, leNat, List.length_cons, Nat.pow_succ]
      ring

theorem leNat_leBytes (width n : Nat) : leNat (leBytes width n) = n % 256 ^ width := by
  induction width generalizing n with
  | zero => simp [leBytes, leNat, Nat.mod_one]
  | succ width ih =>
      have low : (UInt8.ofNat n).toNat = n % 256 := UInt8.toNat_ofNat'
      simp only [leBytes, leNat, ih, low]
      rw [show 256 ^ (width + 1) = 256 * 256 ^ width from Nat.pow_succ', Nat.mod_mul]

theorem leNat_leBytes_of_lt {width n : Nat} (small : n < 256 ^ width) :
    leNat (leBytes width n) = n := by
  rw [leNat_leBytes, Nat.mod_eq_of_lt small]

theorem leBytes_leNat (bytes : Bytes) : leBytes bytes.length (leNat bytes) = bytes := by
  induction bytes with
  | nil => rfl
  | cons byte rest ih =>
      have small := byte.toNat_lt
      have quotient : (byte.toNat + 256 * leNat rest) / 256 = leNat rest := by omega
      simp only [List.length_cons, leBytes, leNat, quotient, ih]
      congr 1
      apply UInt8.toNat_inj.mp
      rw [UInt8.toNat_ofNat']
      omega

theorem leBytes_injective {width m n : Nat} (mSmall : m < 256 ^ width) (nSmall : n < 256 ^ width)
    (same : leBytes width m = leBytes width n) : m = n := by
  rw [← leNat_leBytes_of_lt mSmall, same, leNat_leBytes_of_lt nSmall]

/-- Placing a digit group above smaller ones by a shift is an addition. -/
theorem or_shiftLeft_of_lt {x y k : Nat} (small : x < 2 ^ k) :
    x ||| (y <<< k) = x + y * 2 ^ k := by
  rw [Nat.shiftLeft_eq, Nat.mul_comm, Nat.or_comm, ← Nat.two_pow_add_eq_or_of_lt small]
  omega

/-! ## Decimal text -/

def digitByte (digit : Nat) : UInt8 :=
  UInt8.ofNat (48 + digit)

/-- The decimal spelling of a natural number, without leading zeros. -/
def decimal (n : Nat) : Bytes :=
  if n = 0 then [48] else (Nat.digits 10 n).reverse.map digitByte

def digitValue (byte : UInt8) : Option Nat :=
  if 48 ≤ byte.toNat ∧ byte.toNat ≤ 57 then some (byte.toNat - 48) else none

/-- Continue reading digits after the value `sofar`; every byte must be one. -/
def digitsFrom (sofar : Nat) : Bytes -> Option Nat
  | [] => some sofar
  | byte :: rest =>
      match digitValue byte with
      | some digit => digitsFrom (sofar * 10 + digit) rest
      | none => none

/-- Read a nonempty text of digits. -/
def parseDigits : Bytes -> Option Nat
  | [] => none
  | byte :: rest => digitsFrom 0 (byte :: rest)

theorem digitValue_digitByte {digit : Nat} (small : digit < 10) :
    digitValue (digitByte digit) = some digit := by
  have value : (digitByte digit).toNat = 48 + digit := by
    rw [digitByte, UInt8.toNat_ofNat']
    omega
  rw [digitValue, value, if_pos (by omega)]
  congr 1
  omega

theorem digitsFrom_map (digits : List Nat) (small : forall digit, digit ∈ digits -> digit < 10)
    (sofar : Nat) :
    digitsFrom sofar (digits.map digitByte) =
      some (digits.foldl (fun value digit => value * 10 + digit) sofar) := by
  induction digits generalizing sofar with
  | nil => rfl
  | cons head tail ih =>
      have headSmall := small head (List.mem_cons.mpr (Or.inl rfl))
      simp only [List.map_cons, digitsFrom, digitValue_digitByte headSmall, List.foldl_cons]
      exact ih (fun digit member =>
        small digit (List.mem_cons.mpr (Or.inr member))) _

theorem foldl_digits (n : Nat) :
    (Nat.digits 10 n).reverse.foldl (fun value digit => value * 10 + digit) 0 = n := by
  rw [List.foldl_reverse]
  have value := Nat.ofDigits_digits 10 n
  rw [Nat.ofDigits_eq_foldr] at value
  refine Eq.trans ?_ value
  congr 1
  funext digit rest
  simp only [Nat.cast_id]
  omega

theorem decimal_ne_nil (n : Nat) : decimal n ≠ [] := by
  unfold decimal
  by_cases zero : n = 0
  · rw [if_pos zero]
    exact List.cons_ne_nil _ _
  · rw [if_neg zero]
    simp [Nat.digits_ne_nil_iff_ne_zero, zero]

theorem parseDigits_of_ne_nil {text : Bytes} (nonempty : text ≠ []) :
    parseDigits text = digitsFrom 0 text := by
  cases text with
  | nil => exact False.elim (nonempty rfl)
  | cons byte rest => rfl

theorem parseDigits_decimal (n : Nat) : parseDigits (decimal n) = some n := by
  rw [parseDigits_of_ne_nil (decimal_ne_nil n)]
  unfold decimal
  by_cases zero : n = 0
  · subst zero
    rfl
  · rw [if_neg zero, digitsFrom_map _ (fun digit member => ?_), foldl_digits]
    exact Nat.digits_lt_base (by decide) (List.mem_reverse.mp member)

/-- Decimal text consists of digit characters only. -/
theorem digit_of_mem_decimal {n : Nat} {byte : UInt8} (member : byte ∈ decimal n) :
    48 ≤ byte.toNat ∧ byte.toNat ≤ 57 := by
  unfold decimal at member
  by_cases zero : n = 0
  · rw [if_pos zero] at member
    rw [List.mem_singleton.mp member]
    decide
  · rw [if_neg zero] at member
    rcases List.mem_map.mp member with ⟨digit, found, equal⟩
    have small : digit < 10 := Nat.digits_lt_base (by decide) (List.mem_reverse.mp found)
    rw [← equal, digitByte, UInt8.toNat_ofNat']
    omega

/-! ## Signed 64-bit integers as text -/

def minusByte : UInt8 := 45

def decimalInt (n : Int) : Bytes :=
  if n < 0 then minusByte :: decimal n.natAbs else decimal n.natAbs

/-- Read a whole text as a signed 64-bit integer: an optional minus sign and
digits, rejecting values outside the range. -/
def parseInt64 : Bytes -> Option Int64
  | [] => none
  | byte :: rest =>
      if byte = minusByte then
        match parseDigits rest with
        | some n => if n ≤ 2 ^ 63 then some (Int64.ofInt (-(n : Int))) else none
        | none => none
      else
        match parseDigits (byte :: rest) with
        | some n => if n < 2 ^ 63 then some (Int64.ofInt (n : Int)) else none
        | none => none

/-- Every 64-bit integer is read back from its own spelling. -/
theorem parseInt64_decimalInt (n : Int64) : parseInt64 (decimalInt n.toInt) = some n := by
  have lower := n.le_toInt
  have upper := n.toInt_lt
  unfold decimalInt
  by_cases negative : n.toInt < 0
  · rw [if_pos negative]
    have size : n.toInt.natAbs ≤ 2 ^ 63 := by omega
    have value : -(n.toInt.natAbs : Int) = n.toInt := by omega
    simp only [parseInt64, if_true, parseDigits_decimal, size, value, Int64.ofInt_toInt]
  · rw [if_neg negative]
    have size : n.toInt.natAbs < 2 ^ 63 := by omega
    have value : (n.toInt.natAbs : Int) = n.toInt := by omega
    cases text : decimal n.toInt.natAbs with
    | nil => exact False.elim (decimal_ne_nil _ text)
    | cons byte rest =>
        have member : byte ∈ decimal n.toInt.natAbs := by
          rw [text]
          exact List.mem_cons_self
        have digit := digit_of_mem_decimal member
        have notMinus : byte ≠ minusByte := by
          intro equal
          rw [equal] at digit
          revert digit
          decide
        simp only [parseInt64, if_neg notMinus]
        rw [← text, parseDigits_decimal]
        simp only [size, if_true, value, Int64.ofInt_toInt]

theorem length_decimal_le {n digits : Nat} (positive : 0 < digits) (small : n < 10 ^ digits) :
    (decimal n).length ≤ digits := by
  unfold decimal
  split
  · exact positive
  · rw [List.length_map, List.length_reverse]
    exact (Nat.digits_length_le_iff (by decide) n).mpr small

/-- A 64-bit integer has at most nineteen digits and a sign. -/
theorem length_decimalInt_le (n : Int64) : (decimalInt n.toInt).length ≤ 20 := by
  have lower := n.le_toInt
  have upper := n.toInt_lt
  have digits : (decimal n.toInt.natAbs).length ≤ 19 :=
    length_decimal_le (by decide) (show n.toInt.natAbs < 10 ^ 19 by omega)
  unfold decimalInt
  split
  · exact Nat.succ_le_succ digits
  · exact Nat.le_succ_of_le digits

end Numeral

end Library
end Reddish
