import Reddish.Wal.Corruption

namespace Reddish
namespace Wal

open Library Numeral

/-!
# Short bursts of errors

The checksum of a payload is the reflected CRC-32 of its bits.  The table is
only a way to shift the register eight places at once, and a burst that is not
longer than the register changes it for good.
-/

/-- The bits of a byte, least significant first. -/
def byteBits (byte : UInt8) : List Bool :=
  (List.range 8).map byte.toNat.testBit

/-- A payload as a bit string. -/
def bitsOf (bytes : Bytes) : List Bool :=
  bytes.flatMap byteBits

/-- One bit of the reflected CRC-32: the low end of the register and the bit of
the message decide whether the polynomial is added. -/
def reflectedBit (c : UInt32) (bit : Bool) : UInt32 :=
  (c >>> 1) ^^^ (if xor (decide (c &&& 1 = 1)) bit then 0xEDB88320 else 0)

/-- The reflected CRC-32 of a bit string, as it is defined. -/
def reflectedCrc32 (bits : List Bool) : UInt32 :=
  bits.foldl reflectedBit 0xFFFFFFFF ^^^ 0xFFFFFFFF

/-- Two payloads of the same length that differ in some of 32 consecutive bits
and in no other ones. -/
structure Burst (first second : Bytes) (start : Nat) : Prop where
  length : first.length = second.length
  outside : forall i : Nat, i < start ∨ start + 32 ≤ i -> (bitsOf first)[i]? = (bitsOf second)[i]?
  inside : exists i : Nat, (bitsOf first)[i]? ≠ (bitsOf second)[i]?

variable {first second : Bytes} {start : Nat}

theorem length_byteBits (byte : UInt8) : (byteBits byte).length = 8 := by
  rw [byteBits, List.length_map, List.length_range]

theorem length_bitsOf (bytes : Bytes) : (bitsOf bytes).length = 8 * bytes.length := by
  induction bytes with
  | nil => rfl
  | cons byte rest ih =>
      rw [bitsOf, List.flatMap_cons, List.length_append, length_byteBits]
      change 8 + (bitsOf rest).length = _
      rw [ih, List.length_cons]
      omega

/-! ## The register -/

theorem toBitVec_reflectedBit (c : UInt32) (bit : Bool) :
    (reflectedBit c bit).toBitVec = Crc.feed crcPoly c.toBitVec bit := by
  have moved : (c.toBitVec ^^^ Crc.bit bit) >>> 1 = c.toBitVec >>> 1 := by
    rw [BitVec.ushiftRight_xor_distrib]
    cases bit with
    | false => exact BitVec.xor_zero
    | true => exact BitVec.xor_zero
  have low : decide (c &&& 1 = 1) = c.toBitVec.getLsbD 0 := by
    rw [Bool.eq_iff_iff, decide_eq_true_iff]
    exact and_one_eq_one_iff c
  unfold reflectedBit Crc.feed Crc.shift
  have entered : (c.toBitVec ^^^ Crc.bit bit).getLsbD 0 = xor (c.toBitVec.getLsbD 0) bit := by
    rw [BitVec.getLsbD_xor, Crc.getLsbD_bit]
    rfl
  rw [UInt32.toBitVec_xor, moved, low, entered]
  cases xor (c.toBitVec.getLsbD 0) bit with
  | false => rfl
  | true => rfl

theorem toBitVec_reflectedBits (bits : List Bool) : forall c : UInt32,
    (bits.foldl reflectedBit c).toBitVec = bits.foldl (Crc.feed crcPoly) c.toBitVec := by
  induction bits with
  | nil => exact fun c => rfl
  | cons bit rest ih =>
      intro c
      rw [List.foldl_cons, ih, toBitVec_reflectedBit, List.foldl_cons]

theorem word_byteBits (byte : UInt8) :
    (Crc.word (byteBits byte) : BitVec 32) = byte.toUInt32.toBitVec := by
  apply BitVec.eq_of_getLsbD_eq
  intro i inside
  rw [Crc.getLsbD_word, decide_eq_true inside, Bool.true_and, <- BitVec.testBit_toNat,
    UInt32.toNat_toBitVec, UInt8.toNat_toUInt32]
  by_cases low : i < 8
  · rw [List.getD_eq_getElem _ _ (by rw [length_byteBits]; exact low)]
    simp [byteBits]
  · have high : 2 ^ 8 ≤ 2 ^ i := Nat.pow_le_pow_right (by decide) (Nat.not_lt.mp low)
    rw [List.getD_eq_default _ _ (by rw [length_byteBits]; exact Nat.not_lt.mp low),
      Nat.testBit_lt_two_pow (Nat.lt_of_lt_of_le byte.toNat_lt high)]

/-- A byte from the table is eight bits of the message. -/
theorem crcByte_bits (c : UInt32) (byte : UInt8) :
    crcByte c byte = (byteBits byte).foldl reflectedBit c := by
  have short : (byteBits byte).length ≤ 32 := by
    rw [length_byteBits]
    decide
  apply UInt32.toBitVec_inj.mp
  rw [crcByte_eq, toBitVec_crcEntry, UInt32.toBitVec_xor, toBitVec_reflectedBits,
    Crc.feed_eq_shifts _ _ short, word_byteBits, length_byteBits]

theorem crc_bits (bytes : Bytes) : crc bytes = reflectedCrc32 (bitsOf bytes) := by
  have registers : forall c, bytes.foldl crcByte c = (bitsOf bytes).foldl reflectedBit c := by
    induction bytes with
    | nil => exact fun c => rfl
    | cons byte rest ih =>
        intro c
        rw [List.foldl_cons, ih, crcByte_bits, bitsOf, bitsOf, List.flatMap_cons,
          List.foldl_append]
  rw [crc, reflectedCrc32, registers]
  apply UInt32.toBitVec_inj.mp
  rw [UInt32.toBitVec_not, UInt32.toBitVec_xor, <- BitVec.xor_allOnes]
  rfl

/-! ## Bursts -/

/-- Bit strings that agree outside a window are the same before and behind
it. -/
theorem window_split {left right : List Bool} (length : left.length = right.length) (width : Nat)
    (outside : forall i : Nat, i < start ∨ start + width ≤ i -> left[i]? = right[i]?) :
    exists before after x y, left = before ++ x ++ after ∧ right = before ++ y ++ after ∧
      x.length = y.length ∧ x.length ≤ width := by
  have before : left.take start = right.take start := by
    refine List.ext_getElem? fun i => ?_
    rw [List.getElem?_take, List.getElem?_take]
    by_cases early : i < start
    · rw [if_pos early, if_pos early, outside i (Or.inl early)]
    · rw [if_neg early, if_neg early]
  have after : left.drop (start + width) = right.drop (start + width) := by
    refine List.ext_getElem? fun i => ?_
    rw [List.getElem?_drop, List.getElem?_drop, outside _ (Or.inr (by omega))]
  have parts : forall bits : List Bool,
      bits = bits.take start ++ (bits.drop start).take width ++ bits.drop (start + width) := by
    intro bits
    rw [List.append_assoc, <- List.drop_drop, List.take_append_drop, List.take_append_drop]
  refine ⟨left.take start, left.drop (start + width), (left.drop start).take width,
    (right.drop start).take width, parts left, ?_, ?_, ?_⟩
  · rw [before, after]
    exact parts right
  · rw [List.length_take, List.length_take, List.length_drop, List.length_drop, length]
  · rw [List.length_take]
    exact Nat.min_le_left _ _

theorem crc_burst (burst : Burst first second start) : crc first ≠ crc second := by
  intro same
  rw [crc_bits, crc_bits] at same
  have length : (bitsOf first).length = (bitsOf second).length := by
    rw [length_bitsOf, length_bitsOf, burst.length]
  rcases window_split length 32 burst.outside with ⟨before, after, x, y, left, right, sizes, short⟩
  have registers := congrArg UInt32.toBitVec ((UInt32.xor_left_inj _).mp same)
  rw [toBitVec_reflectedBits, toBitVec_reflectedBits, left, right] at registers
  have equal := Crc.feeds_burst (by decide) _ sizes short before after registers
  rcases burst.inside with ⟨i, different⟩
  exact different (by rw [left, right, equal])

/-- The checksum is the reflected CRC-32 of the bits of a payload, and it
changes with every burst of at most 32 bits. -/
theorem crc_detects_bursts :
    (forall bytes, crc bytes = reflectedCrc32 (bitsOf bytes)) ∧
      forall first second start, Burst first second start -> crc first ≠ crc second :=
  ⟨crc_bits, fun _ _ _ => crc_burst⟩

/-- Five bytes with a burst that starts and ends inside a byte. -/
theorem crc_detects_bursts_across :
    Burst [0x10, 0, 0, 0, 0x08] [0, 0, 0, 0, 0] 4 ∧
      crc [0x10, 0, 0, 0, 0x08] ≠ crc [0, 0, 0, 0, 0] := by
  have burst : Burst [0x10, 0, 0, 0, 0x08] [0, 0, 0, 0, 0] 4 := by
    refine ⟨rfl, fun i outside => ?_, ⟨4, by decide⟩⟩
    rcases outside with early | late
    · have table : forall i : Fin 4, (bitsOf [0x10, 0, 0, 0, 0x08])[i.val]? =
          (bitsOf [0, 0, 0, 0, 0])[i.val]? := by decide
      exact table ⟨i, early⟩
    · by_cases inside : i < 40
      · have table : forall i : Fin 40, 36 ≤ i.val -> (bitsOf [0x10, 0, 0, 0, 0x08])[i.val]? =
            (bitsOf [0, 0, 0, 0, 0])[i.val]? := by decide
        exact table ⟨i, inside⟩ late
      · rw [List.getElem?_eq_none (by rw [length_bitsOf]; exact Nat.not_lt.mp inside),
          List.getElem?_eq_none (by rw [length_bitsOf]; exact Nat.not_lt.mp inside)]
  exact ⟨burst, crc_detects_bursts.2 _ _ _ burst⟩

end Wal
end Reddish
