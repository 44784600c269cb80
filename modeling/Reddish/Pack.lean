import Reddish.Library.Numeral
import Reddish.Library.Buffer

namespace Reddish

open Library Numeral

/-!
# The packed element codec

Lists and small hashes store their elements as one run of bytes.  An element
is a header, its contents and, in lists, the length of both once more at the
end, written so that it can be read backwards.  The size functions are
separate from the encoder, as in the source, and are shown to agree with it.
-/

/-- A string or a 64-bit integer.  The source has one such type for each
place it is used in (`Value`, `ElementInput`, `HashValue`, `pack::Element`). -/
inductive Value where
  | text (bytes : Bytes)
  | integer (n : Int64)
  deriving DecidableEq

namespace Pack

def integerTag : UInt8 := 0x80
def longStringTag : UInt8 := 0xC0
def maxStringHeader : Nat := 5

/-- `load_u32`, on a little-endian machine. -/
def loadU32 (p : Bytes) : Nat :=
  leNat (p.take 4)

def storeU32 (n : Nat) : Bytes :=
  leBytes 4 n

/-- `load_u64` followed by the cast to a signed integer. -/
def loadI64 (p : Bytes) : Int64 :=
  (UInt64.ofNat (leNat (p.take 8))).toInt64

/-- The cast to an unsigned integer followed by `store_u64`. -/
def storeI64 (n : Int64) : Bytes :=
  leBytes 8 n.toUInt64.toNat

/-- `header_and_payload`: the size of the element at `p` without its length
suffix, read from the header. -/
def headerAndPayload (p : Bytes) : Nat :=
  let tag := p.getD 0 0
  if tag &&& 0x80 = 0 then 1 + (tag &&& 0x7F).toNat
  else if tag &&& 0xC0 = integerTag then 1 + 8
  else maxStringHeader + loadU32 (p.drop 1)

/-- `backlen_bytes`: the width of the length suffix. -/
def backlenBytes (size : Nat) : Nat :=
  if size ≤ 127 then 1
  else if size < 16384 then 2
  else if size < 2097152 then 3
  else if size < 268435456 then 4
  else 5

/-- `body_size`: header and contents. -/
def bodySize : Value -> Nat
  | .text bytes => (if bytes.length ≤ 127 then 1 else maxStringHeader) + bytes.length
  | .integer _ => 1 + 8

/-- `encoded_size`: header, contents and length suffix. -/
def encodedSize : Value -> Nat
  | .text bytes =>
      let header := if bytes.length ≤ 127 then 1 else maxStringHeader
      let body := header + bytes.length
      body + backlenBytes body
  | .integer _ =>
      let body := 1 + 8
      body + backlenBytes body

/-- A length group that is followed by another one when read backwards. -/
def continued (size : Nat) : UInt8 :=
  UInt8.ofNat ((size &&& 0x7F) ||| 0x80)

/-- `encode_backlen`: seven bits a byte, most significant group first; all
but the first byte carry the continuation bit. -/
def encodeBacklen (size : Nat) : Bytes :=
  if size ≤ 127 then [UInt8.ofNat size]
  else if size < 16384 then [UInt8.ofNat (size >>> 7), continued size]
  else if size < 2097152 then
    [UInt8.ofNat (size >>> 14), continued (size >>> 7), continued size]
  else if size < 268435456 then
    [UInt8.ofNat (size >>> 21), continued (size >>> 14), continued (size >>> 7), continued size]
  else
    [UInt8.ofNat (size >>> 28), continued (size >>> 21), continued (size >>> 14),
      continued (size >>> 7), continued size]

def encodeBody : Value -> Bytes
  | .text bytes =>
      if bytes.length ≤ 127 then UInt8.ofNat bytes.length :: bytes
      else longStringTag :: (storeU32 bytes.length ++ bytes)
  | .integer n => integerTag :: storeI64 n

/-- `encode`: the body and, behind it, its length. -/
def encode (value : Value) : Bytes :=
  let body := encodeBody value
  body ++ encodeBacklen body.length

def elementSize (p : Bytes) : Nat :=
  headerAndPayload p

/-- `stride`: the distance to the next element of a list. -/
def stride (p : Bytes) : Nat :=
  let body := headerAndPayload p
  body + backlenBytes body

/-- The loop of `decode_backlen` on the bytes before `end`, last byte first. -/
def decodeBacklenLoop : Bytes -> Nat -> Nat -> Nat
  | [], value, _ => value
  | byte :: rest, value, shift =>
      let value := value ||| ((byte &&& 0x7F).toNat <<< shift)
      if byte &&& 0x80 = 0 then value else decodeBacklenLoop rest value (shift + 7)

/-- `decode_backlen`: the length suffix that ends where `before` ends. -/
def decodeBacklen (before : Bytes) : Nat :=
  decodeBacklenLoop before.reverse 0 0

/-- `decode`: the element at `p`. -/
def decode (p : Bytes) : Value :=
  let tag := p.getD 0 0
  if tag &&& 0x80 = 0 then .text ((p.drop 1).take (tag &&& 0x7F).toNat)
  else if tag &&& 0xC0 = integerTag then .integer (loadI64 (p.drop 1))
  else .text ((p.drop maxStringHeader).take (loadU32 (p.drop 1)))

/-! ## Bytes as groups of seven bits -/

private theorem and_0x80_eq_zero_iff (byte : UInt8) : byte &&& 0x80 = 0 <-> byte.toNat < 128 := by
  have table : forall n : Fin 256, UInt8.ofNat n.val &&& 0x80 = 0 <-> n.val < 128 := by
    decide +kernel
  have entry := table ⟨byte.toNat, byte.toNat_lt⟩
  rw [UInt8.ofNat_toNat] at entry
  exact entry

private theorem toNat_and_0x7F (byte : UInt8) : (byte &&& 0x7F).toNat = byte.toNat % 128 := by
  rw [UInt8.toNat_and]
  exact Nat.and_two_pow_sub_one_eq_mod byte.toNat 7

private theorem toNat_continued (size : Nat) : (continued size).toNat = size % 128 + 128 := by
  have low : size &&& 0x7F = size % 128 := Nat.and_two_pow_sub_one_eq_mod size 7
  have small : size % 128 < 2 ^ 7 := Nat.mod_lt _ (by decide)
  have sum : size % 128 ||| 0x80 = size % 128 + 128 := by
    have shifted := @or_shiftLeft_of_lt _ 1 7 small
    exact shifted
  rw [continued, low, sum, UInt8.toNat_ofNat']
  omega

theorem length_encodeBacklen (size : Nat) : (encodeBacklen size).length = backlenBytes size := by
  unfold encodeBacklen backlenBytes
  split_ifs <;> rfl

/-- A continued group goes on to the bytes before it. -/
private theorem decodeBacklenLoop_continued (size value shift : Nat) (rest : Bytes)
    (small : value < 2 ^ shift) :
    decodeBacklenLoop (continued size :: rest) value shift =
      decodeBacklenLoop rest (value + size % 128 * 2 ^ shift) (shift + 7) := by
  have notLast : ¬ (continued size &&& 0x80 = 0) := by
    rw [and_0x80_eq_zero_iff, toNat_continued]
    omega
  have group : (continued size &&& 0x7F).toNat = size % 128 := by
    rw [toNat_and_0x7F, toNat_continued]
    omega
  rw [decodeBacklenLoop]
  simp only [if_neg notLast, group]
  rw [or_shiftLeft_of_lt small]

/-- The first byte of a suffix stops the loop, whatever precedes it. -/
private theorem decodeBacklenLoop_last {size value shift : Nat} (rest : Bytes)
    (small : value < 2 ^ shift) (top : size < 128) :
    decodeBacklenLoop (UInt8.ofNat size :: rest) value shift = value + size * 2 ^ shift := by
  have number : (UInt8.ofNat size).toNat = size := UInt8.toNat_ofNat_of_lt' (by
    change size < 256
    omega)
  have last : UInt8.ofNat size &&& 0x80 = 0 := by
    rw [and_0x80_eq_zero_iff, number]
    exact top
  have group : (UInt8.ofNat size &&& 0x7F).toNat = size := by
    rw [toNat_and_0x7F, number]
    omega
  rw [decodeBacklenLoop]
  simp only [if_pos last, group]
  rw [or_shiftLeft_of_lt small]

/-- The suffix is read back, whatever bytes stand before it. -/
theorem decodeBacklen_append (before : Bytes) {size : Nat} (small : size < 2 ^ 35) :
    decodeBacklen (before ++ encodeBacklen size) = size := by
  unfold decodeBacklen encodeBacklen
  rw [List.reverse_append]
  simp only [Nat.shiftRight_eq_div_pow]
  split_ifs with one two three four <;>
    simp only [List.reverse_cons, List.reverse_nil, List.nil_append, List.cons_append]
  · rw [decodeBacklenLoop_last _ (by decide) (by omega)]
    omega
  · rw [decodeBacklenLoop_continued _ _ _ _ (by decide),
      decodeBacklenLoop_last _ (by omega) (by omega)]
    omega
  · rw [decodeBacklenLoop_continued _ _ _ _ (by decide),
      decodeBacklenLoop_continued _ _ _ _ (by omega),
      decodeBacklenLoop_last _ (by omega) (by omega)]
    omega
  · rw [decodeBacklenLoop_continued _ _ _ _ (by decide),
      decodeBacklenLoop_continued _ _ _ _ (by omega),
      decodeBacklenLoop_continued _ _ _ _ (by omega),
      decodeBacklenLoop_last _ (by omega) (by omega)]
    omega
  · rw [decodeBacklenLoop_continued _ _ _ _ (by decide),
      decodeBacklenLoop_continued _ _ _ _ (by omega),
      decodeBacklenLoop_continued _ _ _ _ (by omega),
      decodeBacklenLoop_continued _ _ _ _ (by omega),
      decodeBacklenLoop_last _ (by omega) (by omega)]
    omega

/-! ## Bodies -/

/-- The values the codec is used with: the length of a string fits its
32-bit header field. -/
def Fits : Value -> Prop
  | .text bytes => bytes.length < 2 ^ 32
  | .integer _ => True

theorem length_storeI64 (n : Int64) : (storeI64 n).length = 8 :=
  length_leBytes 8 _

theorem loadI64_storeI64 (n : Int64) (rest : Bytes) : loadI64 (storeI64 n ++ rest) = n := by
  unfold loadI64
  rw [List.take_left' (length_storeI64 n), storeI64, leNat_leBytes_of_lt n.toUInt64.toNat_lt,
    UInt64.ofNat_toNat]
  exact Int64.toInt64_toUInt64 n

theorem loadU32_storeU32 {n : Nat} (small : n < 2 ^ 32) (rest : Bytes) :
    loadU32 (storeU32 n ++ rest) = n := by
  unfold loadU32 storeU32
  rw [List.take_left' (length_leBytes 4 n), leNat_leBytes_of_lt small]

theorem length_encodeBody (value : Value) : (encodeBody value).length = bodySize value := by
  cases value with
  | text bytes =>
      simp only [encodeBody, bodySize]
      split_ifs
      · simp only [List.length_cons]
        omega
      · simp only [List.length_cons, List.length_append, storeU32, length_leBytes,
          maxStringHeader]
        omega
  | integer n =>
      simp only [encodeBody, bodySize, List.length_cons, length_storeI64]

theorem length_encode (value : Value) : (encode value).length = encodedSize value := by
  simp only [encode, List.length_append, length_encodeBacklen, length_encodeBody]
  cases value with
  | text bytes => rfl
  | integer n => rfl

theorem bodySize_pos (value : Value) : 0 < bodySize value := by
  cases value with
  | integer n => exact Nat.succ_pos 8
  | text bytes =>
      rw [bodySize]
      split_ifs
      · omega
      · exact Nat.add_pos_left (by decide) _

theorem bodySize_text_le (bytes : Bytes) :
    bodySize (.text bytes) ≤ maxStringHeader + bytes.length := by
  have header : maxStringHeader = 5 := rfl
  rw [bodySize]
  split_ifs
  · omega
  · omega

theorem bodySize_lt_encodedSize (value : Value) : bodySize value < encodedSize value := by
  rw [← length_encode, ← length_encodeBody]
  simp only [encode, List.length_append, length_encodeBacklen, backlenBytes]
  split_ifs <;> omega

/-- The header of a short text is its length, and the high bit is clear. -/
theorem shortHeader {size : Nat} (short : size ≤ 127) :
    (UInt8.ofNat size).toNat = size ∧ UInt8.ofNat size &&& 0x80 = 0 := by
  have number : (UInt8.ofNat size).toNat = size :=
    UInt8.toNat_ofNat_of_lt' (Nat.lt_of_le_of_lt short (by decide))
  refine ⟨number, ?_⟩
  rw [and_0x80_eq_zero_iff, number]
  omega

/-- Reading the header tells the three kinds of elements apart. -/
theorem headerAndPayload_encodeBody {value : Value} (fits : Fits value) (rest : Bytes) :
    headerAndPayload (encodeBody value ++ rest) = bodySize value := by
  cases value with
  | text bytes =>
      simp only [encodeBody, bodySize]
      by_cases short : bytes.length ≤ 127
      · rcases shortHeader short with ⟨number, low⟩
        simp only [if_pos short, headerAndPayload, List.cons_append, List.getD_cons_zero,
          if_pos low, toNat_and_0x7F, number]
        omega
      · simp only [if_neg short, headerAndPayload, List.cons_append, List.getD_cons_zero,
          List.drop_succ_cons, List.drop_zero, List.append_assoc, loadU32_storeU32 fits]
        rfl
  | integer n =>
      simp only [encodeBody, bodySize, headerAndPayload, List.cons_append, List.getD_cons_zero]
      rfl

theorem decode_encodeBody {value : Value} (fits : Fits value) (rest : Bytes) :
    decode (encodeBody value ++ rest) = value := by
  cases value with
  | text bytes =>
      simp only [encodeBody]
      by_cases short : bytes.length ≤ 127
      · rcases shortHeader short with ⟨number, low⟩
        have size : bytes.length % 128 = bytes.length := by omega
        simp only [if_pos short, decode, List.cons_append, List.getD_cons_zero, if_pos low,
          toNat_and_0x7F, number, size, List.drop_succ_cons, List.drop_zero, List.take_left]
      · have body : (longStringTag :: (storeU32 bytes.length ++ bytes) ++ rest).drop 5 =
            bytes ++ rest := by
          rw [List.cons_append, List.drop_succ_cons, List.append_assoc,
            List.drop_left' (show (storeU32 bytes.length).length = 4 from length_leBytes 4 _)]
        simp only [if_neg short, decode, maxStringHeader, body]
        simp only [List.cons_append, List.getD_cons_zero, List.drop_succ_cons, List.drop_zero,
          List.append_assoc, loadU32_storeU32 fits, List.take_left]
        rfl
  | integer n =>
      have loaded := loadI64_storeI64 n rest
      simp only [encodeBody, decode, List.cons_append, List.getD_cons_zero, List.drop_succ_cons,
        List.drop_zero, loaded]
      rfl

theorem elementSize_encodeBody {value : Value} (fits : Fits value) (rest : Bytes) :
    elementSize (encodeBody value ++ rest) = (encodeBody value).length := by
  rw [elementSize, headerAndPayload_encodeBody fits, length_encodeBody]

/-! ## Elements of a list -/

theorem decode_encode {value : Value} (fits : Fits value) (rest : Bytes) :
    decode (encode value ++ rest) = value := by
  rw [encode, List.append_assoc]
  exact decode_encodeBody fits _

theorem stride_encode {value : Value} (fits : Fits value) (rest : Bytes) :
    stride (encode value ++ rest) = (encode value).length := by
  rw [stride, encode, List.append_assoc, headerAndPayload_encodeBody fits, List.length_append,
    length_encodeBody, length_encodeBacklen]

/-- Backwards, the suffix gives the body's length and, with it, the start of
the element. -/
theorem decodeBacklen_encode {value : Value} (fits : Fits value) (before : Bytes) :
    decodeBacklen (before ++ encode value) = (encodeBody value).length := by
  have small : (encodeBody value).length < 2 ^ 35 := by
    rw [length_encodeBody]
    cases value with
    | text bytes =>
        change bytes.length < 2 ^ 32 at fits
        simp only [bodySize, maxStringHeader]
        split_ifs <;> omega
    | integer n =>
        simp only [bodySize]
        omega
  rw [encode, ← List.append_assoc]
  exact decodeBacklen_append _ small

theorem backlen_encode {value : Value} :
    (encodeBody value).length + backlenBytes (encodeBody value).length =
      (encode value).length := by
  rw [encode, List.length_append, length_encodeBacklen]

end Pack

end Reddish
