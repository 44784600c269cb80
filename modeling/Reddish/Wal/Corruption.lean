import Reddish.Wal.TornTail
import Reddish.Library.Crc

namespace Reddish
namespace Wal

open Library Numeral

/-!
# Recovery of a log with one damaged byte

The checksum of a payload changes with every single byte, and the number of
arguments fixes where a payload ends.  So a damaged byte is noticed wherever it
falls, with one exception: a length that grows beyond the end of the file looks
like a frame that was cut off, and recovery then removes it together with
everything behind it.
-/

/-! ## The checksum notices every byte -/

/-- The polynomial of the checksum, with its lowest coefficient first. -/
def crcPoly : BitVec 32 := 0xedb88320#32

theorem and_one_eq_one_iff (c : UInt32) : c &&& 1 = 1 <-> c.toBitVec.getLsbD 0 = true := by
  rw [<- UInt32.toBitVec_inj, UInt32.toBitVec_and]
  change c.toBitVec &&& 1#32 = 1#32 <-> _
  rw [BitVec.and_one_eq_setWidth_ofBool_getLsbD]
  cases c.toBitVec.getLsbD 0 with
  | false => decide
  | true => decide

theorem toBitVec_crcBit (c : UInt32) : (crcBit c).toBitVec = Crc.shift crcPoly c.toBitVec := by
  unfold crcBit Crc.shift
  by_cases odd : c &&& 1 = 1
  · rw [if_pos odd, if_pos ((and_one_eq_one_iff c).mp odd), UInt32.toBitVec_xor]
    rfl
  · rw [if_neg odd, if_neg (fun bit => odd ((and_one_eq_one_iff c).mpr bit)), UInt32.toBitVec_xor]
    rfl

theorem toBitVec_crcEntry (c : UInt32) :
    (crcEntry c).toBitVec = (Crc.shift crcPoly)^[8] c.toBitVec := by
  unfold crcEntry
  simp only [toBitVec_crcBit]
  rfl

theorem crcTable_getD {i : Nat} (small : i < 256) :
    crcTable.getD i 0 = crcEntry (UInt32.ofNat i) := by
  unfold crcTable
  rw [List.getD_eq_getElem?_getD, List.getElem?_map, List.getElem?_range small]
  rfl

/-- A byte of the checksum is eight shifts of the register. -/
theorem crcByte_eq (c : UInt32) (byte : UInt8) : crcByte c byte = crcEntry (c ^^^ byte.toUInt32) := by
  have mask : forall i, (255#32).getLsbD i = decide (i < 8 ∧ i < 32) := by
    intro i
    rw [BitVec.getLsbD_ofNat, show 255 = 2 ^ 8 - 1 from rfl, Nat.testBit_two_pow_sub_one]
    by_cases inside : i < 32
    · simp [inside]
    · simp [inside]
  have index : ((c ^^^ byte.toUInt32) &&& 255).toNat < 256 := by
    rw [UInt32.toNat_and]
    exact Nat.lt_of_le_of_lt Nat.and_le_right (by decide)
  have high : (c ^^^ byte.toUInt32).toBitVec >>> 8 = c.toBitVec >>> 8 := by
    have small : byte.toUInt32.toBitVec >>> 8 = 0#32 := by
      apply BitVec.eq_of_toNat_eq
      rw [BitVec.toNat_ushiftRight, UInt32.toNat_toBitVec, UInt8.toNat_toUInt32,
        Nat.shiftRight_eq_div_pow, Nat.div_eq_of_lt byte.toNat_lt]
      rfl
    rw [UInt32.toBitVec_xor, BitVec.ushiftRight_xor_distrib, small, BitVec.xor_zero]
  apply UInt32.toBitVec_inj.mp
  have split := @Crc.shifts_split 32 crcPoly 8 (255#32) (c ^^^ byte.toUInt32).toBitVec mask
  rw [toBitVec_crcEntry, split, high]
  unfold crcByte
  rw [crcTable_getD index, UInt32.toBitVec_xor, toBitVec_crcEntry, UInt32.ofNat_toNat]
  rfl

theorem crcEntry_injective : Function.Injective crcEntry := by
  intro x y same
  have shifted := congrArg UInt32.toBitVec same
  rw [toBitVec_crcEntry, toBitVec_crcEntry] at shifted
  exact UInt32.toBitVec_inj.mp (Crc.shifts_injective (by decide) 8 shifted)

theorem crcByte_register {c d : UInt32} {byte : UInt8} (same : crcByte c byte = crcByte d byte) :
    c = d := by
  rw [crcByte_eq, crcByte_eq] at same
  exact (UInt32.xor_left_inj _).mp (crcEntry_injective same)

theorem crcByte_byte {c : UInt32} {x y : UInt8} (same : crcByte c x = crcByte c y) : x = y := by
  rw [crcByte_eq, crcByte_eq] at same
  have words : x.toUInt32 = y.toUInt32 := (UInt32.xor_right_inj _).mp (crcEntry_injective same)
  have numbers := congrArg UInt32.toNat words
  rw [UInt8.toNat_toUInt32, UInt8.toNat_toUInt32] at numbers
  exact UInt8.toNat_inj.mp numbers

/-- Registers that differ stay different. -/
theorem foldl_crcByte_injective (bytes : Bytes) {c d : UInt32}
    (same : bytes.foldl crcByte c = bytes.foldl crcByte d) : c = d := by
  induction bytes generalizing c d with
  | nil => exact same
  | cons byte rest ih => exact crcByte_register (ih same)

/-- A changed byte changes the checksum. -/
theorem crc_set {bytes : Bytes} {offset : Nat} {byte : UInt8} (inside : offset < bytes.length)
    (changed : bytes[offset]? ≠ some byte) : crc (bytes.set offset byte) ≠ crc bytes := by
  intro same
  have split : bytes = bytes.take offset ++ bytes[offset] :: bytes.drop (offset + 1) := by
    rw [List.cons_getElem_drop_succ, List.take_append_drop]
  have registers := UInt32.not_inj.mp same
  rw [List.set_eq_take_append_cons_drop, if_pos inside] at registers
  conv at registers =>
    rhs
    rw [split]
  rw [List.foldl_append, List.foldl_append, List.foldl_cons, List.foldl_cons] at registers
  have equal := crcByte_byte (foldl_crcByte_injective _ registers)
  rw [List.getElem?_eq_getElem inside, equal] at changed
  exact changed rfl

/-! ## The argument count fixes the end of a payload -/

/-- Bytes behind the arguments are left over. -/
theorem decodeArgs_append {count : Nat} {input extra rest : Bytes} {args : List Bytes}
    (decoded : decodeArgs count input = some (args, rest)) :
    decodeArgs count (input ++ extra) = some (args, rest ++ extra) := by
  induction count generalizing input args with
  | zero =>
      cases decoded
      rfl
  | succ count ih =>
      simp only [decodeArgs] at decoded ⊢
      by_cases header : input.length < 4
      · rw [if_pos header] at decoded
        cases decoded
      rw [if_neg header] at decoded
      have front : get32 (input ++ extra) = get32 input := by
        rcases input with _ | ⟨a, _ | ⟨b, _ | ⟨c, _ | ⟨d, tail⟩⟩⟩⟩
        · exact absurd (show (0 : Nat) < 4 by decide) header
        · exact absurd (show (1 : Nat) < 4 by decide) header
        · exact absurd (show (2 : Nat) < 4 by decide) header
        · exact absurd (show (3 : Nat) < 4 by decide) header
        · apply UInt32.toNat_inj.mp
          exact (toNat_get32 a b c d (tail ++ extra)).trans (toNat_get32 a b c d tail).symm
      have body : (input ++ extra).drop 4 = input.drop 4 ++ extra :=
        List.drop_append_of_le_length (Nat.not_lt.mp header)
      rw [if_neg (by rw [List.length_append]; omega), front, body]
      by_cases long : (get32 input).toNat > (input.drop 4).length
      · rw [if_pos long] at decoded
        cases decoded
      rw [if_neg long] at decoded
      have inside := Nat.not_lt.mp long
      rw [if_neg (by rw [List.length_append]; omega), List.drop_append_of_le_length inside,
        List.take_append_of_le_length inside]
      cases found : decodeArgs count ((input.drop 4).drop (get32 input).toNat) with
      | none =>
          rw [found] at decoded
          cases decoded
      | some result =>
          rcases result with ⟨others, remaining⟩
          rw [found] at decoded
          cases decoded
          rw [ih found]

/-- Two payloads that start with the same bytes have the same length. -/
theorem decodePayload_append {bytes extra : Bytes} {first second : Record}
    (header : 2 ≤ bytes.length) (one : decodePayload bytes = some first)
    (two : decodePayload (bytes ++ extra) = some second) : extra = [] := by
  rcases bytes with _ | ⟨op, _ | ⟨count, args⟩⟩
  · cases header
  · exact absurd header (by simp)
  simp only [decodePayload, List.cons_append, List.getD_cons_zero, List.getD_cons_succ,
    List.drop_succ_cons, List.drop_zero] at one two
  cases found : decodeArgs count.toNat args with
  | none =>
      rw [found] at one
      cases one
  | some result =>
      rcases result with ⟨decoded, rest⟩
      rw [decodeArgs_append found] at two
      rw [found] at one
      cases rest with
      | cons byte tail => cases one
      | nil =>
          cases extra with
          | nil => rfl
          | cons byte tail => cases two

/-- No other length in front of the same bytes gives a record. -/
theorem decodePayload_take {record : Record} {rest : Bytes} {size : Nat}
    (accepted : Accepted record) (atLeast : 2 ≤ size)
    (inside : size ≤ (payload record ++ rest).length)
    (different : size ≠ (payload record).length) :
    decodePayload ((payload record ++ rest).take size) = none := by
  cases decoded : decodePayload ((payload record ++ rest).take size) with
  | none => rfl
  | some other =>
      exfalso
      have header : 2 ≤ (payload record).length := by
        rw [length_payload]
        omega
      by_cases shorter : size ≤ (payload record).length
      · rw [List.take_append_of_le_length shorter] at decoded
        have whole := decodePayload_payload accepted
        rw [<- List.take_append_drop size (payload record)] at whole
        have nothing := decodePayload_append (by rw [List.length_take]; omega) decoded whole
        have length := congrArg List.length nothing
        rw [List.length_drop, List.length_nil] at length
        omega
      · rw [List.take_append, List.take_of_length_le (Nat.le_of_not_le shorter)] at decoded
        have nothing := decodePayload_append header (decodePayload_payload accepted) decoded
        have length := congrArg List.length nothing
        rw [List.length_take, List.length_nil] at length
        rw [List.length_append] at inside
        omega

/-! ## One damaged frame -/

theorem toNat_get32_of_length {field : Bytes} (four : field.length = 4) (rest : Bytes) :
    (get32 (field ++ rest)).toNat = leNat field := by
  rcases field with _ | ⟨a, _ | ⟨b, _ | ⟨c, _ | ⟨d, _ | ⟨e, tail⟩⟩⟩⟩⟩
  · cases four
  · cases four
  · cases four
  · cases four
  · exact toNat_get32 a b c d rest
  · exact absurd four (by simp)

/-- A word is read from its four bytes, and different bytes are different words. -/
theorem get32_append {field : Bytes} (four : field.length = 4) (rest : Bytes) :
    get32 (field ++ rest) = get32 field := by
  apply UInt32.toNat_inj.mp
  have alone := toNat_get32_of_length four []
  rw [List.append_nil] at alone
  rw [toNat_get32_of_length four, alone]

theorem get32_put32_alone (n : UInt32) : get32 (put32 n) = n := by
  have alone := get32_put32 n []
  rw [List.append_nil] at alone
  exact alone

theorem get32_injective {field other : Bytes} (four : field.length = 4) (fourToo : other.length = 4)
    (same : get32 field = get32 other) : field = other := by
  have one := toNat_get32_of_length four []
  have two := toNat_get32_of_length fourToo []
  rw [List.append_nil] at one two
  have numbers : leNat field = leNat other := by rw [<- one, <- two, same]
  have bytes := leBytes_leNat field
  rw [numbers, four, <- fourToo, leBytes_leNat other] at bytes
  exact bytes.symm

section Header

variable {σ : Type} (replay : Replay σ) {field sum tail : Bytes} (valid : Nat)

theorem header_fields (fourField : field.length = 4) (fourSum : sum.length = 4) :
    get32 (field ++ (sum ++ tail)) = get32 field ∧
      get32 ((field ++ (sum ++ tail)).drop 4) = get32 sum ∧
      (field ++ (sum ++ tail)).drop 8 = tail ∧ 8 ≤ (field ++ (sum ++ tail)).length := by
  have first : (field ++ (sum ++ tail)).drop 4 = sum ++ tail := List.drop_left' fourField
  have second : (field ++ (sum ++ tail)).drop 8 = tail := by
    rw [show 8 = 4 + 4 from rfl, <- List.drop_drop, first, List.drop_left' fourSum]
  refine ⟨get32_append fourField _, ?_, second, ?_⟩
  · rw [first, get32_append fourSum]
  · rw [List.length_append, List.length_append]
    omega

/-- A length that no record has is an error. -/
theorem recoverLoop_refused (fourField : field.length = 4) (fourSum : sum.length = 4)
    (refused : (get32 field).toNat < 2 ∨ (get32 field).toNat > maxRecord) :
    recoverLoop replay (field ++ (sum ++ tail)) valid = Cmd.raise (.error .diskReadFailed) := by
  rcases @header_fields field sum tail fourField fourSum with ⟨size, -, -, long⟩
  rw [recoverLoop, if_neg (by omega), dif_neg (by omega)]
  simp only [size]
  rw [if_pos refused]

/-- A length beyond the end of the file is taken for a torn tail. -/
theorem recoverLoop_overlong (fourField : field.length = 4) (fourSum : sum.length = 4)
    (small : (get32 field).toNat ≤ maxRecord) (atLeast : 2 ≤ (get32 field).toNat)
    (beyond : tail.length < (get32 field).toNat) :
    recoverLoop replay (field ++ (sum ++ tail)) valid = pure (valid, true) := by
  rcases @header_fields field sum tail fourField fourSum with ⟨size, -, body, long⟩
  rw [recoverLoop, if_neg (by omega), dif_neg (by omega)]
  simp only [size, body]
  rw [if_neg (by omega), if_pos beyond]

/-- A payload with another checksum, or one that is not a record, is an error. -/
theorem recoverLoop_rejected (fourField : field.length = 4) (fourSum : sum.length = 4)
    (small : (get32 field).toNat ≤ maxRecord) (atLeast : 2 ≤ (get32 field).toNat)
    (within : (get32 field).toNat ≤ tail.length)
    (bad : crc (tail.take (get32 field).toNat) ≠ get32 sum ∨
      decodePayload (tail.take (get32 field).toNat) = none) :
    recoverLoop replay (field ++ (sum ++ tail)) valid = Cmd.raise (.error .diskReadFailed) := by
  rcases @header_fields field sum tail fourField fourSum with ⟨size, checksum, body, long⟩
  rw [recoverLoop, if_neg (by omega), dif_neg (by omega)]
  simp only [size, checksum, body]
  rw [if_neg (by omega), if_neg (by omega)]
  by_cases matching : crc (tail.take (get32 field).toNat) = get32 sum
  · rw [if_neg (not_not_intro matching)]
    rcases bad with different | none
    · exact absurd matching different
    · rw [none]
  · rw [if_pos matching]

end Header

/-- The length of a record after one of its four bytes was changed. -/
def damagedLength (record : Record) (offset : Nat) (byte : UInt8) : Nat :=
  (get32 ((put32 (UInt32.ofNat (payload record).length)).set offset byte)).toNat

variable {σ : Type} (replay : Replay σ) {record : Record} {offset : Nat} {byte : UInt8}

/-- A damaged length is an error unless it points beyond the end of the file. -/
theorem recoverLoop_damagedLength (accepted : Accepted record) (inside : offset < 4)
    (changed : (frame record)[offset]? ≠ some byte) (rest : Bytes) (valid : Nat) :
    recoverLoop replay ((frame record).set offset byte ++ rest) valid =
      if damagedLength record offset byte ≤ maxRecord ∧
          (payload record ++ rest).length < damagedLength record offset byte then
        pure (valid, true)
      else Cmd.raise (.error .diskReadFailed) := by
  have four := length_put32 (UInt32.ofNat (payload record).length)
  have fourSum := length_put32 (crc (payload record))
  have fourSet : ((put32 (UInt32.ofNat (payload record).length)).set offset byte).length = 4 := by
    rw [List.length_set, four]
  have atLeast := two_le_payload record
  have damaged : (frame record).set offset byte ++ rest =
      (put32 (UInt32.ofNat (payload record).length)).set offset byte ++
        (put32 (crc (payload record)) ++ (payload record ++ rest)) := by
    rw [frame_eq, List.set_append_left _ _ (by rw [four]; exact inside)]
    simp only [List.append_assoc]
  have different : damagedLength record offset byte ≠ (payload record).length := by
    intro same
    have words := UInt32.toNat_inj.mp (same.trans (toNat_payloadLength accepted).symm)
    have bytes := get32_injective fourSet four (words.trans (get32_put32_alone _).symm)
    have here := congrArg (fun field : Bytes => field[offset]?) bytes
    simp only [List.getElem?_set_self (show offset < (put32 _).length by rw [four]; exact inside)]
      at here
    rw [frame_eq, List.getElem?_append_left (by rw [four]; exact inside), <- here] at changed
    exact changed rfl
  rw [damaged]
  by_cases large : damagedLength record offset byte > maxRecord
  · rw [if_neg (by omega)]
    exact recoverLoop_refused replay valid fourSet fourSum (Or.inr large)
  by_cases small : damagedLength record offset byte < 2
  · rw [if_neg (by rw [List.length_append]; omega)]
    exact recoverLoop_refused replay valid fourSet fourSum (Or.inl small)
  by_cases beyond : (payload record ++ rest).length < damagedLength record offset byte
  · rw [if_pos ⟨Nat.not_lt.mp large, beyond⟩]
    exact recoverLoop_overlong replay valid fourSet fourSum (Nat.not_lt.mp large)
      (Nat.not_lt.mp small) beyond
  · rw [if_neg (fun both => beyond both.2)]
    exact recoverLoop_rejected replay valid fourSet fourSum (Nat.not_lt.mp large)
      (Nat.not_lt.mp small) (Nat.not_lt.mp beyond)
      (Or.inr (decodePayload_take accepted (Nat.not_lt.mp small) (Nat.not_lt.mp beyond) different))

/-- A damaged checksum or payload is an error. -/
theorem recoverLoop_damagedBody (accepted : Accepted record) (behind : 4 ≤ offset)
    (inside : offset < (frame record).length) (changed : (frame record)[offset]? ≠ some byte)
    (rest : Bytes) (valid : Nat) :
    recoverLoop replay ((frame record).set offset byte ++ rest) valid =
      Cmd.raise (.error .diskReadFailed) := by
  have four := length_put32 (UInt32.ofNat (payload record).length)
  have fourSum := length_put32 (crc (payload record))
  have size : (get32 (put32 (UInt32.ofNat (payload record).length))).toNat =
      (payload record).length := by
    rw [get32_put32_alone, toNat_payloadLength accepted]
  have sumWord := get32_put32_alone (crc (payload record))
  have small := ((accepted_iff record).mp accepted).1
  have atLeast := two_le_payload record
  have damaged : (frame record).set offset byte ++ rest =
      put32 (UInt32.ofNat (payload record).length) ++
        ((put32 (crc (payload record)) ++ payload record).set (offset - 4) byte ++ rest) := by
    rw [frame_eq, List.set_append_right _ _ (by rw [four]; exact behind), four]
    simp only [List.append_assoc]
  rw [frame_eq, List.getElem?_append_right (by rw [four]; exact behind), four] at changed
  rw [length_frame] at inside
  rw [damaged]
  by_cases checksum : offset - 4 < 4
  · rw [List.set_append_left _ _ (by rw [fourSum]; exact checksum), List.append_assoc]
    have fourSet : ((put32 (crc (payload record))).set (offset - 4) byte).length = 4 := by
      rw [List.length_set, fourSum]
    refine recoverLoop_rejected replay valid four fourSet (by omega) (by omega)
      (by rw [size, List.length_append]; omega) (Or.inl ?_)
    rw [size, List.take_left]
    intro same
    have bytes := get32_injective fourSum fourSet (sumWord.trans same)
    have here := congrArg (fun field : Bytes => field[offset - 4]?) bytes
    simp only [List.getElem?_set_self (show offset - 4 < (put32 _).length by
      rw [fourSum]; exact checksum)] at here
    rw [List.getElem?_append_left (by rw [fourSum]; exact checksum), here] at changed
    exact changed rfl
  · have later := Nat.not_lt.mp checksum
    rw [List.set_append_right _ _ (by rw [fourSum]; exact later), fourSum, List.append_assoc]
    rw [List.getElem?_append_right (by rw [fourSum]; exact later), fourSum] at changed
    refine recoverLoop_rejected replay valid four fourSum (by omega) (by omega)
      (by rw [size, List.length_append, List.length_set]; omega) (Or.inl ?_)
    rw [size, List.take_left' (List.length_set ..), sumWord]
    exact crc_set (by omega) changed

/-! ## A whole file -/

/-- The complete frames in front of a tail are replayed. -/
theorem recoverLoop_frames {replay : Replay σ} (calm : Calm replay) (before : List Record)
    (accepted : forall record, record ∈ before -> Accepted record) (tail : Bytes) (valid : Nat)
    (s : σ) :
    exists t, Cmd.forEach before replay s = (.ok (), t) ∧
      recoverLoop replay (frames before ++ tail) valid s =
        recoverLoop replay tail (valid + (frames before).length) t := by
  induction before generalizing valid s with
  | nil => exact ⟨s, rfl, rfl⟩
  | cons head rest ih =>
      rcases calm head s with ⟨later, returned⟩
      have restAccepted : forall record, record ∈ rest -> Accepted record :=
        fun record member => accepted record (List.mem_cons_of_mem _ member)
      rcases ih restAccepted (valid + (frame head).length) later with
        ⟨t, replayed, continued⟩
      have whole : frames (head :: rest) = frame head ++ frames rest := by
        rw [frames, List.flatMap_cons, frames]
      refine ⟨t, ?_, ?_⟩
      · change Cmd.bind (replay head) (fun _ => Cmd.forEach rest replay) s = _
        simp only [Cmd.bind, returned, replayed]
      · rw [whole, List.append_assoc,
          recoverLoop_frame replay (accepted head List.mem_cons_self)]
        change Cmd.bind (replay head) _ s = _
        simp only [Cmd.bind, returned]
        rw [continued, List.length_append, Nat.add_assoc]

/-- Every byte behind the magic number belongs to one frame. -/
theorem locate_frame {records : List Record} {position : Nat}
    (inside : position < (frames records).length) :
    exists before record after offset, records = before ++ record :: after ∧
      position = (frames before).length + offset ∧ offset < (frame record).length := by
  induction records generalizing position with
  | nil => cases inside
  | cons head rest ih =>
      have whole : frames (head :: rest) = frame head ++ frames rest := by
        rw [frames, List.flatMap_cons, frames]
      by_cases first : position < (frame head).length
      · exact ⟨[], head, rest, position, rfl, (Nat.zero_add _).symm, first⟩
      · rw [whole, List.length_append] at inside
        rcases ih (show position - (frame head).length < _ by omega) with
          ⟨before, record, after, offset, rfl, here, small⟩
        refine ⟨head :: before, record, after, offset, rfl, ?_, small⟩
        have longer : frames (head :: before) = frame head ++ frames before := by
          rw [frames, List.flatMap_cons, frames]
        rw [longer, List.length_append]
        omega

theorem frames_split (before after : List Record) (record : Record) :
    frames (before ++ record :: after) = frames before ++ (frame record ++ frames after) := by
  rw [frames, List.flatMap_append, List.flatMap_cons, frames, frames]

/-- The file after `recover`: only a repair rewrites it. -/
def fileAfter (file : Bytes) : Except Exn (Nat × Bytes) -> Bytes
  | .ok (_, left) => left
  | .error _ => file

/-- Recovery throws `disk_read_failed` and leaves the file as it is. -/
def Rejects (file : Bytes) (replay : Replay σ) (s : σ) : Prop :=
  (recover file replay s).1 = .error (.error .diskReadFailed) ∧
    fileAfter file (recover file replay s).1 = file

/-- The changed byte belongs to the length of a record and makes it point
beyond the end of the file, but not beyond the size that a record may have. -/
def Overlong (records : List Record) (position : Nat) (byte : UInt8) : Prop :=
  exists before record after offset, records = before ++ record :: after ∧
    position = (magic ++ frames before).length + offset ∧ offset < 4 ∧
    damagedLength record offset byte ≤ maxRecord ∧
    (payload record ++ frames after).length < damagedLength record offset byte

theorem rejects_of_raise {file : Bytes} {replay : Replay σ} {s t : σ}
    (raised : recover file replay s = (.error (.error .diskReadFailed), t)) :
    Rejects file replay s := by
  unfold Rejects
  rw [raised]
  exact ⟨rfl, rfl⟩

/-- A file that does not start with the magic number is refused. -/
theorem rejects_magic (replay : Replay σ) {position : Nat} (inside : position < 8)
    (changed : magic[position]? ≠ some byte) (body : Bytes) (s : σ) :
    Rejects (magic.set position byte ++ body) replay s := by
  have length : (magic.set position byte).length = 8 := by rw [List.length_set, length_magic]
  have front : (magic.set position byte ++ body).take 8 = magic.set position byte :=
    List.take_left' length
  have different : magic.set position byte ≠ magic := by
    intro same
    have here := congrArg (fun bytes : Bytes => bytes[position]?) same
    simp only [List.getElem?_set_self (show position < magic.length by
      rw [length_magic]; exact inside)] at here
    exact changed here.symm
  have refused : recover (magic.set position byte ++ body) replay =
      Cmd.raise (.error .diskReadFailed) := by
    unfold recover
    rw [if_neg (by rw [List.length_append]; omega), if_pos (Or.inr (by rw [front]; exact different))]
  refine @rejects_of_raise _ _ _ _ s ?_
  rw [refused]
  rfl

theorem set_in_frame (before after : List Record) (record : Record) {offset : Nat}
    (inside : offset < (frame record).length) :
    (magic ++ frames (before ++ record :: after)).set ((magic ++ frames before).length + offset)
        byte =
      magic ++ (frames before ++ ((frame record).set offset byte ++ frames after)) := by
  rw [frames_split, <- List.append_assoc,
    List.set_append_right _ _ (Nat.le_add_right _ _), Nat.add_sub_cancel_left,
    List.set_append_left _ _ inside, List.append_assoc]

theorem getElem?_in_frame (before after : List Record) (record : Record) {offset : Nat}
    (inside : offset < (frame record).length) :
    (magic ++ frames (before ++ record :: after))[(magic ++ frames before).length + offset]? =
      (frame record)[offset]? := by
  rw [frames_split, <- List.append_assoc,
    List.getElem?_append_right (Nat.le_add_right _ _), Nat.add_sub_cancel_left,
    List.getElem?_append_left inside]

/-- What recovery does with a length that points beyond the end of the file:
the records in front of it are replayed and the rest of the file is cut off. -/
theorem recover_overlong {replay : Replay σ} (calm : Calm replay) (before after : List Record)
    (accepted : forall other, other ∈ before ++ record :: after -> Accepted other)
    (small : offset < 4) (changed : (frame record)[offset]? ≠ some byte)
    (limit : damagedLength record offset byte ≤ maxRecord)
    (beyond : (payload record ++ frames after).length < damagedLength record offset byte) (s : σ) :
    exists t, Cmd.forEach before replay s = (.ok (), t) ∧
      recover ((magic ++ frames (before ++ record :: after)).set
          ((magic ++ frames before).length + offset) byte) replay s =
        (.ok ((magic ++ frames before).length, magic ++ frames before), t) := by
  have inside : offset < (frame record).length := by
    rw [length_frame]
    omega
  have here := accepted record (List.mem_append_right _ List.mem_cons_self)
  rcases recoverLoop_frames calm before
      (fun other member => accepted other (List.mem_append_left _ member))
      ((frame record).set offset byte ++ frames after) 8 s with ⟨t, replayed, continued⟩
  rw [recoverLoop_damagedLength replay here small changed, if_pos ⟨limit, beyond⟩] at continued
  refine ⟨t, replayed, ?_⟩
  rw [set_in_frame before after record inside, recover_magic]
  change Cmd.bind (recoverLoop replay _ 8) _ s = _
  simp only [Cmd.bind, continued]
  have length : 8 + (frames before).length = (magic ++ frames before).length := by
    rw [List.length_append, length_magic]
  change (Except.ok (8 + (frames before).length, _), t) = _
  rw [length, if_pos rfl, <- List.append_assoc magic, List.take_left]

/-- A byte changed in a frame makes recovery throw, unless the frame now
reaches beyond the end of the file. -/
theorem rejects_in_frame {replay : Replay σ} (calm : Calm replay) (before after : List Record)
    (accepted : forall other, other ∈ before ++ record :: after -> Accepted other)
    (inside : offset < (frame record).length) (changed : (frame record)[offset]? ≠ some byte)
    (within : offset < 4 -> Not (damagedLength record offset byte ≤ maxRecord ∧
      (payload record ++ frames after).length < damagedLength record offset byte)) (s : σ) :
    Rejects ((magic ++ frames (before ++ record :: after)).set
      ((magic ++ frames before).length + offset) byte) replay s := by
  have here := accepted record (List.mem_append_right _ List.mem_cons_self)
  have refused : forall valid, recoverLoop replay ((frame record).set offset byte ++ frames after)
      valid = Cmd.raise (.error .diskReadFailed) := by
    intro valid
    by_cases small : offset < 4
    · rw [recoverLoop_damagedLength replay here small changed, if_neg (within small)]
    · exact recoverLoop_damagedBody replay here (Nat.le_of_not_lt small) inside changed _ _
  rcases recoverLoop_frames calm before
      (fun other member => accepted other (List.mem_append_left _ member))
      ((frame record).set offset byte ++ frames after) 8 s with ⟨t, _, continued⟩
  rw [refused] at continued
  refine @rejects_of_raise _ _ _ _ t ?_
  rw [set_in_frame before after record inside, recover_magic]
  change Cmd.bind (recoverLoop replay _ 8) _ s = _
  simp only [Cmd.bind, continued]
  rfl

/-- Recovery of a complete log with one byte changed throws
`disk_read_failed` and leaves the file alone, except when the changed byte
turns the length of a record into one that the file is too short for. -/
theorem recover_changed_byte {replay : Replay σ} (calm : Calm replay) (records : List Record)
    (accepted : forall record, record ∈ records -> Accepted record) (position : Nat) (byte : UInt8)
    (inside : position < (magic ++ frames records).length)
    (changed : (magic ++ frames records)[position]? ≠ some byte) (s : σ) :
    Rejects ((magic ++ frames records).set position byte) replay s <->
      Not (Overlong records position byte) := by
  constructor
  · intro rejected overlong
    rcases overlong with ⟨before, record, after, offset, rfl, rfl, small, limit, beyond⟩
    have bound : offset < (frame record).length := by
      rw [length_frame]
      omega
    rw [getElem?_in_frame before after record bound] at changed
    rcases recover_overlong calm before after accepted small changed limit beyond s with
      ⟨t, _, returned⟩
    have thrown := rejected.1
    rw [returned] at thrown
    cases thrown
  · intro within
    by_cases start : position < 8
    · rw [List.set_append_left _ _ (by rw [length_magic]; exact start)]
      rw [List.getElem?_append_left (by rw [length_magic]; exact start)] at changed
      exact rejects_magic replay start changed (frames records) s
    · have behind : position - 8 < (frames records).length := by
        rw [List.length_append, length_magic] at inside
        omega
      rcases locate_frame behind with ⟨before, record, after, offset, rfl, here, bound⟩
      have place : position = (magic ++ frames before).length + offset := by
        rw [List.length_append, length_magic]
        omega
      subst place
      rw [getElem?_in_frame before after record bound] at changed
      refine rejects_in_frame calm before after accepted bound changed ?_ s
      intro small damage
      exact within ⟨before, record, after, offset, rfl, rfl, small, damage⟩

/-- The last byte of the only record, changed from `k` to zero. -/
theorem recover_changed_byte_one :
    Rejects ((magic ++ frames [⟨9, [[107]]⟩]).set 22 0) collect [] := by
  have accepted : forall record, record ∈ [(⟨9, [[107]]⟩ : Record)] -> Accepted record := by
    intro record member
    rw [List.mem_singleton.mp member]
    exact (accepted_iff _).mpr (by decide)
  have calm : Calm collect := fun record seen => ⟨seen ++ [record], rfl⟩
  have inside : 22 < (magic ++ frames [⟨9, [[107]]⟩]).length := by decide
  have changed : (magic ++ frames [⟨9, [[107]]⟩])[22]? ≠ some 0 := by decide
  refine (recover_changed_byte calm [⟨9, [[107]]⟩] accepted 22 0 inside changed []).mpr ?_
  rintro ⟨before, record, after, offset, split, here, small, _, _⟩
  cases before with
  | nil =>
      rw [List.length_append, length_magic] at here
      change 22 = 8 + 0 + offset at here
      omega
  | cons head rest =>
      have lengths := congrArg List.length split
      simp only [List.length_append, List.length_cons, List.length_nil] at lengths
      omega

/-- A log of a `del` and an `increment` record whose second byte of the first
length is changed from zero to one: recovery returns, replays neither record
and cuts the file down to the magic number. -/
theorem recover_drops_records :
    (magic ++ frames [⟨9, [[107]]⟩, ⟨1, [[107]]⟩])[9]? = some 0 ∧
      recover ((magic ++ frames [⟨9, [[107]]⟩, ⟨1, [[107]]⟩]).set 9 1) collect [] =
        (.ok (8, magic), []) := by
  have accepted : forall record, record ∈ [] ++ (⟨9, [[107]]⟩ : Record) :: [⟨1, [[107]]⟩] ->
      Accepted record := by
    intro record member
    apply (accepted_iff record).mpr
    rcases List.mem_cons.mp member with equal | member
    · rw [equal]
      decide
    · rw [List.mem_singleton.mp member]
      decide
  have calm : Calm collect := fun record seen => ⟨seen ++ [record], rfl⟩
  have changed : (frame ⟨9, [[107]]⟩)[1]? ≠ some 1 := by decide
  have limit : damagedLength ⟨9, [[107]]⟩ 1 1 ≤ maxRecord := by decide
  have beyond : (payload ⟨9, [[107]]⟩ ++ frames [⟨1, [[107]]⟩]).length <
      damagedLength ⟨9, [[107]]⟩ 1 1 := by decide
  refine ⟨by decide, ?_⟩
  rcases recover_overlong calm [] [⟨1, [[107]]⟩] accepted (by decide) changed limit beyond [] with
    ⟨t, replayed, recovered⟩
  cases replayed
  exact recovered

end Wal
end Reddish
