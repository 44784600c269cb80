import Reddish.Wal.Frame

namespace Reddish
namespace Wal

open Library Numeral

/-!
# Recovery of a log that was cut off anywhere

The writer's frame is first put into a form the reader can be run on.  One
complete frame is then one round of the reader's loop, and a proper nonempty
part of a frame is a torn tail, wherever the cut falls.  The statement about a
whole log is an induction over its records with these two facts.
-/

/-! ## Words -/

/-- Each round of `get32` adds one base-256 digit above the earlier ones. -/
private theorem get32_round (n : UInt32) (byte : UInt8) (i : Nat) (small : i < 4)
    (low : n.toNat < 2 ^ (8 * i)) :
    (n ||| (byte.toUInt32 <<< (8 * UInt32.ofNat i))).toNat =
      n.toNat + byte.toNat * 2 ^ (8 * i) := by
  have byteSmall := byte.toNat_lt
  have shift : (8 * UInt32.ofNat i).toNat % 32 = 8 * i := by
    have cases : i = 0 ∨ i = 1 ∨ i = 2 ∨ i = 3 := by omega
    rcases cases with rfl | rfl | rfl | rfl <;> rfl
  have fits : byte.toNat * 2 ^ (8 * i) < 2 ^ 32 := by
    calc
      byte.toNat * 2 ^ (8 * i) < 2 ^ 8 * 2 ^ (8 * i) :=
        Nat.mul_lt_mul_of_pos_right byteSmall (Nat.two_pow_pos _)
      _ = 2 ^ (8 + 8 * i) := (Nat.pow_add _ _ _).symm
      _ ≤ 2 ^ 32 := Nat.pow_le_pow_right (by decide) (by omega)
  have shifted : (byte.toUInt32 <<< (8 * UInt32.ofNat i)).toNat = byte.toNat <<< (8 * i) := by
    rw [UInt32.toNat_shiftLeft, shift, UInt8.toNat_toUInt32, Nat.shiftLeft_eq,
      Nat.mod_eq_of_lt fits]
  rw [UInt32.toNat_or, shifted, or_shiftLeft_of_lt low]

theorem toNat_get32 (a b c d : UInt8) (rest : Bytes) :
    (get32 (a :: b :: c :: d :: rest)).toNat = leNat [a, b, c, d] := by
  have aSmall := a.toNat_lt
  have bSmall := b.toNat_lt
  have cSmall := c.toNat_lt
  have first := get32_round 0 a 0 (by decide) (by decide)
  have second := get32_round _ b 1 (by decide) (by rw [first]; simp; omega)
  have third := get32_round _ c 2 (by decide) (by rw [second, first]; simp; omega)
  have fourth := get32_round _ d 3 (by decide) (by rw [third, second, first]; simp; omega)
  refine Eq.trans fourth ?_
  rw [third, second, first]
  simp only [leNat, UInt32.toNat_zero]
  omega

theorem put32_eq (n : UInt32) : put32 n = leBytes 4 n.toNat := by
  have digit : forall i : UInt32, i.toNat < 4 ->
      (n >>> (8 * i)).toUInt8 = UInt8.ofNat (n.toNat / 2 ^ (8 * i.toNat)) := by
    intro i small
    apply UInt8.toNat_inj.mp
    have shift : 8 * i.toNat % 32 = 8 * i.toNat := by omega
    simp [Nat.shiftRight_eq_div_pow, shift]
  simp only [put32, List.map_cons, List.map_nil, leBytes, Nat.div_div_eq_div_mul]
  rw [digit 0 (by decide), digit 1 (by decide), digit 2 (by decide), digit 3 (by decide)]
  simp

@[simp] theorem length_put32 (n : UInt32) : (put32 n).length = 4 := by
  rw [put32_eq, length_leBytes]

@[simp] theorem get32_put32 (n : UInt32) (rest : Bytes) : get32 (put32 n ++ rest) = n := by
  apply UInt32.toNat_inj.mp
  have value : leNat (leBytes 4 n.toNat) = n.toNat := leNat_leBytes_of_lt n.toNat_lt
  rw [put32_eq]
  exact (toNat_get32 _ _ _ _ rest).trans value

/-! ## One frame -/

theorem length_payload (record : Record) :
    (payload record).length = 2 + (record.args.map (fun arg => 4 + arg.length)).sum := by
  simp only [payload, List.length_cons, List.length_flatMap, List.length_append, length_put32]
  exact Nat.add_comm _ 2

/-- The frame with its checksum in place. -/
theorem frame_eq (record : Record) :
    frame record =
      put32 (UInt32.ofNat (payload record).length) ++
        (put32 (crc (payload record)) ++ payload record) := by
  have header : (put32 (UInt32.ofNat (payload record).length) ++ put32 0).length = 8 := by
    simp
  have body : (put32 (UInt32.ofNat (payload record).length) ++ put32 0 ++
      payload record).drop 8 = payload record := by
    rw [← header, List.drop_left]
  simp only [frame, body, Buffer.write, length_put32]
  rw [List.append_assoc (put32 _) (put32 0), List.take_left' (length_put32 _),
    List.append_assoc]

theorem length_frame (record : Record) : (frame record).length = 8 + (payload record).length := by
  rw [frame_eq]
  simp only [List.length_append, length_put32]
  omega

theorem recordSize_eq (size : Nat) (args : List Bytes) (start : size ≤ maxRecord) :
    recordSize size args =
      if size + (args.map (fun arg => 4 + arg.length)).sum ≤ maxRecord
      then .ok (size + (args.map (fun arg => 4 + arg.length)).sum)
      else .error .requestTooLarge := by
  induction args generalizing size with
  | nil =>
      simp only [recordSize, List.map_nil, List.sum_nil, Nat.add_zero, if_pos start]
  | cons arg rest ih =>
      simp only [recordSize, List.map_cons, List.sum_cons]
      have bound : 4 ≤ maxRecord := by decide
      by_cases large : arg.length > maxRecord - 4 ∨ size > maxRecord - arg.length - 4
      · rw [if_pos large, if_neg (by omega)]
      · rw [if_neg large, ih (size + 4 + arg.length) (by omega)]
        have total : size + 4 + arg.length + (rest.map (fun arg => 4 + arg.length)).sum =
            size + (4 + arg.length + (rest.map (fun arg => 4 + arg.length)).sum) := by omega
        rw [total]

/-- `append` accepts exactly the records whose payload fits and whose
argument count fits in one byte, and then it computed the payload's size. -/
theorem acceptedSize_eq_ok_iff (record : Record) (size : Nat) :
    acceptedSize record = .ok size <->
      size = (payload record).length ∧ (payload record).length ≤ maxRecord ∧
        record.args.length ≤ 255 := by
  rw [length_payload]
  unfold acceptedSize
  rw [recordSize_eq 2 record.args (by decide)]
  by_cases fits : 2 + (record.args.map (fun arg => 4 + arg.length)).sum ≤ maxRecord
  · rw [if_pos fits]
    by_cases many : record.args.length > 255
    · simp only [gt_iff_lt, many, or_true, if_true]
      constructor
      · intro impossible
        cases impossible
      · rintro ⟨_, _, few⟩
        omega
    · have few : record.args.length ≤ 255 := by omega
      simp only [gt_iff_lt, many, Nat.not_lt.mpr fits, or_self, if_false, Except.ok.injEq]
      constructor
      · intro equal
        exact ⟨equal.symm, fits, few⟩
      · rintro ⟨equal, _, _⟩
        exact equal.symm
  · rw [if_neg fits]
    constructor
    · intro impossible
      cases impossible
    · rintro ⟨_, small, _⟩
      exact False.elim (fits small)

/-- A record that `append` accepts: it has at most 255 arguments, and its
payload is not larger than the limit. -/
def Accepted (record : Record) : Prop :=
  exists size, acceptedSize record = .ok size

theorem accepted_iff (record : Record) :
    Accepted record <-> (payload record).length ≤ maxRecord ∧ record.args.length ≤ 255 := by
  constructor
  · rintro ⟨size, accepted⟩
    exact ((acceptedSize_eq_ok_iff record size).mp accepted).2
  · intro fits
    exact ⟨_, (acceptedSize_eq_ok_iff record _).mpr ⟨rfl, fits⟩⟩

theorem decodeArgs_encode (args : List Bytes) (rest : Bytes)
    (small : forall arg, arg ∈ args -> arg.length < 2 ^ 32) :
    decodeArgs args.length
        (args.flatMap (fun arg => put32 (UInt32.ofNat arg.length) ++ arg) ++ rest) =
      some (args, rest) := by
  induction args with
  | nil => rfl
  | cons arg tail ih =>
      have argSmall := small arg (List.mem_cons.mpr (Or.inl rfl))
      have decoded := ih (fun other member =>
        small other (List.mem_cons.mpr (Or.inr member)))
      have size : (UInt32.ofNat arg.length).toNat = arg.length :=
        UInt32.toNat_ofNat_of_lt' argSmall
      simp only [List.length_cons, decodeArgs, List.flatMap_cons, List.append_assoc, get32_put32,
        size]
      rw [List.drop_left' (length_put32 _), if_neg (by simp), if_neg (by simp), List.drop_left,
        List.take_left, decoded]

theorem decodePayload_payload {record : Record} (accepted : Accepted record) :
    decodePayload (payload record) = some record := by
  have fits := (accepted_iff record).mp accepted
  have count : (UInt8.ofNat record.args.length).toNat = record.args.length :=
    UInt8.toNat_ofNat_of_lt' (Nat.lt_of_le_of_lt fits.2 (by decide))
  have small : forall arg, arg ∈ record.args -> arg.length < 2 ^ 32 := by
    intro arg member
    have total := fits.1
    have part : 4 + arg.length ≤ (record.args.map (fun arg => 4 + arg.length)).sum :=
      List.le_sum_of_mem (List.mem_map_of_mem member)
    have bound : maxRecord < 2 ^ 32 := by decide
    rw [length_payload] at total
    omega
  have decoded := decodeArgs_encode record.args [] small
  rw [List.append_nil] at decoded
  simp only [decodePayload, payload, List.getD_cons_zero, List.getD_cons_succ, List.drop_succ_cons,
    List.drop_zero, count, decoded]

/-! ## The reader's loop -/

variable {σ : Type}

theorem toNat_payloadLength {record : Record} (accepted : Accepted record) :
    (UInt32.ofNat (payload record).length).toNat = (payload record).length := by
  have bound : maxRecord < UInt32.size := by decide
  exact UInt32.toNat_ofNat_of_lt' (Nat.lt_of_le_of_lt ((accepted_iff record).mp accepted).1 bound)

theorem two_le_payload (record : Record) : 2 ≤ (payload record).length := by
  rw [length_payload]
  omega

/-- Reading a complete frame is one call of the callback. -/
theorem recoverLoop_frame (replay : Replay σ) {record : Record} (accepted : Accepted record)
    (rest : Bytes) (valid : Nat) :
    recoverLoop replay (frame record ++ rest) valid =
      (replay record >>= fun _ => recoverLoop replay rest (valid + (frame record).length)) := by
  have fits := ((accepted_iff record).mp accepted).1
  have size := toNat_payloadLength accepted
  have atLeast := two_le_payload record
  have whole : (frame record ++ rest).length = 8 + (payload record).length + rest.length := by
    rw [List.length_append, length_frame]
  rw [recoverLoop, if_neg (by omega), dif_neg (by omega)]
  have split : frame record ++ rest =
      put32 (UInt32.ofNat (payload record).length) ++
        (put32 (crc (payload record)) ++ (payload record ++ rest)) := by
    rw [frame_eq]
    simp only [List.append_assoc]
  have checksum : (frame record ++ rest).drop 4 =
      put32 (crc (payload record)) ++ (payload record ++ rest) := by
    rw [split, List.drop_left' (length_put32 _)]
  have body : (frame record ++ rest).drop 8 = payload record ++ rest := by
    rw [show 8 = 4 + 4 from rfl, ← List.drop_drop, checksum, List.drop_left' (length_put32 _)]
  have sizeField : get32 (frame record ++ rest) = UInt32.ofNat (payload record).length := by
    rw [split, get32_put32]
  simp only [sizeField, checksum, body, get32_put32, size, List.take_left, List.drop_left]
  rw [if_neg (by omega), if_neg (by simp), if_neg (by simp), decodePayload_payload accepted]
  simp only [length_frame]

/-- Stopping inside a frame is recognised as a torn tail at every byte. -/
theorem recoverLoop_torn (replay : Replay σ) {record : Record} (accepted : Accepted record)
    {cut : Nat} (some : 0 < cut) (inside : cut < (frame record).length) (valid : Nat) :
    recoverLoop replay ((frame record).take cut) valid = pure (valid, true) := by
  have fits := ((accepted_iff record).mp accepted).1
  have size := toNat_payloadLength accepted
  have atLeast := two_le_payload record
  have length : ((frame record).take cut).length = cut := by
    rw [List.length_take]
    omega
  rw [recoverLoop, if_neg (by omega)]
  by_cases header : cut < 8
  · rw [dif_pos (by omega)]
  · have frameLength := length_frame record
    rw [dif_neg (by omega)]
    have front : (frame record).take cut =
        put32 (UInt32.ofNat (payload record).length) ++
          (put32 (crc (payload record)) ++ payload record).take (cut - 4) := by
      rw [frame_eq, List.take_append, length_put32, List.take_of_length_le (by simp; omega)]
    have sizeField : get32 ((frame record).take cut) = UInt32.ofNat (payload record).length := by
      rw [front, get32_put32]
    simp only [sizeField, size, List.length_drop, length]
    rw [if_neg (by omega), if_pos (by omega)]

/-- The records whose frames end within the first `room` bytes. -/
def keptWithin : Nat -> List Record -> List Record
  | _, [] => []
  | room, record :: rest =>
      if (frame record).length ≤ room
      then record :: keptWithin (room - (frame record).length) rest
      else []

theorem keptWithin_spec (room : Nat) (records : List Record) :
    exists lost, records = keptWithin room records ++ lost ∧
      (frames (keptWithin room records)).length ≤ room ∧
      forall record rest, lost = record :: rest ->
        room < (frames (keptWithin room records ++ [record])).length := by
  induction records generalizing room with
  | nil => exact ⟨[], rfl, Nat.zero_le _, nofun⟩
  | cons head tail ih =>
      by_cases fits : (frame head).length ≤ room
      · rcases ih (room - (frame head).length) with ⟨lost, split, inside, next⟩
        refine ⟨lost, ?_, ?_, ?_⟩
        · rw [keptWithin, if_pos fits, List.cons_append, ← split]
        · rw [keptWithin, if_pos fits, frames, List.flatMap_cons, List.length_append]
          have tailInside := inside
          rw [frames] at tailInside
          omega
        · intro record rest equal
          have beyond := next record rest equal
          rw [keptWithin, if_pos fits, List.cons_append, frames, List.flatMap_cons,
            List.length_append]
          rw [frames] at beyond
          omega
      · refine ⟨head :: tail, ?_, ?_, ?_⟩
        · rw [keptWithin, if_neg fits, List.nil_append]
        · rw [keptWithin, if_neg fits]
          exact Nat.zero_le _
        · intro record rest equal
          rw [keptWithin, if_neg fits]
          cases equal
          simp only [frames, List.nil_append, List.flatMap_cons, List.flatMap_nil,
            List.append_nil]
          omega

theorem recoverLoop_nil (replay : Replay σ) (valid : Nat) :
    recoverLoop replay [] valid = pure (valid, false) := by
  rw [recoverLoop, if_pos List.length_nil]

/-- The loop on a log that was cut anywhere: it calls back for the complete
frames, in order, and reports a torn tail exactly when bytes are left over. -/
theorem recoverLoop_take (replay : Replay σ) (records : List Record)
    (accepted : forall record, record ∈ records -> Accepted record) (room valid : Nat) :
    recoverLoop replay ((frames records).take room) valid =
      (Cmd.forEach (keptWithin room records) replay >>= fun _ =>
        pure (valid + (frames (keptWithin room records)).length,
          decide ((frames (keptWithin room records)).length <
            min room (frames records).length))) := by
  induction records generalizing room valid with
  | nil =>
      simp only [frames, List.flatMap_nil, List.take_nil, keptWithin, List.length_nil,
        Nat.min_zero, Nat.lt_irrefl, decide_false, Nat.add_zero]
      exact recoverLoop_nil replay valid
  | cons head tail ih =>
      have headAccepted := accepted head (List.mem_cons.mpr (Or.inl rfl))
      have tailAccepted : forall record, record ∈ tail -> Accepted record :=
        fun record member => accepted record (List.mem_cons.mpr (Or.inr member))
      have whole : frames (head :: tail) = frame head ++ frames tail := by
        rw [frames, List.flatMap_cons, frames]
      by_cases fits : (frame head).length ≤ room
      · have cutTail : (frames (head :: tail)).take room =
            frame head ++ (frames tail).take (room - (frame head).length) := by
          rw [whole, List.take_append, List.take_of_length_le fits]
        have keptFrames : frames (head :: keptWithin (room - (frame head).length) tail) =
            frame head ++ frames (keptWithin (room - (frame head).length) tail) := by
          rw [frames, List.flatMap_cons, frames]
        rw [cutTail, recoverLoop_frame replay headAccepted, keptWithin, if_pos fits, keptFrames,
          whole]
        funext s
        change Cmd.bind _ _ s = Cmd.bind (Cmd.bind _ _) _ s
        simp only [Cmd.bind]
        rcases replay head s with ⟨thrown | value, later⟩
        · rfl
        · dsimp only
          rw [ih tailAccepted (room - (frame head).length)]
          have total : valid + (frame head).length +
                (frames (keptWithin (room - (frame head).length) tail)).length =
              valid + (frame head ++
                frames (keptWithin (room - (frame head).length) tail)).length := by
            rw [List.length_append, Nat.add_assoc]
          have torn : ((frames (keptWithin (room - (frame head).length) tail)).length <
                min (room - (frame head).length) (frames tail).length) =
              ((frame head ++ frames (keptWithin (room - (frame head).length) tail)).length <
                min room (frame head ++ frames tail).length) := by
            rw [List.length_append, List.length_append]
            apply propext
            omega
          rw [total]
          simp only [torn]
          rfl
      · have cutHead : (frames (head :: tail)).take room = (frame head).take room := by
          rw [whole, List.take_append_of_le_length (by omega)]
        have positive : 0 < (frame head).length := by
          rw [length_frame]
          omega
        rw [cutHead, keptWithin, if_neg fits]
        by_cases empty : room = 0
        · subst empty
          rw [List.take_zero, recoverLoop_nil]
          simp only [frames, List.flatMap_nil, List.length_nil, Nat.zero_min, Nat.lt_irrefl,
            decide_false, Nat.add_zero]
          rfl
        · rw [recoverLoop_torn replay headAccepted (by omega) (by omega)]
          have torn : (frames []).length < min room (frames (head :: tail)).length := by
            rw [whole, List.length_append, frames, List.flatMap_nil, List.length_nil]
            omega
          simp only [torn, decide_true]
          rfl

theorem keptWithin_of_le {room : Nat} {records : List Record}
    (fits : (frames records).length ≤ room) : keptWithin room records = records := by
  induction records generalizing room with
  | nil => rfl
  | cons head tail ih =>
      rw [frames, List.flatMap_cons, List.length_append] at fits
      have tailFits : (frames tail).length ≤ room - (frame head).length := by
        rw [frames]
        omega
      rw [keptWithin, if_pos (by omega), ih tailFits]

/-! ## A whole file -/

theorem length_magic : magic.length = 8 := by
  decide

theorem recover_magic (replay : Replay σ) (body : Bytes) :
    recover (magic ++ body) replay =
      (recoverLoop replay body 8 >>= fun outcome =>
        pure (outcome.1, if outcome.2 then (magic ++ body).take outcome.1 else magic ++ body)) := by
  have length : (magic ++ body).length = 8 + body.length := by
    rw [List.length_append, length_magic]
  have front : (magic ++ body).take 8 = magic := List.take_left' length_magic
  have back : (magic ++ body).drop 8 = body := List.drop_left' length_magic
  unfold recover
  have readable : ¬ ((magic ++ body).length < 8 ∨ (magic ++ body).take 8 ≠ magic) := by
    rw [front, length]
    simp
  rw [if_neg (by omega), if_neg readable, back]

theorem take_cut {kept lost : Bytes} {room : Nat} (inside : kept.length ≤ room) :
    (magic ++ (kept ++ lost).take room).take (magic ++ kept).length = magic ++ kept := by
  rw [List.take_append, List.length_append, Nat.add_sub_cancel_left, List.take_take,
    Nat.min_eq_left inside, List.take_left, List.take_of_length_le (Nat.le_add_right _ _)]

/-- A callback that returns from every call. -/
def Calm (replay : Replay σ) : Prop :=
  forall record s, exists t, replay record s = (.ok (), t)

theorem forEach_calm {replay : Replay σ} (calm : Calm replay) (records : List Record) (s : σ) :
    exists t, Cmd.forEach records replay s = (.ok (), t) := by
  induction records generalizing s with
  | nil => exact ⟨s, rfl⟩
  | cons head tail ih =>
      rcases calm head s with ⟨later, returned⟩
      rcases ih later with ⟨t, rest⟩
      refine ⟨t, ?_⟩
      change Cmd.bind (replay head) (fun _ => Cmd.forEach tail replay) s = _
      simp only [Cmd.bind, returned, rest]

/-- Recovery of a cut log in terms of the callback's own run: the file that
is left holds the complete frames and nothing else. -/
theorem recover_take {replay : Replay σ} (records : List Record)
    (accepted : forall record, record ∈ records -> Accepted record) (room : Nat) {s t : σ}
    (replayed : Cmd.forEach (keptWithin room records) replay s = (.ok (), t)) :
    recover (magic ++ (frames records).take room) replay s =
      (.ok ((magic ++ frames (keptWithin room records)).length,
        magic ++ frames (keptWithin room records)), t) := by
  rcases keptWithin_spec room records with ⟨lost, split, inside, _⟩
  have whole : frames records = frames (keptWithin room records) ++ frames lost := by
    conv_lhs => rw [split]
    simp only [frames, List.flatMap_append]
  have valid : 8 + (frames (keptWithin room records)).length =
      (magic ++ frames (keptWithin room records)).length := by
    rw [List.length_append, length_magic]
  rw [recover_magic, recoverLoop_take replay records accepted room 8]
  change Cmd.bind (Cmd.bind _ _) _ s = _
  simp only [Cmd.bind, replayed]
  change (Except.ok _, t) = _
  rw [valid]
  congr 3
  have taken : (magic ++ (frames records).take room).take
      (magic ++ frames (keptWithin room records)).length =
      magic ++ frames (keptWithin room records) := by
    rw [whole]
    exact take_cut inside
  by_cases torn : (frames (keptWithin room records)).length < min room (frames records).length
  · simp only [torn, decide_true, if_true]
    exact taken
  · simp only [torn, decide_false, Bool.false_eq_true, if_false]
    have exact : (magic ++ (frames records).take room).length ≤
        (magic ++ frames (keptWithin room records)).length := by
      rw [List.length_append, List.length_append, List.length_take]
      omega
    rw [List.take_of_length_le exact] at taken
    exact taken

/-- Frames survive any torn tail.  Let a log of accepted records be cut after
any number of bytes that keeps the magic number.  Then recovery replays the
records whose frames lie entirely in the cut file, in order, and leaves the
file at exactly their frames; and once further records are appended there,
recovery replays the kept records followed by the new ones. -/
theorem recover_cut_log {replay : Replay σ} (calm : Calm replay) (records : List Record)
    (accepted : forall record, record ∈ records -> Accepted record) (cut : Bytes)
    (isCut : cut <+: magic ++ frames records) (hasMagic : 8 ≤ cut.length) (s : σ) :
    exists kept lost, records = kept ++ lost ∧
      (magic ++ frames kept).length ≤ cut.length ∧
      (forall record rest, lost = record :: rest ->
        cut.length < (magic ++ frames (kept ++ [record])).length) ∧
      (exists t, Cmd.forEach kept replay s = (.ok (), t) ∧
        recover cut replay s =
          (.ok ((magic ++ frames kept).length, cut.take (magic ++ frames kept).length), t)) ∧
      forall more, (forall record, record ∈ more -> Accepted record) ->
        exists t, Cmd.forEach (kept ++ more) replay s = (.ok (), t) ∧
          recover (cut.take (magic ++ frames kept).length ++ frames more) replay s =
            (.ok ((magic ++ frames (kept ++ more)).length, magic ++ frames (kept ++ more)), t) := by
  have cutEq : cut = magic ++ (frames records).take (cut.length - 8) := by
    have prefixed := List.prefix_iff_eq_take.mp isCut
    rw [List.take_append, length_magic,
      List.take_of_length_le (by rw [length_magic]; exact hasMagic)] at prefixed
    exact prefixed
  have room : cut.length - 8 + 8 = cut.length := by omega
  rcases keptWithin_spec (cut.length - 8) records with ⟨lost, split, inside, next⟩
  have left : cut.take (magic ++ frames (keptWithin (cut.length - 8) records)).length =
      magic ++ frames (keptWithin (cut.length - 8) records) := by
    have whole : frames records =
        frames (keptWithin (cut.length - 8) records) ++ frames lost := by
      conv_lhs => rw [split]
      simp only [frames, List.flatMap_append]
    have taken := @take_cut _ (frames lost) _ inside
    rw [← whole, ← cutEq] at taken
    exact taken
  refine ⟨keptWithin (cut.length - 8) records, lost, split, ?_, ?_, ?_, ?_⟩
  · rw [List.length_append, length_magic]
    omega
  · intro record rest equal
    have beyond := next record rest equal
    rw [List.length_append, length_magic]
    omega
  · rcases forEach_calm calm (keptWithin (cut.length - 8) records) s with ⟨t, replayed⟩
    refine ⟨t, replayed, ?_⟩
    rw [left]
    conv_lhs => rw [cutEq]
    exact recover_take records accepted _ replayed
  · intro more moreAccepted
    have allAccepted : forall record,
        record ∈ keptWithin (cut.length - 8) records ++ more -> Accepted record := by
      intro record member
      rcases List.mem_append.mp member with before | after
      · apply accepted
        rw [split]
        exact List.mem_append.mpr (Or.inl before)
      · exact moreAccepted record after
    rcases forEach_calm calm (keptWithin (cut.length - 8) records ++ more) s with ⟨t, replayed⟩
    refine ⟨t, replayed, ?_⟩
    have complete := keptWithin_of_le
      (Nat.le_refl (frames (keptWithin (cut.length - 8) records ++ more)).length)
    have recovered := recover_take (keptWithin (cut.length - 8) records ++ more) allAccepted
      (frames (keptWithin (cut.length - 8) records ++ more)).length
      (by rw [complete]; exact replayed)
    rw [complete, List.take_length] at recovered
    rw [left]
    have joined : magic ++ frames (keptWithin (cut.length - 8) records) ++ frames more =
        magic ++ frames (keptWithin (cut.length - 8) records ++ more) := by
      simp only [frames, List.flatMap_append, List.append_assoc]
    rw [joined]
    exact recovered

/-- The callback that only writes down what it is called with. -/
def collect : Replay (List Record) :=
  fun record => Cmd.update (fun seen => seen ++ [record])

/-- The log of a `del` and an `increment` record, and its first 37 bytes,
which end one byte before the second frame does. -/
theorem recover_cut_log_two :
    exists kept lost, [(⟨9, [[107]]⟩ : Record), ⟨1, [[107]]⟩] = kept ++ lost ∧
      exists t, Cmd.forEach kept collect [] = (.ok (), t) ∧
        recover ((magic ++ frames [⟨9, [[107]]⟩, ⟨1, [[107]]⟩]).take 37) collect [] =
          (.ok ((magic ++ frames kept).length,
            ((magic ++ frames [⟨9, [[107]]⟩, ⟨1, [[107]]⟩]).take 37).take
              (magic ++ frames kept).length), t) := by
  have accepted : forall record, record ∈ [(⟨9, [[107]]⟩ : Record), ⟨1, [[107]]⟩] ->
      Accepted record := by
    intro record member
    apply (accepted_iff record).mpr
    rcases List.mem_cons.mp member with equal | member
    · rw [equal]
      decide
    · rw [List.mem_singleton.mp member]
      decide
  have hasMagic : 8 ≤ ((magic ++ frames [⟨9, [[107]]⟩, ⟨1, [[107]]⟩]).take 37).length := by
    rw [List.length_take, List.length_append, length_magic]
    omega
  have calm : Calm collect := fun record seen => ⟨seen ++ [record], rfl⟩
  rcases recover_cut_log calm [⟨9, [[107]]⟩, ⟨1, [[107]]⟩] accepted _
      (List.take_prefix 37 _) hasMagic [] with ⟨kept, lost, split, _, _, recovered, _⟩
  exact ⟨kept, lost, split, recovered⟩

end Wal
end Reddish
