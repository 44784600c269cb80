import Reddish.Wal.Corruption
import Reddish.Wal.Durability

namespace Reddish
namespace Wal

open Library Numeral

/-!
# Opening a log

The constructor of `Wal` replays whatever the file holds and goes on writing
behind it.  For the frames that follow to be readable, the bytes that were kept
have to be the frames of the records that were replayed: `recover` accepts no
other bytes than those `append` would have written.
-/

/-! ## Accepted bytes are frames -/

theorem put32_get32 {input : Bytes} (four : 4 ≤ input.length) :
    put32 (get32 input) = input.take 4 := by
  have length : (input.take 4).length = 4 := List.length_take_of_le four
  refine get32_injective (length_put32 _) length ?_
  rw [get32_put32_alone]
  conv_lhs => rw [<- List.take_append_drop 4 input]
  exact get32_append length _

/-- The arguments that were decoded are spelled by the bytes that were used. -/
theorem decodeArgs_sound {count : Nat} {input rest : Bytes} {args : List Bytes}
    (decoded : decodeArgs count input = some (args, rest)) :
    input = args.flatMap (fun arg => put32 (UInt32.ofNat arg.length) ++ arg) ++ rest ∧
      args.length = count := by
  induction count generalizing input args with
  | zero =>
      cases decoded
      exact ⟨rfl, rfl⟩
  | succ count ih =>
      simp only [decodeArgs] at decoded
      by_cases header : input.length < 4
      · rw [if_pos header] at decoded
        cases decoded
      rw [if_neg header] at decoded
      by_cases long : (get32 input).toNat > (input.drop 4).length
      · rw [if_pos long] at decoded
        cases decoded
      rw [if_neg long] at decoded
      cases found : decodeArgs count ((input.drop 4).drop (get32 input).toNat) with
      | none =>
          rw [found] at decoded
          cases decoded
      | some result =>
          rcases result with ⟨others, remaining⟩
          rw [found] at decoded
          rcases Prod.mk.inj (Option.some.inj decoded) with ⟨rfl, rfl⟩
          rcases ih found with ⟨spelled, length⟩
          have size : ((input.drop 4).take (get32 input).toNat).length = (get32 input).toNat :=
            List.length_take_of_le (Nat.not_lt.mp long)
          refine ⟨?_, by rw [List.length_cons, length]⟩
          rw [List.flatMap_cons, size, UInt32.ofNat_toNat, put32_get32 (Nat.not_lt.mp header),
            List.append_assoc, List.append_assoc, <- spelled, List.take_append_drop,
            List.take_append_drop]

theorem decodePayload_sound {bytes : Bytes} {record : Record} (header : 2 ≤ bytes.length)
    (decoded : decodePayload bytes = some record) :
    payload record = bytes ∧ record.args.length ≤ 255 := by
  rcases bytes with _ | ⟨op, _ | ⟨count, args⟩⟩
  · cases header
  · exact absurd header (by simp)
  simp only [decodePayload, List.getD_cons_zero, List.getD_cons_succ, List.drop_succ_cons,
    List.drop_zero] at decoded
  cases found : decodeArgs count.toNat args with
  | none =>
      rw [found] at decoded
      cases decoded
  | some result =>
      rcases result with ⟨decodedArgs, rest⟩
      rw [found] at decoded
      cases rest with
      | cons byte tail => cases decoded
      | nil =>
          cases decoded
          rcases decodeArgs_sound found with ⟨spelled, length⟩
          rw [List.append_nil] at spelled
          have bound := count.toNat_lt
          refine ⟨?_, by simp only [length]; omega⟩
          simp only [payload, length, UInt8.ofNat_toNat, <- spelled]

/-- A header, a matching checksum and a payload that decodes are a frame. -/
theorem frame_sound {input : Bytes} {record : Record} (header : 8 ≤ input.length)
    (large : 2 ≤ (get32 input).toNat) (small : (get32 input).toNat ≤ maxRecord)
    (inside : (get32 input).toNat ≤ (input.drop 8).length)
    (checksum : crc ((input.drop 8).take (get32 input).toNat) = get32 (input.drop 4))
    (decoded : decodePayload ((input.drop 8).take (get32 input).toNat) = some record) :
    Accepted record ∧ input = frame record ++ (input.drop 8).drop (get32 input).toNat ∧
      (frame record).length = 8 + (get32 input).toNat := by
  have size : ((input.drop 8).take (get32 input).toNat).length = (get32 input).toNat :=
    List.length_take_of_le inside
  rcases decodePayload_sound (by rw [size]; exact large) decoded with ⟨bytes, few⟩
  have length : (payload record).length = (get32 input).toNat := by rw [bytes, size]
  refine ⟨(accepted_iff record).mpr ⟨by rw [length]; exact small, few⟩, ?_, ?_⟩
  · have four : 4 ≤ (input.drop 4).length := by
      rw [List.length_drop]
      omega
    rw [frame_eq, length, UInt32.ofNat_toNat, bytes, checksum, put32_get32 (by omega),
      put32_get32 four]
    simp only [List.append_assoc, List.take_append_drop]
    rw [show input.drop 8 = (input.drop 4).drop 4 by rw [List.drop_drop], List.take_append_drop,
      List.take_append_drop]
  · rw [length_frame, length]

/-- The reader went through the frames of some records and replayed them. -/
def Accepts {σ : Type} (replay : Replay σ) (input : Bytes) (valid : Nat) (s t : σ)
    (outcome : Nat × Bool) : Prop :=
  exists records rest, input = frames records ++ rest ∧
    (forall record, record ∈ records -> Accepted record) ∧
    outcome.1 = valid + (frames records).length ∧ (outcome.2 = false -> rest = []) ∧
    Cmd.forEach records replay s = (.ok (), t) ∧
    forall seen, recoverLoop collect input valid seen = (.ok outcome, seen ++ records)

section Reader

variable {σ : Type} {replay : Replay σ} {input : Bytes} {valid : Nat} {s t : σ} {outcome : Nat × Bool}

theorem accepts_stop (torn : Bool) (whole : torn = false -> input = [])
    (stopped : forall {τ : Type} (callback : Replay τ),
      recoverLoop callback input valid = pure (valid, torn))
    (ran : recoverLoop replay input valid s = (.ok outcome, t)) :
    Accepts replay input valid s t outcome := by
  rw [stopped replay] at ran
  cases ran
  refine ⟨[], input, rfl, by simp, rfl, whole, rfl, ?_⟩
  intro seen
  rw [stopped collect, List.append_nil]
  rfl

theorem Accepts.frame {record : Record} {middle : σ} {tail : Bytes} (accepted : Accepted record)
    (split : input = Wal.frame record ++ tail) (called : replay record s = (.ok (), middle))
    (later : Accepts replay tail (valid + (Wal.frame record).length) middle t outcome) :
    Accepts replay input valid s t outcome := by
  rcases later with ⟨records, rest, whole, accept, count, ended, replayed, collected⟩
  refine ⟨record :: records, rest, ?_, ?_, ?_, ended, ?_, ?_⟩
  · change input = Wal.frame record ++ frames records ++ rest
    rw [List.append_assoc, <- whole]
    exact split
  · exact List.forall_mem_cons.mpr ⟨accepted, accept⟩
  · change _ = valid + (Wal.frame record ++ frames records).length
    rw [count, List.length_append, Nat.add_assoc]
  · change Cmd.bind (replay record) (fun _ => Cmd.forEach records replay) s = _
    unfold Cmd.bind
    rw [called]
    exact replayed
  · intro seen
    rw [split, recoverLoop_frame collect accepted]
    change recoverLoop collect _ _ (seen ++ [record]) = _
    rw [collected, List.append_assoc]
    rfl

end Reader

/-- What the reader accepted are the frames of the records it replayed. -/
theorem recoverLoop_sound {σ : Type} (replay : Replay σ) (input : Bytes) :
    forall (valid : Nat) (s t : σ) (outcome : Nat × Bool),
      recoverLoop replay input valid s = (.ok outcome, t) ->
      Accepts replay input valid s t outcome := by
  induction total : input.length using Nat.strong_induction_on generalizing input with
  | _ bytes ih =>
  intro valid s t outcome ran
  by_cases empty : input.length = 0
  · refine accepts_stop false (fun _ => List.eq_nil_of_length_eq_zero empty) (fun callback => ?_) ran
    rw [recoverLoop, if_pos empty]
  by_cases short : input.length < 8
  · refine accepts_stop true (fun whole => by cases whole) (fun callback => ?_) ran
    rw [recoverLoop, if_neg empty, dif_pos short]
  by_cases range : (get32 input).toNat < 2 ∨ (get32 input).toNat > maxRecord
  · rw [recoverLoop, if_neg empty, dif_neg short, if_pos range] at ran
    cases ran
  by_cases cut : (input.drop 8).length < (get32 input).toNat
  · refine accepts_stop true (fun whole => by cases whole) (fun callback => ?_) ran
    rw [recoverLoop, if_neg empty, dif_neg short, if_neg range, if_pos cut]
  by_cases checksum : crc ((input.drop 8).take (get32 input).toNat) ≠ get32 (input.drop 4)
  · rw [recoverLoop, if_neg empty, dif_neg short, if_neg range, if_neg cut,
      if_pos checksum] at ran
    cases ran
  cases decoded : decodePayload ((input.drop 8).take (get32 input).toNat) with
  | none =>
      rw [recoverLoop, if_neg empty, dif_neg short, if_neg range, if_neg cut, if_neg checksum,
        decoded] at ran
      cases ran
  | some record =>
      rcases frame_sound (Nat.not_lt.mp short) (by omega) (by omega) (Nat.not_lt.mp cut)
        (not_not.mp checksum) decoded with ⟨accepted, split, length⟩
      rw [split, recoverLoop_frame replay accepted] at ran
      change Cmd.bind (replay record) _ s = _ at ran
      unfold Cmd.bind at ran
      rcases called : replay record s with ⟨thrown | _, middle⟩
      · rw [called] at ran
        cases ran
      rw [called] at ran
      have shorter : ((input.drop 8).drop (get32 input).toNat).length < bytes := by
        simp only [List.length_drop]
        omega
      exact (ih _ shorter _ rfl _ _ _ _ ran).frame accepted split called

def recordsOf (file : Bytes) : List Record :=
  (recover file collect []).2

/-- A file that was recovered is empty, or the magic number with the frames of
the records that were replayed. -/
theorem recover_sound {σ : Type} {replay : Replay σ} {file left : Bytes} {s t : σ} {valid : Nat}
    (ran : recover file replay s = (.ok (valid, left), t)) :
    (file = [] ∧ left = [] ∧ valid = 0 ∧ t = s) ∨
      exists records, left = magic ++ frames records ∧ valid = left.length ∧
        left <+: file ∧ (forall record, record ∈ records -> Accepted record) ∧
        Cmd.forEach records replay s = (.ok (), t) ∧ recordsOf file = records := by
  by_cases empty : file.length = 0
  · unfold recover at ran
    rw [if_pos empty] at ran
    have nothing := List.eq_nil_of_length_eq_zero empty
    subst nothing
    cases ran
    exact Or.inl ⟨rfl, rfl, rfl, rfl⟩
  by_cases foreign : file.length < 8 ∨ file.take 8 ≠ magic
  · unfold recover at ran
    rw [if_neg empty, if_pos foreign] at ran
    cases ran
  rw [not_or, not_not] at foreign
  have whole : file = magic ++ file.drop 8 := by
    rw [<- foreign.2, List.take_append_drop]
  rw [whole, recover_magic] at ran
  change Cmd.bind (recoverLoop replay (file.drop 8) 8) _ s = _ at ran
  unfold Cmd.bind at ran
  rcases looped : recoverLoop replay (file.drop 8) 8 s with ⟨thrown | outcome, middle⟩
  · rw [looped] at ran
    cases ran
  rw [looped] at ran
  rcases recoverLoop_sound replay _ _ _ _ _ looped with
    ⟨records, rest, split, accepted, count, ended, replayed, collected⟩
  have collects : recordsOf file = records := by
    unfold recordsOf
    rw [whole, recover_magic]
    change (Cmd.bind (recoverLoop collect (file.drop 8) 8) _ []).2 = _
    unfold Cmd.bind
    rw [collected, List.nil_append]
    rfl
  have parts := Prod.mk.inj (Except.ok.inj (Prod.mk.inj ran).1)
  have last := (Prod.mk.inj ran).2
  have length : outcome.1 = (magic ++ frames records).length := by
    rw [count, List.length_append, length_magic]
  have prefixed : magic ++ file.drop 8 = magic ++ frames records ++ rest := by
    rw [split, List.append_assoc]
  have kept : left = magic ++ frames records := by
    rw [<- parts.2]
    by_cases torn : outcome.2 = true
    · rw [if_pos torn, length, prefixed]
      exact List.take_left
    · rw [if_neg torn, prefixed, ended (Bool.not_eq_true _ ▸ torn), List.append_nil]
  refine Or.inr ⟨records, kept, ?_, ?_, accepted, ?_, collects⟩
  · rw [<- parts.1, length, kept]
  · rw [whole, prefixed, kept]
    exact List.prefix_append _ _
  · rw [<- last]
    exact replayed

/-! ## The constructor -/

/-- What is found while a log is opened.  `opens` covers the lock file, the log
file and their locks; `readLimit` is the place of a read error; `truncates`,
`buffers`, `directory` and `starts` say whether a torn tail can be cut off, the
stream gets its buffer, a new file's directory is synced and the flusher
thread starts.  The other fields are the future of the log object. -/
structure Opening where
  file : Bytes
  sync : WalSync
  opens : Bool
  readLimit : Option Nat
  truncates : Bool
  buffers : Bool
  directory : Bool
  starts : Bool
  capacity : Nat
  io : Nat -> IoResult
  reserveFails : Nat -> Bool
  ticks : Nat -> Nat

/-- `recover` on a file that may have a read error.  The exceptions of the file
system itself are not told apart from read errors. -/
def readLog {σ : Type} (file : Bytes) (readLimit : Option Nat) (truncates : Bool)
    (replay : Replay σ) : Cmd Exn σ (Nat × Bytes) :=
  match readLimit with
  | none => do
      let outcome <- recover file replay
      Cmd.require (outcome.2 = file ∨ truncates = true) (.error .diskReadFailed)
      pure outcome
  | some limit => do
      let _ <- recover (file.take limit) replay
      Cmd.raise (.error .diskReadFailed)

/-- The members of a log whose file has been read.  Bytes that were found in
the file count as durable. -/
def attached (opening : Opening) (valid : Nat) (left : Bytes) : Wal where
  file := some ⟨left, left.length, left.length⟩
  sync := opening.sync
  bytes := valid
  failed := false
  dirty := false
  deferSync := false
  capacity := opening.capacity
  appended := recordsOf opening.file
  io := opening.io
  reserveFails := opening.reserveFails
  ticks := opening.ticks

/-- The magic number of a new file. -/
def writeMagic : Cmd Exn Wal Unit := do
  match <- ioCall with
  | .failed _ => Cmd.raise (.error .diskWriteFailed)
  | .done progress =>
      Cmd.update (fun wal =>
        { wal.withStream ((wal.stream.accept magic).spill progress) with
          bytes := magic.length
          dirty := true })

/-- The constructor after the file has been read. -/
def initialise (opening : Opening) (valid : Nat) : Cmd Exn Wal Unit := do
  Cmd.onlyIf (valid = 0) do
    writeMagic
    flushLocked
    Cmd.onlyIf (opening.sync ≠ .none)
      (Cmd.require (opening.directory = true) (.error .diskWriteFailed))
  Cmd.require (opening.starts = true) (.error .diskWriteFailed)

/-- A log that goes on behind the records of the file. -/
structure Started (opening : Opening) (wal : Wal) : Prop where
  sound : Sound wal
  sync : wal.sync = opening.sync
  appended : wal.appended = recordsOf opening.file

theorem writeMagic_spec {opening : Opening} (empty : recordsOf opening.file = []) :
    writeMagic.wp (fun _ after => Started opening after) (fun _ _ => True)
      (attached opening 0 []) := by
  unfold writeMagic
  refine wp_ioCall ?_ ?_
  · intro progress _
    trivial
  · intro progress _
    refine ⟨⟨?_, Nat.zero_le _, fun _ => rfl, ?_, ?_, ⟨[], by simp, ?_⟩, ?_, ?_⟩, rfl, rfl⟩
    · exact (LogFile.flushed_spill_le progress (Nat.zero_le _)).2
    · intro _
      change magic = magic ++ frames (recordsOf opening.file)
      rw [empty]
      rfl
    · intro _ record member
      change record ∈ recordsOf opening.file at member
      rw [empty] at member
      cases member
    · change magic <+: magic ++ frames (recordsOf opening.file ++ [])
      exact List.prefix_append _ _
    · intro _ impossible
      cases impossible
    · intro _ impossible
      cases impossible

/-- A log that was opened goes on behind the frames it has read. -/
theorem initialise_spec {σ : Type} {replay : Replay σ} {opening : Opening} {valid : Nat}
    {left : Bytes} {s t : σ} (ran : recover opening.file replay s = (.ok (valid, left), t)) :
    (initialise opening valid).wp (fun _ after => Started opening after) (fun _ _ => True)
      (attached opening valid left) := by
  have finish : forall wal, Started opening wal ->
      (Cmd.require (opening.starts = true) (Exn.error .diskWriteFailed) : Cmd Exn Wal Unit).wp
        (fun _ after => Started opening after) (fun _ _ => True) wal := by
    intro wal started
    exact Cmd.wp_require (fun _ => started) (fun _ => trivial)
  unfold initialise
  rw [Cmd.wp_bind]
  rcases recover_sound ran with ⟨nothing, rfl, rfl, -⟩ |
    ⟨records, kept, length, -, accepted, -, collected⟩
  · refine Cmd.wp_onlyIf ?_ (fun impossible => absurd rfl impossible)
    intro _
    have empty : recordsOf opening.file = [] := by rw [nothing]; rfl
    refine Cmd.wp_step (writeMagic_spec empty) ?_ (fun _ _ _ => trivial)
    intro _ written started
    refine Cmd.wp_step (flushLocked_spec started.sound) ?_ (fun _ _ _ => trivial)
    rintro _ flushed ⟨sound, quiet, -, -⟩
    have later : Started opening flushed :=
      ⟨sound, quiet.sync.trans started.sync, quiet.sameAppended.trans started.appended⟩
    refine Cmd.wp_onlyIf ?_ (fun _ => finish flushed later)
    intro _
    exact Cmd.wp_require (fun _ => finish flushed later) (fun _ => trivial)
  · have positive : valid ≠ 0 := by
      rw [length, kept, List.length_append, length_magic]
      omega
    refine Cmd.wp_onlyIf (fun impossible => absurd impossible positive) ?_
    intro _
    refine finish _ ⟨⟨Nat.le_refl _, Nat.le_refl _, fun _ => rfl, ?_, ?_, ⟨[], by simp, ?_⟩,
      fun _ _ _ => rfl, fun _ _ => rfl⟩, rfl, rfl⟩
    · intro _
      change left = magic ++ frames (recordsOf opening.file)
      rw [collected]
      exact kept
    · rw [<- collected] at accepted
      exact fun _ => accepted
    · change left <+: magic ++ frames (recordsOf opening.file ++ [])
      rw [collected, List.append_nil, <- kept]

/-- The constructor of `Wal`: read the file, then go on behind it. -/
def construct {σ : Type} (opening : Opening) (replay : Replay σ) : Cmd Exn σ Wal := do
  Cmd.require (opening.opens = true) (.error .diskWriteFailed)
  let outcome <- readLog opening.file opening.readLimit opening.truncates replay
  Cmd.require (opening.buffers = true) (.error .diskWriteFailed)
  let started := initialise opening outcome.1 (attached opening outcome.1 outcome.2)
  Cmd.lift (started.1.map fun _ => started.2)

section Invariant

variable {σ : Type} {replay : Replay σ} {I E : σ -> Prop}

theorem recoverLoop_invariant
    (weaker : forall s, I s -> E s)
    (keeps : forall record s, I s -> (replay record).wp (fun _ => I) (fun _ => E) s)
    (input : Bytes) : forall (valid : Nat) (s : σ), I s ->
      (recoverLoop replay input valid).wp (fun _ => I) (fun _ => E) s := by
  induction total : input.length using Nat.strong_induction_on generalizing input with
  | _ bytes ih =>
  intro valid s holds
  rw [recoverLoop]
  refine Cmd.wp_ite (fun _ => holds) ?_
  intro _
  split
  case isTrue => exact holds
  case isFalse long =>
    refine Cmd.wp_ite (fun _ => weaker s holds) ?_
    intro _
    refine Cmd.wp_ite (fun _ => holds) ?_
    intro _
    refine Cmd.wp_ite (fun _ => weaker s holds) ?_
    intro _
    cases decodePayload ((input.drop 8).take (get32 input).toNat) with
    | none => exact weaker s holds
    | some record =>
        simp only [Cmd.wp_bind]
        refine Cmd.wp_mono (keeps record s holds) ?_ (fun _ _ kept => kept)
        intro _ later kept
        refine ih _ ?_ _ rfl _ _ kept
        simp only [List.length_drop]
        omega

/-- What the callback keeps, the reader keeps. -/
theorem recover_invariant
    (weaker : forall s, I s -> E s)
    (keeps : forall record s, I s -> (replay record).wp (fun _ => I) (fun _ => E) s)
    (file : Bytes) {s : σ} (holds : I s) :
    (recover file replay).wp (fun _ => I) (fun _ => E) s := by
  unfold recover
  refine Cmd.wp_ite (fun _ => holds) ?_
  intro _
  refine Cmd.wp_ite (fun _ => weaker s holds) ?_
  intro _
  exact Cmd.wp_step (recoverLoop_invariant weaker keeps _ _ _ holds) (fun _ _ kept => kept)
    (fun _ _ kept => kept)

theorem readLog_invariant
    (weaker : forall s, I s -> E s)
    (keeps : forall record s, I s -> (replay record).wp (fun _ => I) (fun _ => E) s)
    (file : Bytes) (readLimit : Option Nat) (truncates : Bool) {s : σ} (holds : I s) :
    (readLog file readLimit truncates replay).wp
      (fun outcome after => I after ∧ recover file replay s = (.ok outcome, after))
      (fun _ => E) s := by
  unfold readLog
  cases readLimit with
  | some limit =>
      simp only [Cmd.wp_bind]
      exact Cmd.wp_mono (recover_invariant weaker keeps _ holds)
        (fun _ later kept => weaker later kept)
        (fun _ _ kept => kept)
  | none =>
      simp only [Cmd.wp_bind]
      refine Cmd.wp_mono (Cmd.wp_ran (recover_invariant weaker keeps file holds)) ?_
        (fun _ _ kept => kept)
      intro outcome after kept
      exact Cmd.wp_require (fun _ => kept) (fun _ => weaker after kept.1)

/-- What the callback keeps, the constructor keeps. -/
theorem construct_spec
    (weaker : forall s, I s -> E s)
    (keeps : forall record s, I s -> (replay record).wp (fun _ => I) (fun _ => E) s)
    (opening : Opening) {s : σ} (holds : I s) :
    (construct opening replay).wp (fun wal after => I after ∧ Started opening wal)
      (fun _ => E) s := by
  unfold construct
  rw [Cmd.wp_bind]
  refine Cmd.wp_require ?_ (fun _ => weaker s holds)
  intro _
  refine Cmd.wp_step (readLog_invariant weaker keeps _ _ _ holds) ?_ (fun _ _ kept => kept)
  rintro ⟨valid, left⟩ after ⟨kept, ran⟩
  rw [Cmd.wp_bind]
  refine Cmd.wp_require ?_ (fun _ => weaker after kept)
  intro _
  have started := initialise_spec ran
  unfold Cmd.wp at started
  unfold Cmd.lift Cmd.wp
  rcases outcome : initialise opening valid (attached opening valid left) with ⟨thrown | _, wal⟩
  · exact weaker after kept
  · rw [outcome] at started
    exact ⟨kept, started⟩

end Invariant

end Wal
end Reddish
