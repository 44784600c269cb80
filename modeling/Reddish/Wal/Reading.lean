import Reddish.Wal.Opening

namespace Reddish
namespace Wal

open Library Numeral

/-!
# Reading any file

A payload with a correct checksum may still hold anything.  The reader moves a
cursor through it and looks at the bytes behind the cursor; the checks that it
makes before each look keep it inside the payload.  The loop over the frames
ends because every frame takes bytes from the file.
-/

/-! ## The cursor -/

/-- `payload.size() - pos`, a difference of two numbers of 64 bits. -/
def remaining (payload : Bytes) (pos : Nat) : Nat :=
  (payload.length + 2 ^ 64 - pos) % 2 ^ 64

/-- Bytes behind a cursor; there are none to be read behind the end. -/
def readAt (payload : Bytes) (pos n : Nat) : Option Bytes :=
  if pos + n ≤ payload.length then some ((payload.drop pos).take n) else none

/-- The loop over the arguments with its cursor.  A read that leaves the payload
has no result at all; a payload that is rejected has the result `none`. -/
def scanArgs (payload : Bytes) : Nat -> Nat -> Option (Option (List Bytes × Nat))
  | 0, pos => some (some ([], pos))
  | count + 1, pos =>
      if remaining payload pos < 4 then some none
      else
        (readAt payload pos 4).bind fun header =>
          if (get32 header).toNat > remaining payload (pos + 4) then some none
          else
            (readAt payload (pos + 4) (get32 header).toNat).bind fun arg =>
              (scanArgs payload count (pos + 4 + (get32 header).toNat)).map fun outcome =>
                outcome.map fun result => (arg :: result.1, result.2)

/-- The two bytes in front of the arguments, and the arguments up to the end. -/
def scanPayload (payload : Bytes) : Option (Option Record) :=
  (readAt payload 0 1).bind fun op =>
    (readAt payload 1 1).bind fun count =>
      (scanArgs payload (count.getD 0 0).toNat 2).map fun outcome =>
        outcome.bind fun result =>
          if result.2 = payload.length then some ⟨op.getD 0 0, result.1⟩ else none

variable {payload : Bytes} {pos : Nat}

theorem remaining_eq (small : payload.length < 2 ^ 64) (inside : pos ≤ payload.length) :
    remaining payload pos = payload.length - pos := by
  unfold remaining
  omega

theorem get32_take {input : Bytes} (four : 4 ≤ input.length) :
    get32 (input.take 4) = get32 input := by
  have length : (input.take 4).length = 4 := List.length_take_of_le four
  conv_rhs => rw [<- List.take_append_drop 4 input]
  exact (get32_append length _).symm

/-- The cursor stays inside the payload. -/
theorem scanArgs_eq (small : payload.length < 2 ^ 64) (count : Nat) :
    forall {pos : Nat}, pos ≤ payload.length ->
      scanArgs payload count pos =
        some ((decodeArgs count (payload.drop pos)).map fun result =>
          (result.1, payload.length - result.2.length)) := by
  induction count with
  | zero =>
      intro pos inside
      simp only [scanArgs, decodeArgs, Option.map_some, List.length_drop]
      congr 3
      omega
  | succ count ih =>
      intro pos inside
      have left : (payload.drop pos).length = payload.length - pos := List.length_drop
      rw [scanArgs, decodeArgs, remaining_eq small inside, <- left]
      by_cases header : (payload.drop pos).length < 4
      · rw [if_pos header, if_pos header]
        rfl
      have four : pos + 4 ≤ payload.length := by omega
      have body : ((payload.drop pos).drop 4).length = payload.length - (pos + 4) := by
        rw [List.drop_drop, List.length_drop]
      rw [if_neg header, if_neg header, readAt, if_pos four, Option.bind_some,
        get32_take (Nat.not_lt.mp header), remaining_eq small four, <- body]
      by_cases long : (get32 (payload.drop pos)).toNat > ((payload.drop pos).drop 4).length
      · rw [if_pos long]
        simp only [if_pos long]
        rfl
      have whole : pos + 4 + (get32 (payload.drop pos)).toNat ≤ payload.length := by omega
      rw [if_neg long, readAt, if_pos whole, Option.bind_some, ih whole]
      simp only [if_neg long]
      simp only [List.drop_drop, Option.map_some]
      cases decodeArgs count (payload.drop (pos + 4 + (get32 (payload.drop pos)).toNat)) with
      | none => rfl
      | some result => rfl

/-- No read leaves a payload, whatever the payload holds. -/
theorem scanPayload_eq (header : 2 ≤ payload.length) (small : payload.length < 2 ^ 64) :
    scanPayload payload = some (decodePayload payload) := by
  rcases payload with _ | ⟨op, _ | ⟨count, args⟩⟩
  · cases header
  · exact absurd header (by simp)
  have first : readAt (op :: count :: args) 0 1 = some [op] := by
    rw [readAt, if_pos (by simp)]
    rfl
  have second : readAt (op :: count :: args) 1 1 = some [count] := by
    rw [readAt, if_pos (by simp)]
    rfl
  rw [scanPayload, first, Option.bind_some, second, Option.bind_some, scanArgs_eq small _ header,
    Option.map_some]
  simp only [decodePayload, List.getD_cons_zero, List.getD_cons_succ, List.drop_succ_cons,
    List.drop_zero]
  cases decoded : decodeArgs count.toNat args with
  | none => rfl
  | some result =>
      rcases result with ⟨values, rest⟩
      have length := congrArg List.length (decodeArgs_sound decoded).1
      rw [List.length_append] at length
      simp only [Option.map_some, Option.bind_some, List.length_cons]
      cases rest with
      | nil => rw [if_pos (by simp)]
      | cons byte more =>
          rw [List.length_cons] at length
          rw [if_neg (by rw [List.length_cons]; omega)]

/-! ## Two readers of one file -/

section Related

variable {σ τ : Type} {one : Replay σ} {two : Replay τ} {R : σ -> τ -> Prop}

/-- Two runs that both return the same and end in related states, or both throw. -/
def Together {α : Type} (R : σ -> τ -> Prop) (left : Except Exn α × σ) (right : Except Exn α × τ) :
    Prop :=
  (exists value s t, left = (.ok value, s) ∧ right = (.ok value, t) ∧ R s t) ∨
    exists thrown other s t, left = (.error thrown, s) ∧ right = (.error other, t)

theorem Together.bind {α β : Type} {left : Cmd Exn σ α} {right : Cmd Exn τ α}
    {leftRest : α -> Cmd Exn σ β} {rightRest : α -> Cmd Exn τ β} {s : σ} {t : τ}
    (first : Together R (left s) (right t))
    (second : forall value s t, R s t -> Together R (leftRest value s) (rightRest value t)) :
    Together R ((left >>= leftRest) s) ((right >>= rightRest) t) := by
  change Together R (Cmd.bind left leftRest s) (Cmd.bind right rightRest t)
  unfold Cmd.bind
  rcases first with ⟨value, s, t, ran, ranToo, related⟩ | ⟨thrown, other, s, t, ran, ranToo⟩
  · rw [ran, ranToo]
    exact second value s t related
  · rw [ran, ranToo]
    exact Or.inr ⟨thrown, other, s, t, rfl, rfl⟩

/-- Callbacks that stay together keep the readers together. -/
theorem recoverLoop_together
    (step : forall record s t, R s t -> Together R (one record s) (two record t)) (input : Bytes) :
    forall (valid : Nat) {s : σ} {t : τ}, R s t ->
      Together R (recoverLoop one input valid s) (recoverLoop two input valid t) := by
  induction total : input.length using Nat.strong_induction_on generalizing input with
  | _ bytes ih =>
  intro valid s t related
  have stop : forall outcome : Nat × Bool, Together R ((pure outcome : Cmd Exn σ _) s)
      ((pure outcome : Cmd Exn τ _) t) :=
    fun outcome => Or.inl ⟨outcome, s, t, rfl, rfl, related⟩
  have throw : Together R ((Cmd.raise (.error .diskReadFailed) : Cmd Exn σ (Nat × Bool)) s)
      ((Cmd.raise (.error .diskReadFailed) : Cmd Exn τ (Nat × Bool)) t) :=
    Or.inr ⟨_, _, s, t, rfl, rfl⟩
  rw [recoverLoop, recoverLoop]
  by_cases empty : input.length = 0
  · rw [if_pos empty, if_pos empty]
    exact stop _
  rw [if_neg empty, if_neg empty]
  by_cases short : input.length < 8
  · rw [dif_pos short, dif_pos short]
    exact stop _
  rw [dif_neg short, dif_neg short]
  by_cases range : (get32 input).toNat < 2 ∨ (get32 input).toNat > maxRecord
  · simp only [if_pos range]
    exact throw
  by_cases cut : (input.drop 8).length < (get32 input).toNat
  · simp only [if_neg range, if_pos cut]
    exact stop _
  by_cases checksum : crc ((input.drop 8).take (get32 input).toNat) ≠ get32 (input.drop 4)
  · simp only [if_neg range, if_neg cut, if_pos checksum]
    exact throw
  simp only [if_neg range, if_neg cut, if_neg checksum]
  cases decodePayload ((input.drop 8).take (get32 input).toNat) with
  | none => exact throw
  | some record =>
      refine Together.bind (step record s t related) ?_
      intro _ s t related
      refine ih _ ?_ _ rfl _ related
      simp only [List.length_drop]
      omega

theorem recover_together
    (step : forall record s t, R s t -> Together R (one record s) (two record t)) (file : Bytes)
    {s : σ} {t : τ} (related : R s t) : Together R (recover file one s) (recover file two t) := by
  unfold recover
  by_cases empty : file.length = 0
  · rw [if_pos empty, if_pos empty]
    exact Or.inl ⟨_, s, t, rfl, rfl, related⟩
  rw [if_neg empty, if_neg empty]
  by_cases foreign : file.length < 8 ∨ file.take 8 ≠ magic
  · rw [if_pos foreign, if_pos foreign]
    exact Or.inr ⟨_, _, s, t, rfl, rfl⟩
  rw [if_neg foreign, if_neg foreign]
  refine Together.bind (recoverLoop_together step _ _ related) ?_
  rintro ⟨valid, torn⟩ s t related
  exact Or.inl ⟨_, s, t, rfl, rfl, related⟩

end Related

end Wal
end Reddish
