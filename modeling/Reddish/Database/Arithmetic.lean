import Reddish.Library.Checked
import Reddish.Database.Runs

namespace Reddish

open Library Numeral

namespace Database

/-!
# The arithmetic of deadlines

The model wraps around where the source has signed arithmetic.  Here the four
places that compute with deadlines are written once more with operations that
have no result when they overflow, reading after reading as in the source.
Where they have a result, it is the one the model works with.
-/

open Checked (Fits)

/-- What `expire` does with a key that it has found. -/
inductive ExpireDecision where
  | erase
  | refuse
  | schedule (deadline wall : Int64)
  deriving DecidableEq

/-- The arithmetic of `expire`: the steady clock is read once, the wall clock
once for the guard and once more for the stamp. -/
def strictExpire (seconds now first second : Int64) : Option ExpireDecision :=
  if seconds ≤ 0 then some .erase
  else
    (Checked.sub Int64.maxValue (max now first)).bind fun room =>
      if seconds > room / 1000 then some .refuse
      else
        (Checked.mul seconds 1000).bind fun span =>
          (Checked.add now span).bind fun deadline =>
            (Checked.mul seconds 1000).bind fun span =>
              (Checked.add second span).bind fun wall => some (.schedule deadline wall)

def strictReplay (wall current now : Int64) : Option Int64 :=
  (if wall > current then Checked.sub wall current else some 0).bind fun remaining =>
    Checked.add now remaining

def strictTtl (deadline now : Int64) : Option Int64 :=
  (Checked.sub deadline now).bind fun remaining =>
    some (if remaining ≤ 0 then -2 else remaining / 1000)

/-- The arithmetic of `compact_wal` for a deadline; nothing is written if the
stamp would be out of range. -/
def strictStamp (deadline steady wall : Int64) : Option (Option Int64) :=
  (Checked.sub deadline steady).bind fun difference =>
    (Checked.sub Int64.maxValue wall).bind fun room =>
      if max 0 difference > room then some none
      else (Checked.add wall (max 0 difference)).map some

variable {seconds now first second deadline wall current steady : Int64}

/-! ## Bounds -/

theorem nonneg_iff {n : Int64} : 0 ≤ n <-> 0 ≤ n.toInt :=
  Int64.le_iff_toInt_le

theorem toInt_maxValue : Int64.maxValue.toInt = 2 ^ 63 - 1 := by
  decide

theorem toInt_max (a b : Int64) : (max a b).toInt = max a.toInt b.toInt := by
  change (if a ≤ b then b else a).toInt = _
  by_cases less : a ≤ b
  · rw [if_pos less, max_eq_right (Int64.le_iff_toInt_le.mp less)]
  · have greater := Int64.lt_iff_toInt_lt.mp (Int64.not_le.mp less)
    rw [if_neg less, max_eq_left greater.le]

theorem toInt_div_thousand {n : Int64} (nonneg : 0 ≤ n.toInt) :
    (n / 1000).toInt = n.toInt / 1000 := by
  have bound := Checked.bounds n
  rw [Int64.toInt_div]
  change (n.toInt.tdiv 1000).bmod (2 ^ 64) = _
  rw [Int.tdiv_eq_ediv_of_nonneg nonneg, Checked.bmod_of_fits ⟨by omega, by omega⟩]

/-- The guard of `expire` leaves room for the sum on the steady clock. -/
theorem toInt_room (nowNonneg : 0 ≤ now) (firstNonneg : 0 ≤ first) :
    Fits (Int64.maxValue.toInt - (max now first).toInt) ∧
      (Int64.maxValue - max now first).toInt = 2 ^ 63 - 1 - max now.toInt first.toInt := by
  have one := nonneg_iff.mp nowNonneg
  have two := nonneg_iff.mp firstNonneg
  have fits : Fits (Int64.maxValue.toInt - (max now first).toInt) := by
    refine Checked.fits_sub (by decide) ?_
    rw [toInt_max]
    omega
  refine ⟨fits, ?_⟩
  rw [Checked.toInt_sub fits, toInt_maxValue, toInt_max]

theorem guarded_iff (nowNonneg : 0 ≤ now) (firstNonneg : 0 ≤ first) :
    ¬ seconds > maxSeconds now first <->
      seconds.toInt * 1000 + max now.toInt first.toInt ≤ 2 ^ 63 - 1 := by
  have room := (toInt_room nowNonneg firstNonneg).2
  have low := Checked.bounds now
  have high := Checked.bounds first
  have nonneg : 0 ≤ (Int64.maxValue - max now first).toInt := by
    rw [room]
    omega
  rw [gt_iff_lt, Int64.not_lt, Int64.le_iff_toInt_le, maxSeconds, toInt_div_thousand nonneg, room]
  omega

/-- Behind the guard the product fits, and so does the sum on the steady
clock. -/
theorem span_fits (nowNonneg : 0 ≤ now) (firstNonneg : 0 ≤ first) (positive : 0 < seconds)
    (accepted : ¬ seconds > maxSeconds now first) :
    Fits (seconds.toInt * (1000 : Int64).toInt) ∧
      (seconds * 1000).toInt = seconds.toInt * 1000 ∧
      Fits (now.toInt + (seconds * 1000).toInt) := by
  have guarded := (guarded_iff nowNonneg firstNonneg).mp accepted
  have more : 0 < seconds.toInt := Int64.lt_iff_toInt_lt.mp positive
  have one := nonneg_iff.mp nowNonneg
  have thousand : (1000 : Int64).toInt = 1000 := by decide
  have product : Fits (seconds.toInt * (1000 : Int64).toInt) := by
    rw [thousand]
    exact ⟨by omega, by omega⟩
  have span := Checked.toInt_mul product
  rw [thousand] at span
  refine ⟨product, span, ?_⟩
  rw [span]
  exact ⟨by omega, by omega⟩

/-- Once the guard of `expire` is passed, only the stamp can overflow. -/
theorem strictExpire_eq (nowNonneg : 0 ≤ now) (firstNonneg : 0 ≤ first) (positive : 0 < seconds) :
    strictExpire seconds now first second =
      if seconds > maxSeconds now first then some .refuse
      else if Fits (second.toInt + seconds.toInt * 1000) then
        some (.schedule (now + seconds * 1000) (second + seconds * 1000))
      else none := by
  have room := (toInt_room nowNonneg firstNonneg).1
  unfold strictExpire
  rw [if_neg (Int64.not_le.mpr positive), Checked.sub_fits room, Option.bind_some]
  change (if seconds > maxSeconds now first then _ else _) = _
  by_cases refused : seconds > maxSeconds now first
  · rw [if_pos refused, if_pos refused]
  · rcases span_fits nowNonneg firstNonneg positive refused with ⟨product, span, sum⟩
    rw [if_neg refused, if_neg refused, Checked.mul_fits product, Option.bind_some,
      Checked.add_fits sum, Option.bind_some, Option.bind_some, Checked.add, Checked.guard, span]
    by_cases fits : Fits (second.toInt + seconds.toInt * 1000)
    · rw [if_pos fits, if_pos fits, Option.bind_some]
    · rw [if_neg fits, if_neg fits, Option.bind_none]

theorem le_deadline (nowNonneg : 0 ≤ now) (firstNonneg : 0 ≤ first) (positive : 0 < seconds)
    (accepted : ¬ seconds > maxSeconds now first) : now ≤ now + seconds * 1000 := by
  rcases span_fits nowNonneg firstNonneg positive accepted with ⟨-, span, sum⟩
  have more : 0 < seconds.toInt := Int64.lt_iff_toInt_lt.mp positive
  rw [Int64.le_iff_toInt_le, Checked.toInt_add sum, span]
  omega

/-! ## Stamps -/

/-- The time that a stamp leaves, on integers. -/
theorem toInt_remaining (wallNonneg : 0 ≤ wall) (currentNonneg : 0 ≤ current) :
    (if wall > current then wall - current else 0).toInt = max 0 (wall.toInt - current.toInt) := by
  have fits := Checked.fits_sub (nonneg_iff.mp wallNonneg) (nonneg_iff.mp currentNonneg)
  by_cases later : wall > current
  · have order := Int64.lt_iff_toInt_lt.mp later
    rw [if_pos later, Checked.toInt_sub fits]
    omega
  · have order := Int64.le_iff_toInt_le.mp (Int64.not_lt.mp later)
    rw [if_neg later]
    change (0 : Int) = _
    omega

/-- During a replay only the sum on the steady clock can overflow. -/
theorem strictReplay_eq (wallNonneg : 0 ≤ wall) (currentNonneg : 0 ≤ current) :
    strictReplay wall current now =
      if Fits (now.toInt + max 0 (wall.toInt - current.toInt)) then
        some (now + if wall > current then wall - current else 0)
      else none := by
  have fits := Checked.fits_sub (nonneg_iff.mp wallNonneg) (nonneg_iff.mp currentNonneg)
  have remaining := toInt_remaining wallNonneg currentNonneg
  have taken : (if wall > current then Checked.sub wall current else some 0) =
      some (if wall > current then wall - current else 0) := by
    by_cases later : wall > current
    · rw [if_pos later, if_pos later, Checked.sub_fits fits]
    · rw [if_neg later, if_neg later]
  rw [strictReplay, taken, Option.bind_some, Checked.add, Checked.guard, remaining]

theorem strictTtl_eq (deadlineNonneg : 0 ≤ deadline) (nowNonneg : 0 ≤ now) :
    strictTtl deadline now = some (remainingSeconds deadline now) := by
  have fits := Checked.fits_sub (nonneg_iff.mp deadlineNonneg) (nonneg_iff.mp nowNonneg)
  rw [strictTtl, Checked.sub_fits fits, Option.bind_some, remainingSeconds]

/-- The guard of `compact_wal` covers the sum behind it. -/
theorem strictStamp_eq (deadlineNonneg : 0 ≤ deadline) (steadyNonneg : 0 ≤ steady)
    (wallNonneg : 0 ≤ wall) :
    strictStamp deadline steady wall =
      some (if max 0 (deadline - steady) > Int64.maxValue - wall then none
        else some (wall + max 0 (deadline - steady))) := by
  have difference := Checked.fits_sub (nonneg_iff.mp deadlineNonneg) (nonneg_iff.mp steadyNonneg)
  have room : Fits (Int64.maxValue.toInt - wall.toInt) :=
    Checked.fits_sub (by decide) (nonneg_iff.mp wallNonneg)
  rw [strictStamp, Checked.sub_fits difference, Option.bind_some, Checked.sub_fits room,
    Option.bind_some]
  by_cases large : max 0 (deadline - steady) > Int64.maxValue - wall
  · rw [if_pos large, if_pos large]
  · have order := Int64.le_iff_toInt_le.mp (Int64.not_lt.mp large)
    have nonneg := nonneg_iff.mp wallNonneg
    rw [Checked.toInt_sub room, toInt_maxValue, toInt_max] at order
    have left : (0 : Int64).toInt = 0 := rfl
    rw [left] at order
    have sum : Fits (wall.toInt + (max 0 (deadline - steady)).toInt) := by
      rw [toInt_max, left]
      exact ⟨by omega, by omega⟩
    rw [if_neg large, if_neg large, Checked.add_fits sum, Option.map_some]

/-! ## The operations -/

variable {world : World} {addr : Addr} {key : Bytes}

def afterExpireReadings (world : World) : World :=
  { world with steady := world.steady.later, wall := world.wall.later.later }

def afterReplayReadings (world : World) : World :=
  { world with steady := world.steady.later, wall := world.wall.later }

theorem expireLater_strict {wall deadline : Int64} (positive : 0 < seconds)
    (defined : strictExpire seconds (world.steady.reading 0) (world.wall.reading 0)
      (world.wall.reading 1) = some (.schedule deadline wall)) :
    expireLater addr key seconds world =
      (allocate >>= fun _ => expireAt addr key deadline (decimalInt wall.toInt))
        (afterExpireReadings world) := by
  rw [strictExpire_eq (world.steady.nonneg 0) (world.wall.nonneg 0) positive] at defined
  change (if seconds > maxSeconds (world.steady.reading 0) (world.wall.reading 0) then
      Cmd.raise (.error .valueNotInteger) else _ : Op Bool) _ = _
  by_cases refused : seconds > maxSeconds (world.steady.reading 0) (world.wall.reading 0)
  · rw [if_pos refused] at defined
    cases defined
  · rw [if_neg refused] at defined ⊢
    split at defined
    · cases defined
      rfl
    · cases defined

theorem replayExpiry_strict {wall deadline : Int64} (nonneg : 0 ≤ wall)
    (defined : strictReplay wall (world.wall.reading 0) (world.steady.reading 0) = some deadline) :
    replayExpiry addr wall world = scheduleExpiry addr deadline (afterReplayReadings world) := by
  rw [strictReplay_eq nonneg (world.wall.nonneg 0)] at defined
  change (if wall < 0 then unreadable else _ : Op Unit) _ = _
  rw [if_neg (Int64.not_lt.mpr nonneg)]
  split at defined
  · cases defined
    rfl
  · cases defined

/-- The deadline that a replay stores, when the sum does not overflow. -/
theorem le_replayed {wall : Int64} (wallNonneg : 0 ≤ wall) (currentNonneg : 0 ≤ current)
    (defined : strictReplay wall current now = some deadline) : now ≤ deadline := by
  rw [strictReplay_eq wallNonneg currentNonneg] at defined
  split at defined
  case isTrue fits =>
    cases defined
    have remaining := toInt_remaining wallNonneg currentNonneg
    rw [<- remaining] at fits
    rw [Int64.le_iff_toInt_le, Checked.toInt_add fits, remaining]
    omega
  case isFalse => cases defined

/-- The readings of an operation overflow in two places only: `expire` when the
wall clock moves between its guard and its stamp, and a replay when the steady
clock is ahead of the time that the stamp leaves.  Otherwise the operations
continue with the exact results, and no deadline lies before the reading it was
computed from. -/
theorem expiry_arithmetic_iff (world : World) (addr : Addr) (key : Bytes) :
    (forall seconds, (strictExpire seconds (world.steady.reading 0) (world.wall.reading 0)
        (world.wall.reading 1)).isSome = true <->
      seconds ≤ 0 ∨ maxSeconds (world.steady.reading 0) (world.wall.reading 0) < seconds ∨
        (world.wall.reading 1).toInt + seconds.toInt * 1000 < 2 ^ 63) ∧
    (forall stamp, 0 ≤ stamp ->
      ((strictReplay stamp (world.wall.reading 0) (world.steady.reading 0)).isSome = true <->
        (world.steady.reading 0).toInt +
          max 0 (stamp.toInt - (world.wall.reading 0).toInt) < 2 ^ 63)) ∧
    (forall deadline, 0 ≤ deadline ->
      (strictTtl deadline (world.steady.reading 0)).isSome = true ∧
      (strictStamp deadline (world.steady.reading 0) (world.wall.reading 0)).isSome = true) ∧
    (forall seconds, 0 < seconds -> seconds ≤ maxSeconds (world.steady.reading 0)
        (world.wall.reading 0) ->
      world.steady.reading 0 ≤ world.steady.reading 0 + seconds * 1000) ∧
    (forall seconds deadline wall, strictExpire seconds (world.steady.reading 0)
        (world.wall.reading 0) (world.wall.reading 1) = some (.schedule deadline wall) ->
      expireLater addr key seconds world =
        (allocate >>= fun _ => expireAt addr key deadline (decimalInt wall.toInt))
          (afterExpireReadings world)) ∧
    (forall stamp deadline, 0 ≤ stamp ->
      strictReplay stamp (world.wall.reading 0) (world.steady.reading 0) = some deadline ->
      world.steady.reading 0 ≤ deadline ∧
        replayExpiry addr stamp world = scheduleExpiry addr deadline
          (afterReplayReadings world)) := by
  have steady := world.steady.nonneg 0
  have first := world.wall.nonneg 0
  have second := nonneg_iff.mp (world.wall.nonneg 1)
  refine ⟨?_, ?_, ?_, ?_, ?_, ?_⟩
  · intro seconds
    by_cases positive : seconds ≤ 0
    · rw [strictExpire, if_pos positive]
      exact iff_of_true rfl (Or.inl positive)
    · have more := Int64.lt_iff_toInt_lt.mp (Int64.not_le.mp positive)
      change 0 < seconds.toInt at more
      rw [strictExpire_eq steady first (Int64.not_le.mp positive)]
      by_cases refused : seconds > maxSeconds (world.steady.reading 0) (world.wall.reading 0)
      · rw [if_pos refused]
        exact iff_of_true rfl (Or.inr (Or.inl refused))
      · rw [if_neg refused]
        by_cases fits : Fits ((world.wall.reading 1).toInt + seconds.toInt * 1000)
        · rw [if_pos fits]
          exact iff_of_true rfl (Or.inr (Or.inr fits.2))
        · rw [if_neg fits]
          refine iff_of_false Bool.false_ne_true ?_
          rintro (impossible | impossible | small)
          · exact positive impossible
          · exact refused impossible
          · exact fits ⟨by omega, small⟩
  · intro stamp nonneg
    have now := nonneg_iff.mp steady
    rw [strictReplay_eq nonneg first]
    by_cases fits : Fits ((world.steady.reading 0).toInt +
        max 0 (stamp.toInt - (world.wall.reading 0).toInt))
    · rw [if_pos fits]
      exact iff_of_true rfl fits.2
    · rw [if_neg fits]
      exact iff_of_false Bool.false_ne_true fun small => fits ⟨by omega, small⟩
  · intro deadline nonneg
    rw [strictTtl_eq nonneg steady, strictStamp_eq nonneg steady first]
    exact ⟨rfl, rfl⟩
  · intro seconds positive accepted
    exact le_deadline steady first positive (Int64.not_lt.mpr accepted)
  · intro seconds deadline wall defined
    refine expireLater_strict ?_ defined
    by_contra past
    rw [strictExpire, if_pos (Int64.not_lt.mp past)] at defined
    cases defined
  · intro stamp deadline nonneg defined
    exact ⟨le_replayed nonneg first defined, replayExpiry_strict nonneg defined⟩

theorem expiry_arithmetic_timed :
    strictExpire 3 (timed.steady.reading 0) (timed.wall.reading 0) (timed.wall.reading 1) =
        some (.schedule 8000 3000) ∧
      expireLater 0 [97] 3 timed =
        (allocate >>= fun _ => expireAt 0 [97] 8000 (decimalInt 3000)) (afterExpireReadings timed) ∧
      replayExpiry 0 7000 timed = scheduleExpiry 0 12000 (afterReplayReadings timed) := by
  have arithmetic := expiry_arithmetic_iff timed 0 [97]
  have defined : strictExpire 3 (timed.steady.reading 0) (timed.wall.reading 0)
      (timed.wall.reading 1) = some (.schedule 8000 3000) := by decide +kernel
  exact ⟨defined, arithmetic.2.2.2.2.1 3 8000 3000 defined,
    (arithmetic.2.2.2.2.2 7000 12000 (by decide) (by decide +kernel)).2⟩

/-- A clock that moves between the first reading and the second. -/
def Clock.ticking : Clock :=
  ⟨fun n => if n = 0 then 0 else 808, fun n => by split <;> decide⟩

def Clock.ahead : Clock :=
  ⟨fun _ => 1, fun _ => by decide⟩

/-- The largest number of seconds that the guard accepts overflows the stamp when
the wall clock ticks; the largest stamp overflows a replay whose steady clock is
ahead of the wall clock, and the key gets a deadline in the past. -/
theorem expiry_overflows :
    strictExpire 9223372036854775 (Clock.still.reading 0) (Clock.ticking.reading 0)
        (Clock.ticking.reading 1) = none ∧
      (Clock.ticking.reading 1 + 9223372036854775 * 1000) < 0 ∧
      strictReplay 9223372036854775807 (Clock.still.reading 0) (Clock.ahead.reading 0) = none ∧
      (replayExpireAt [97] (ascii "9223372036854775807")
        { oneKey with steady := Clock.ahead }).2.db.deadline 0 = some (-9223372036854775808) := by
  decide +kernel

end Database

end Reddish
