import Mathlib

namespace Reddish
namespace Library

/-!
# Draining a stream with a decoder

Input arrives in chunks and a decoder takes items from its front until what is
left is not a whole item.  A decoder whose answers do not change when more
input follows gives the same items however the stream was cut.
-/

/-- Takes one item from the front of its input and says how much it used.
An error is either final or a request for more input. -/
structure Decoder (α β ε : Type) where
  decode : List α -> Except ε (β × Nat)
  incomplete : ε -> Bool
  progress : forall {input item used}, decode input = .ok (item, used) -> 0 < used

namespace Decoder

variable {α β ε : Type} (decoder : Decoder α β ε)

/-- What more input cannot change: a decoded item, and a final error.  Where the input
was incomplete, nothing is said. -/
structure Stable : Prop where
  used_le : forall {input item used}, decoder.decode input = .ok (item, used) ->
    used ≤ input.length
  ok_append : forall {input item used}, decoder.decode input = .ok (item, used) ->
    forall more, decoder.decode (input ++ more) = .ok (item, used)
  error_append : forall {input code}, decoder.decode input = .error code -> input ≠ [] ->
    decoder.incomplete code = false -> forall more, decoder.decode (input ++ more) = .error code

/-- The items taken so far, how much input they used, the input that is left
and the final error, if there was one. -/
structure Drained (α β ε : Type) where
  items : List β
  offset : Nat
  unread : List α
  failure : Option ε

namespace Drained

def stop (input : List α) (failure : Option ε) : Drained α β ε where
  items := []
  offset := 0
  unread := input
  failure := failure

def push (rest : Drained α β ε) (item : β) (used : Nat) : Drained α β ε where
  items := item :: rest.items
  offset := used + rest.offset
  unread := rest.unread
  failure := rest.failure

/-- What an earlier and a later round took together. -/
def append (first second : Drained α β ε) : Drained α β ε where
  items := first.items ++ second.items
  offset := first.offset + second.offset
  unread := second.unread
  failure := second.failure

/-- The items, the offset and the final error agree. -/
def Agrees (first second : Drained α β ε) : Prop :=
  first.items = second.items ∧ first.offset = second.offset ∧ first.failure = second.failure

theorem push_append (item : β) (used : Nat) (first second : Drained α β ε) :
    (first.push item used).append second = (first.append second).push item used := by
  simp only [push, append, List.cons_append, Nat.add_assoc]

end Drained

section

variable {decoder} {input : List α}

theorem length_drop_lt (nonempty : input ≠ []) (outcome : decoder.decode input = .ok (item, used)) :
    (input.drop used).length < input.length := by
  have positive := decoder.progress outcome
  have length := List.length_pos_iff.mpr nonempty
  rw [List.length_drop]
  omega

end

/-- Take items until the input is used up or the decoder reports an error. -/
def drain (input : List α) : Drained α β ε :=
  if _ : input = [] then Drained.stop [] none
  else
    match _ : decoder.decode input with
    | .ok (item, used) =>
        (drain (input.drop used)).push item used
    | .error code =>
        Drained.stop input (if decoder.incomplete code then none else some code)
termination_by input.length
decreasing_by exact length_drop_lt ‹¬ input = []› ‹_›

/-- Append a chunk to the unread input and drain it, unless draining has
already ended in an error. -/
def feed (sofar : Drained α β ε) (chunk : List α) : Drained α β ε :=
  if sofar.failure.isSome then sofar
  else sofar.append (decoder.drain (sofar.unread ++ chunk))

section Equations

variable {decoder} {input : List α}

theorem drain_nil : decoder.drain [] = Drained.stop [] none := by
  rw [drain, dif_pos rfl]

theorem drain_ok (nonempty : input ≠ []) (outcome : decoder.decode input = .ok (item, used)) :
    decoder.drain input = (decoder.drain (input.drop used)).push item used := by
  rw [drain, dif_neg nonempty]
  split
  · next other otherUsed same =>
      rw [outcome] at same
      cases same
      rfl
  · next other same =>
      rw [outcome] at same
      cases same

theorem drain_error (nonempty : input ≠ []) (outcome : decoder.decode input = .error code) :
    decoder.drain input =
      Drained.stop input (if decoder.incomplete code then none else some code) := by
  rw [drain, dif_neg nonempty]
  split
  · next other otherUsed same =>
      rw [outcome] at same
      cases same
  · next other same =>
      rw [outcome] at same
      cases same
      rfl

theorem feed_stop (input chunk : List α) :
    decoder.feed (Drained.stop input none) chunk = decoder.drain (input ++ chunk) := by
  simp only [feed, Drained.stop, Option.isSome_none, Bool.false_eq_true, if_false,
    Drained.append, List.nil_append, Nat.zero_add]

theorem feed_failed {sofar : Drained α β ε} (failed : sofar.failure.isSome = true)
    (chunk : List α) : decoder.feed sofar chunk = sofar := by
  rw [feed, if_pos failed]

theorem feed_push (item : β) (used : Nat) (rest : Drained α β ε) (chunk : List α) :
    decoder.feed (rest.push item used) chunk = (decoder.feed rest chunk).push item used := by
  by_cases failed : rest.failure.isSome = true
  · rw [feed_failed failed, feed_failed (show (rest.push item used).failure.isSome = true
      from failed)]
  · rw [feed, if_neg (show ¬ (rest.push item used).failure.isSome = true from failed), feed,
      if_neg failed, Drained.push_append]
    rfl

theorem foldl_feed_failed {sofar : Drained α β ε} (failed : sofar.failure.isSome = true)
    (chunks : List (List α)) : chunks.foldl decoder.feed sofar = sofar := by
  induction chunks with
  | nil => rfl
  | cons chunk chunks ih =>
      rw [List.foldl_cons, feed_failed failed]
      exact ih

end Equations

/-! ## Fragmentation -/

section Fragments

variable {decoder} (stable : decoder.Stable)

include stable

/-- Draining a stream is draining its first part and then, unless that failed,
what it left together with the second part. -/
theorem Stable.drain_append (first second : List α) :
    (decoder.drain (first ++ second)).Agrees (decoder.feed (decoder.drain first) second) ∧
      ((decoder.drain first).failure = none ->
        decoder.drain (first ++ second) = decoder.feed (decoder.drain first) second) := by
  induction size : first.length using Nat.strong_induction_on generalizing first with
  | _ size ih =>
      subst size
      by_cases nonempty : first = []
      · subst nonempty
        rw [List.nil_append, drain_nil, feed_stop, List.nil_append]
        exact ⟨⟨rfl, rfl, rfl⟩, fun _ => rfl⟩
      · have longer : first ++ second ≠ [] :=
          fun empty => nonempty (List.append_eq_nil_iff.mp empty).1
        rcases outcome : decoder.decode first with code | ⟨item, used⟩
        · rw [drain_error nonempty outcome]
          by_cases incomplete : decoder.incomplete code = true
          · rw [if_pos incomplete, feed_stop]
            exact ⟨⟨rfl, rfl, rfl⟩, fun _ => rfl⟩
          · have final := stable.error_append outcome nonempty (Bool.eq_false_iff.mpr incomplete)
            rw [drain_error longer (final second), if_neg incomplete]
            refine ⟨⟨rfl, rfl, rfl⟩, fun none => ?_⟩
            cases none
        · have smaller := length_drop_lt nonempty outcome
          have rest := ih _ smaller (first.drop used) rfl
          have split : (first ++ second).drop used = first.drop used ++ second :=
            List.drop_append_of_le_length (stable.used_le outcome)
          rw [drain_ok nonempty outcome, drain_ok longer (stable.ok_append outcome second), split,
            feed_push]
          constructor
          · rcases rest.1 with ⟨items, offset, failure⟩
            exact ⟨congrArg (List.cons item) items, congrArg (fun n => used + n) offset, failure⟩
          · intro none
            rw [rest.2 none]

/-- Feeding a stream chunk by chunk gives what draining it at once gives,
wherever the chunks are cut. -/
theorem Stable.foldl_feed (stream : List α) (chunks : List (List α)) :
    (decoder.drain (stream ++ chunks.flatten)).Agrees
      (chunks.foldl decoder.feed (decoder.drain stream)) := by
  induction chunks generalizing stream with
  | nil =>
      rw [List.flatten_nil, List.append_nil]
      exact ⟨rfl, rfl, rfl⟩
  | cons chunk chunks ih =>
      rw [List.foldl_cons, List.flatten_cons]
      by_cases failed : (decoder.drain stream).failure = none
      · rw [<- (stable.drain_append stream chunk).2 failed, <- List.append_assoc]
        exact ih (stream ++ chunk)
      · have ended := Option.isSome_iff_ne_none.mpr failed
        have whole := (stable.drain_append stream (chunk ++ chunks.flatten)).1
        rw [feed_failed ended] at whole ⊢
        rw [foldl_feed_failed ended]
        exact whole

end Fragments

/-! ## Taking items one by one -/

section Takes

/-- Items are taken from the front of the input, and `rest` is left. -/
inductive Takes : List α -> List β -> List α -> Prop where
  | none (input : List α) : Takes input [] input
  | item {input rest : List α} {item : β} {used : Nat} {items : List β}
      (decoded : decoder.decode input = .ok (item, used))
      (others : Takes (input.drop used) items rest) : Takes input (item :: items) rest

variable {decoder} {input rest : List α} {items : List β}

theorem Takes.trans {last : List α} {others : List β} (first : decoder.Takes input items rest)
    (second : decoder.Takes rest others last) : decoder.Takes input (items ++ others) last := by
  induction first with
  | none input => exact second
  | item decoded _ ih => exact .item decoded (ih second)

variable (stable : decoder.Stable)

include stable

/-- Input that arrives later is left as well. -/
theorem Stable.takes_append (takes : decoder.Takes input items rest) (more : List α) :
    decoder.Takes (input ++ more) items (rest ++ more) := by
  induction takes with
  | none input => exact .none _
  | item decoded _ ih =>
      refine .item (stable.ok_append decoded more) ?_
      rw [List.drop_append_of_le_length (stable.used_le decoded)]
      exact ih

omit stable in
theorem Stable.nonempty {item : β} {used : Nat} (stable : decoder.Stable)
    (decoded : decoder.decode input = .ok (item, used)) : input ≠ [] := by
  rintro rfl
  have positive := decoder.progress decoded
  have short := stable.used_le decoded
  rw [List.length_nil] at short
  omega

/-- The items taken are the first ones of the stream. -/
theorem Stable.drain_takes (takes : decoder.Takes input items rest) :
    (decoder.drain input).items = items ++ (decoder.drain rest).items := by
  induction takes with
  | none input => rfl
  | item decoded _ ih =>
      rw [drain_ok (stable.nonempty decoded) decoded, List.cons_append, <- ih]
      rfl

end Takes

/-- What stands in front of the end of an item is a request for more input. -/
theorem Stable.incomplete_of_prefix {decoder : Decoder α β ε} (stable : decoder.Stable)
    {part more : List α} (valid : decoder.decode (part ++ more) = .ok (item, (part ++ more).length))
    (nonempty : part ≠ []) (proper : more ≠ []) :
    exists code, decoder.decode part = .error code ∧ decoder.incomplete code = true := by
  rcases outcome : decoder.decode part with code | ⟨other, used⟩
  · refine ⟨code, rfl, ?_⟩
    by_contra complete
    have final := stable.error_append outcome nonempty (Bool.eq_false_iff.mpr complete) more
    rw [valid] at final
    cases final
  · have whole := stable.ok_append outcome more
    rw [valid] at whole
    cases whole
    have short := stable.used_le outcome
    have length := List.length_pos_iff.mpr proper
    rw [List.length_append] at short
    omega

end Decoder

end Library
end Reddish
