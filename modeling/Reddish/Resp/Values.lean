import Reddish.Resp.Parser

namespace Reddish

open Library Numeral

namespace Resp

/-!
# Replies as values

A reply is a value: a line, an integer, a string of bytes or an array of
values.  The grammar of its spelling says nothing about how it is read.  A
reader that only counts the values it still expects sees a sequence of
elements, in which the header of an array stands for its items; counting is
shown to recognise exactly the grammar.
-/

inductive Reply where
  | simple (text : Bytes)
  | error (text : Bytes)
  | integer (n : Int64)
  | bulk (data : Bytes)
  | nullBulk
  | array (items : List Reply)
  | nullArray

/-- Values spelled one behind the other.  A line ends at the first CRLF, and a
number is an optional minus sign with digits, in the range of 64 bits. -/
inductive Spells : List Reply -> Bytes -> Prop where
  | nil : Spells [] []
  | simple {text more : Bytes} {replies : List Reply} (line : ¬ crlf <:+: text)
      (rest : Spells replies more) :
      Spells (.simple text :: replies) (43 :: (text ++ (crlf ++ more)))
  | error {text more : Bytes} {replies : List Reply} (line : ¬ crlf <:+: text)
      (rest : Spells replies more) :
      Spells (.error text :: replies) (45 :: (text ++ (crlf ++ more)))
  | integer {digits more : Bytes} {n : Int64} {replies : List Reply}
      (spelled : parseInt64 digits = some n) (rest : Spells replies more) :
      Spells (.integer n :: replies) (58 :: (digits ++ (crlf ++ more)))
  | bulk {digits data more : Bytes} {length : Int64} {replies : List Reply}
      (spelled : parseInt64 digits = some length) (size : length.toInt = data.length)
      (rest : Spells replies more) :
      Spells (.bulk data :: replies) (36 :: (digits ++ (crlf ++ (data ++ (crlf ++ more)))))
  | nullBulk {digits more : Bytes} {replies : List Reply}
      (spelled : parseInt64 digits = some (-1)) (rest : Spells replies more) :
      Spells (.nullBulk :: replies) (36 :: (digits ++ (crlf ++ more)))
  | array {digits contents more : Bytes} {count : Int64} {items replies : List Reply}
      (spelled : parseInt64 digits = some count) (size : count.toInt = items.length)
      (inner : Spells items contents) (rest : Spells replies more) :
      Spells (.array items :: replies) (42 :: (digits ++ (crlf ++ (contents ++ more))))
  | nullArray {digits more : Bytes} {replies : List Reply}
      (spelled : parseInt64 digits = some (-1)) (rest : Spells replies more) :
      Spells (.nullArray :: replies) (42 :: (digits ++ (crlf ++ more)))

def Complete (text : Bytes) : Prop :=
  exists reply, Spells [reply] text

namespace Spells

variable {replies others : List Reply} {text more : Bytes}

theorem append (first : Spells replies text) (second : Spells others more) :
    Spells (replies ++ others) (text ++ more) := by
  induction first with
  | nil => exact second
  | simple line _ ih =>
      simp only [List.cons_append, List.append_assoc]
      exact .simple line ih
  | error line _ ih =>
      simp only [List.cons_append, List.append_assoc]
      exact .error line ih
  | integer spelled _ ih =>
      simp only [List.cons_append, List.append_assoc]
      exact .integer spelled ih
  | bulk spelled size _ ih =>
      simp only [List.cons_append, List.append_assoc]
      exact .bulk spelled size ih
  | nullBulk spelled _ ih =>
      simp only [List.cons_append, List.append_assoc]
      exact .nullBulk spelled ih
  | array spelled size inner _ _ ih =>
      simp only [List.cons_append, List.append_assoc]
      exact .array spelled size inner ih
  | nullArray spelled _ ih =>
      simp only [List.cons_append, List.append_assoc]
      exact .nullArray spelled ih

/-- Values can be cut between two of them. -/
theorem split (whole : Spells (replies ++ others) text) :
    exists first second, text = first ++ second ∧ Spells replies first ∧ Spells others second := by
  induction replies generalizing text with
  | nil => exact ⟨[], text, rfl, .nil, whole⟩
  | cons reply replies ih =>
      cases whole with
      | simple line rest =>
          rcases ih rest with ⟨first, second, rfl, left, right⟩
          exact ⟨_, second, by simp, .simple line left, right⟩
      | error line rest =>
          rcases ih rest with ⟨first, second, rfl, left, right⟩
          exact ⟨_, second, by simp, .error line left, right⟩
      | integer spelled rest =>
          rcases ih rest with ⟨first, second, rfl, left, right⟩
          exact ⟨_, second, by simp, .integer spelled left, right⟩
      | bulk spelled size rest =>
          rcases ih rest with ⟨first, second, rfl, left, right⟩
          exact ⟨_, second, by simp, .bulk spelled size left, right⟩
      | nullBulk spelled rest =>
          rcases ih rest with ⟨first, second, rfl, left, right⟩
          exact ⟨_, second, by simp, .nullBulk spelled left, right⟩
      | array spelled size inner rest =>
          rcases ih rest with ⟨first, second, rfl, left, right⟩
          exact ⟨_, second, by simp, .array spelled size inner left, right⟩
      | nullArray spelled rest =>
          rcases ih rest with ⟨first, second, rfl, left, right⟩
          exact ⟨_, second, by simp, .nullArray spelled left, right⟩

end Spells

/-! ## Counting values -/

/-- An element of a reply, and how many values it announces: a whole value, or
the header of an array. -/
inductive Element : Bytes -> Nat -> Prop where
  | simple {text : Bytes} (line : ¬ crlf <:+: text) : Element (43 :: (text ++ crlf)) 0
  | error {text : Bytes} (line : ¬ crlf <:+: text) : Element (45 :: (text ++ crlf)) 0
  | integer {digits : Bytes} {n : Int64} (spelled : parseInt64 digits = some n) :
      Element (58 :: (digits ++ crlf)) 0
  | bulk {digits data : Bytes} {length : Int64} (spelled : parseInt64 digits = some length)
      (size : length.toInt = data.length) : Element (36 :: (digits ++ (crlf ++ (data ++ crlf)))) 0
  | nullBulk {digits : Bytes} (spelled : parseInt64 digits = some (-1)) :
      Element (36 :: (digits ++ crlf)) 0
  | array {digits : Bytes} {count : Int64} {items : Nat}
      (spelled : parseInt64 digits = some count) (size : count.toInt = items) :
      Element (42 :: (digits ++ crlf)) items
  | nullArray {digits : Bytes} (spelled : parseInt64 digits = some (-1)) :
      Element (42 :: (digits ++ crlf)) 0

/-- Elements that take a counter of expected values down to zero, as the client
counts them: an array adds the number of its items. -/
inductive Counted : Nat -> Bytes -> Prop where
  | nil : Counted 0 []
  | cons {pending items : Nat} {piece rest : Bytes} (first : Element piece items)
      (others : Counted (pending + items) rest) : Counted (pending + 1) (piece ++ rest)

theorem Element.length_le {piece : Bytes} {items : Nat} (element : Element piece items) :
    3 ≤ piece.length := by
  have two : crlf.length = 2 := rfl
  cases element <;> simp only [List.length_cons, List.length_append, two] <;> omega

theorem Counted.le_length {pending : Nat} {text : Bytes} (counted : Counted pending text) :
    pending ≤ text.length := by
  induction counted with
  | nil => exact Nat.le_refl 0
  | cons first _ ih =>
      have size := first.length_le
      rw [List.length_append]
      omega

theorem Counted.value {pending : Nat} {piece rest : Bytes} (first : Element piece 0)
    (others : Counted pending rest) : Counted (pending + 1) (piece ++ rest) :=
  .cons first others

/-- Counting recognises values. -/
theorem counted_of_spells {replies : List Reply} {text more : Bytes} {pending : Nat}
    (spells : Spells replies text) (rest : Counted pending more) :
    Counted (replies.length + pending) (text ++ more) := by
  induction spells generalizing pending more with
  | nil =>
      rw [List.length_nil, Nat.zero_add]
      exact rest
  | simple line _ ih =>
      have whole := Counted.value (.simple line) (ih rest)
      simpa [Nat.add_right_comm] using whole
  | error line _ ih =>
      have whole := Counted.value (.error line) (ih rest)
      simpa [Nat.add_right_comm] using whole
  | integer spelled _ ih =>
      have whole := Counted.value (.integer spelled) (ih rest)
      simpa [Nat.add_right_comm] using whole
  | bulk spelled size _ ih =>
      have whole := Counted.value (.bulk spelled size) (ih rest)
      simpa [Nat.add_right_comm] using whole
  | nullBulk spelled _ ih =>
      have whole := Counted.value (.nullBulk spelled) (ih rest)
      simpa [Nat.add_right_comm] using whole
  | @array digits contents others count items replies spelled size _ _ inside after =>
      have inner := inside (after rest)
      rw [Nat.add_comm] at inner
      have whole := Counted.cons (.array spelled size) inner
      simpa [Nat.add_right_comm] using whole
  | nullArray spelled _ ih =>
      have whole := Counted.value (.nullArray spelled) (ih rest)
      simpa [Nat.add_right_comm] using whole

/-- What is counted are values. -/
theorem spells_of_counted {pending : Nat} {text : Bytes} (counted : Counted pending text) :
    exists replies, replies.length = pending ∧ Spells replies text := by
  induction counted with
  | nil => exact ⟨[], rfl, .nil⟩
  | @cons pending items piece rest first _ ih =>
      rcases ih with ⟨replies, length, spells⟩
      cases first with
      | simple line => exact ⟨_ :: replies, congrArg Nat.succ length,
            by simpa using spells.simple line⟩
      | error line => exact ⟨_ :: replies, congrArg Nat.succ length, by simpa using spells.error line⟩
      | integer spelled =>
          exact ⟨_ :: replies, congrArg Nat.succ length, by simpa using spells.integer spelled⟩
      | bulk spelled size =>
          exact ⟨_ :: replies, congrArg Nat.succ length, by simpa using spells.bulk spelled size⟩
      | nullBulk spelled =>
          exact ⟨_ :: replies, congrArg Nat.succ length, by simpa using spells.nullBulk spelled⟩
      | @array digits count _ spelled size =>
          -- The first values that follow the header are its items.
          have cut : replies = replies.take items ++ replies.drop items :=
            (List.take_append_drop items replies).symm
          rw [cut] at spells
          rcases spells.split with ⟨contents, more, rfl, inner, others⟩
          have taken : (replies.take items).length = items :=
            List.length_take_of_le (by omega)
          refine ⟨.array (replies.take items) :: replies.drop items, ?_, ?_⟩
          · rw [List.length_cons, List.length_drop]
            omega
          · have whole := Spells.array spelled
              (size.trans (congrArg Nat.cast taken.symm)) inner others
            simpa using whole
      | nullArray spelled =>
          exact ⟨_ :: replies, congrArg Nat.succ length, by simpa using spells.nullArray spelled⟩

/-- Counting from one to zero recognises one value. -/
theorem complete_iff_counted {text : Bytes} : Complete text <-> Counted 1 text := by
  constructor
  · rintro ⟨reply, spells⟩
    have counted := counted_of_spells spells .nil
    rwa [List.append_nil] at counted
  · intro counted
    rcases spells_of_counted counted with ⟨replies, length, spells⟩
    rcases List.length_eq_one_iff.mp length with ⟨reply, rfl⟩
    exact ⟨reply, spells⟩

end Resp

end Reddish
