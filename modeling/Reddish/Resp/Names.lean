import Reddish.Resp.Reply

namespace Reddish

open Library Numeral

namespace Resp

/-!
# Commands are recognised by their names

A name is compared through a tag of 64 bits: its first eight bytes with one bit
forced, and its length on top.  Nothing that is lost in the tag lets another
name pass for a command.  The forced bit is the one that tells small letters
from capital ones, and the commands consist of letters; a name of eight bytes or
more shows that bit in the place of the length, and no command is that long.
-/

def lower (byte : UInt8) : UInt8 :=
  if 65 ≤ byte ∧ byte ≤ 90 then byte + 32 else byte

def marked (byte : UInt8) : UInt8 :=
  byte ||| 0x20

def SmallLetter (byte : UInt8) : Prop :=
  97 ≤ byte ∧ byte ≤ 122

instance decidableSmallLetter (byte : UInt8) : Decidable (SmallLetter byte) :=
  inferInstanceAs (Decidable (97 ≤ byte ∧ byte ≤ 122))

/-- A word that a tag represents faithfully. -/
def Plain (word : Bytes) : Prop :=
  word.length < 8 ∧ forall byte, byte ∈ word -> SmallLetter byte

instance decidablePlain (word : Bytes) : Decidable (Plain word) :=
  inferInstanceAs (Decidable (_ ∧ _))

variable {name word : Bytes} {text : String}

/-! ## One byte -/

theorem marked_of_small {byte : UInt8} (small : SmallLetter byte) : marked byte = byte := by
  have table : forall n : Fin 256, SmallLetter (UInt8.ofNat n.val) ->
      marked (UInt8.ofNat n.val) = UInt8.ofNat n.val := by
    decide +kernel
  have entry := table ⟨byte.toNat, byte.toNat_lt⟩
  rw [UInt8.ofNat_toNat] at entry
  exact entry small

/-- Forcing the bit gives a small letter exactly when lower-casing gives it. -/
theorem marked_eq_iff {byte letter : UInt8} (small : SmallLetter letter) :
    marked byte = letter <-> lower byte = letter := by
  have table : forall n : Fin 256,
      (SmallLetter (marked (UInt8.ofNat n.val)) ∨ SmallLetter (lower (UInt8.ofNat n.val))) ->
        marked (UInt8.ofNat n.val) = lower (UInt8.ofNat n.val) := by
    decide +kernel
  have entry := table ⟨byte.toNat, byte.toNat_lt⟩
  rw [UInt8.ofNat_toNat] at entry
  constructor
  · rintro rfl
    exact (entry (Or.inl small)).symm
  · rintro rfl
    exact entry (Or.inr small)

theorem map_marked_iff (small : forall byte, byte ∈ word -> SmallLetter byte) :
    name.map marked = word <-> name.map lower = word := by
  induction name generalizing word with
  | nil => exact Iff.rfl
  | cons byte rest ih =>
      cases word with
      | nil => simp
      | cons letter letters =>
          rw [List.map_cons, List.map_cons, List.cons.injEq, List.cons.injEq,
            marked_eq_iff (small letter List.mem_cons_self),
            ih fun other inside => small other (List.mem_cons_of_mem _ inside)]

/-! ## The bytes of a tag -/

theorem toNat_placed (byte : UInt8) {i : Nat} (inside : i < 8) :
    (byte.toUInt64 <<< (UInt64.ofNat i * 8)).toNat = byte.toNat <<< (8 * i) := by
  have place : (UInt64.ofNat i * 8).toNat % 64 = 8 * i := by
    rw [UInt64.toNat_mul, UInt64.toNat_ofNat']
    change i % 2 ^ 64 * 8 % 2 ^ 64 % 64 = 8 * i
    omega
  have small : byte.toNat * 2 ^ (8 * i) < 2 ^ 64 := by
    calc
      byte.toNat * 2 ^ (8 * i) < 2 ^ 8 * 2 ^ (8 * i) :=
        Nat.mul_lt_mul_of_pos_right byte.toNat_lt (Nat.two_pow_pos _)
      _ = 2 ^ (8 + 8 * i) := (Nat.pow_add 2 8 (8 * i)).symm
      _ ≤ 2 ^ 64 := Nat.pow_le_pow_right (by decide) (by omega)
  rw [UInt64.toNat_shiftLeft, place, UInt8.toNat_toUInt64, Nat.shiftLeft_eq,
    Nat.mod_eq_of_lt small]

theorem leNat_lt_of_length {bytes : Bytes} {n : Nat} (length : bytes.length = n) :
    leNat bytes < 2 ^ (8 * n) := by
  have bound := leNat_lt bytes
  rw [length] at bound
  rw [Nat.pow_mul]
  exact bound

/-- A number grows by a byte on top. -/
theorem leNat_snoc (bytes : Bytes) (byte : UInt8) :
    leNat (bytes ++ [byte]) = leNat bytes ||| (byte.toNat <<< (8 * bytes.length)) := by
  rw [or_shiftLeft_of_lt (leNat_lt_of_length rfl), leNat_append, leNat, leNat, Nat.pow_mul]
  ring

/-- The loop of `tag_of`. -/
def tagLoop (name : Bytes) : UInt64 :=
  name.zipIdx.foldl (fun tag entry => tag ||| tagByte entry) 0

theorem tagLoop_snoc (name : Bytes) (byte : UInt8) :
    tagLoop (name ++ [byte]) = tagLoop name ||| tagByte (byte, name.length) := by
  rw [tagLoop, List.zipIdx_append, List.foldl_append, Nat.zero_add]
  rfl

/-- The loop of `tag_of` builds the number whose bytes are those of the name. -/
theorem toNat_tagLoop (name : Bytes) : name.length ≤ 8 ->
    (tagLoop name).toNat = leNat (name.map marked) := by
  induction name using List.reverseRecOn with
  | nil => exact fun _ => rfl
  | append_singleton name byte ih =>
      intro short
      rw [List.length_append, List.length_singleton] at short
      rw [tagLoop_snoc, UInt64.toNat_or, ih (by omega)]
      change _ ||| ((marked byte).toUInt64 <<< (UInt64.ofNat name.length * 8)).toNat = _
      rw [toNat_placed _ (by omega), List.map_append, List.map_singleton, leNat_snoc,
        List.length_map]

theorem toNat_tagBytes (name : Bytes) :
    (tagBytes name).toNat = leNat ((name.take 8).map marked) :=
  toNat_tagLoop (name.take 8) (List.length_take_le 8 name)

/-- A short name leaves the top byte to the length. -/
theorem toNat_topped (short : name.length < 8) (top : UInt64) (size : top.toNat = name.length) :
    (tagBytes name ||| (top <<< 56)).toNat = leNat (name.map marked) + name.length * 2 ^ 56 := by
  have below : leNat (name.map marked) < 2 ^ 56 := by
    calc
      leNat (name.map marked) < 2 ^ (8 * name.length) := leNat_lt_of_length (List.length_map _)
      _ ≤ 2 ^ 56 := Nat.pow_le_pow_right (by decide) (by omega)
  have moved : (top <<< 56).toNat = name.length <<< 56 := by
    rw [UInt64.toNat_shiftLeft, size]
    change name.length <<< 56 % 2 ^ 64 = _
    rw [Nat.shiftLeft_eq]
    omega
  rw [UInt64.toNat_or, toNat_tagBytes, List.take_of_length_le (Nat.le_of_lt short), moved,
    or_shiftLeft_of_lt below]

theorem toNat_genericTag (short : name.length < 8) :
    (genericTag name).toNat = leNat (name.map marked) + name.length * 2 ^ 56 := by
  refine toNat_topped short _ ?_
  rw [UInt64.toNat_and, UInt64.toNat_ofNat']
  change name.length % 2 ^ 64 &&& 2 ^ 8 - 1 = _
  rw [Nat.and_two_pow_sub_one_eq_mod]
  omega

theorem toNat_literalTag (short : (ascii text).length < 8) :
    (literalTag text).toNat =
      leNat ((ascii text).map marked) + (ascii text).length * 2 ^ 56 := by
  refine toNat_topped short _ ?_
  rw [UInt64.toNat_ofNat']
  change min (ascii text).length 8 % 2 ^ 64 = _
  omega

/-- In a longer name, the forced bit of the eighth byte is left in the place of
the length. -/
theorem genericTag_long (long : 8 ≤ name.length) : (genericTag name).toNat.testBit 61 = true := by
  have split : name.take 8 = name.take 7 ++ [name[7]] := List.take_succ_eq_append_getElem long
  have seven : ((name.take 7).map marked).length = 7 := by
    rw [List.length_map, List.length_take_of_le (by omega)]
  have bit : (marked name[7]).toNat.testBit 5 = true := by
    rw [marked, UInt8.toNat_or, Nat.testBit_or]
    exact Bool.or_true _
  rw [genericTag, UInt64.toNat_or, Nat.testBit_or, toNat_tagBytes, split, List.map_append,
    List.map_singleton, leNat_snoc, Nat.testBit_or, Nat.testBit_shiftLeft, seven,
    show 61 - 8 * 7 = 5 from rfl, bit]
  simp

/-! ## The three computations agree -/

theorem ofNat_leNat_snoc (byte : UInt8) (short : name.length < 8) :
    UInt64.ofNat (leNat (name ++ [byte])) =
      UInt64.ofNat (leNat name) ||| (byte.toUInt64 <<< (UInt64.ofNat name.length * 8)) := by
  have wide : forall bytes : Bytes, bytes.length ≤ 8 -> leNat bytes % 2 ^ 64 = leNat bytes := by
    intro bytes fits
    refine Nat.mod_eq_of_lt (Nat.lt_of_lt_of_le (leNat_lt_of_length rfl) ?_)
    exact Nat.pow_le_pow_right (by decide) (by omega)
  apply UInt64.toNat_inj.mp
  rw [UInt64.toNat_or, toNat_placed byte short, UInt64.toNat_ofNat', UInt64.toNat_ofNat']
  rw [wide _ (by rw [List.length_append]; exact short), wide _ (Nat.le_of_lt short), leNat_snoc]

/-- The bytes of a name can be loaded as a word before the bits are forced. -/
theorem tagLoop_eq (name : Bytes) : name.length ≤ 8 ->
    tagLoop name = UInt64.ofNat (leNat name) ||| tagLoop (List.replicate name.length 0) := by
  induction name using List.reverseRecOn with
  | nil => exact fun _ => rfl
  | append_singleton name byte ih =>
      intro short
      rw [List.length_append, List.length_singleton] at short ⊢
      have both : tagByte (byte, name.length) =
          (byte.toUInt64 <<< (UInt64.ofNat name.length * 8)) ||| tagByte (0, name.length) := by
        have zero : tagByte (0, name.length) =
            (0x20 : UInt8).toUInt64 <<< (UInt64.ofNat name.length * 8) := by
          rw [tagByte, UInt8.zero_or]
        rw [zero, tagByte, UInt8.toUInt64_or, UInt64.shiftLeft_or]
      rw [tagLoop_snoc, ih (by omega), ofNat_leNat_snoc byte (by omega), both,
        List.replicate_succ', tagLoop_snoc, List.length_replicate]
      ac_rfl

theorem genericTag_eq {n : Nat} (length : name.length = n) (short : n ≤ 8) :
    genericTag name = UInt64.ofNat (leNat name) ||| tagLoop (List.replicate n 0) |||
      ((UInt64.ofNat n &&& 0xFF) <<< 56) := by
  have whole : tagBytes name = tagLoop name := by
    rw [tagBytes, List.take_of_length_le (by omega)]
    rfl
  rw [genericTag, whole, tagLoop_eq name (by omega), length]

/-- The two short cuts of `tag_of` compute the tag of the general case. -/
theorem tagOf_eq_genericTag (name : Bytes) : tagOf name = genericTag name := by
  unfold tagOf
  split_ifs with three four
  · have split : name = name.take 2 ++ [name.getD 2 0] := by
      rw [List.getD_eq_getElem _ _ (by omega), <- List.take_succ_eq_append_getElem (by omega),
        List.take_of_length_le (by omega)]
    have two : (name.take 2).length = 2 := List.length_take_of_le (by omega)
    have word := ofNat_leNat_snoc (name.getD 2 0) (show (name.take 2).length < 8 by omega)
    rw [<- split, two] at word
    rw [genericTag_eq three (by decide), word]
    rfl
  · rw [genericTag_eq four (by decide), fourByteTag, List.take_of_length_le (by omega)]
    rfl
  · rfl

/-- The bytes that the first switch compares are the low half of the tag. -/
theorem foldedTag_eq (three : name.length = 3) : foldedTag name = (genericTag name).toUInt32 := by
  rcases name with _ | ⟨a, _ | ⟨b, _ | ⟨c, _ | ⟨d, rest⟩⟩⟩⟩
  · cases three
  · cases three
  · cases three
  · have below : leNat [marked a, marked b, marked c] < 2 ^ 24 := leNat_lt_of_length rfl
    have number : leNat [marked a, marked b, marked c] =
        (marked a).toNat ||| ((marked b).toNat <<< 8) ||| ((marked c).toNat <<< 16) := by
      have two := leNat_snoc [marked a, marked b] (marked c)
      have one := leNat_snoc [marked a] (marked b)
      change leNat [marked a, marked b, marked c] = leNat [marked a, marked b] ||| _ at two
      rw [two, show [marked a, marked b] = [marked a] ++ [marked b] from rfl, one]
      simp [leNat]
    have placed : forall (byte : UInt8) (shift : UInt32), shift.toNat ≤ 16 ->
        ((byte.toUInt32 ||| 0x20) <<< shift).toNat = (marked byte).toNat <<< shift.toNat := by
      intro byte shift low
      have folded : byte.toUInt32 ||| 0x20 = (marked byte).toUInt32 := by
        rw [marked, UInt8.toUInt32_or]
        rfl
      have small : (marked byte).toNat * 2 ^ shift.toNat < 2 ^ 32 := by
        calc
          (marked byte).toNat * 2 ^ shift.toNat < 2 ^ 8 * 2 ^ shift.toNat :=
            Nat.mul_lt_mul_of_pos_right (marked byte).toNat_lt (Nat.two_pow_pos _)
          _ = 2 ^ (8 + shift.toNat) := (Nat.pow_add 2 8 shift.toNat).symm
          _ ≤ 2 ^ 32 := Nat.pow_le_pow_right (by decide) (by omega)
      rw [folded, UInt32.toNat_shiftLeft, Nat.mod_eq_of_lt (show shift.toNat < 32 by omega),
        UInt8.toNat_toUInt32, Nat.shiftLeft_eq, Nat.mod_eq_of_lt small]
    have first : (a.toUInt32 ||| 0x20).toNat = (marked a).toNat := by
      have zero := placed a 0 (by decide)
      rw [UInt32.shiftLeft_zero] at zero
      exact zero
    apply UInt32.toNat_inj.mp
    rw [UInt64.toNat_toUInt32, @toNat_genericTag [a, b, c] (by simp)]
    change ((a.toUInt32 ||| 0x20) ||| ((b.toUInt32 ||| 0x20) <<< (8 : UInt32)) |||
      ((c.toUInt32 ||| 0x20) <<< (16 : UInt32))).toNat =
        (leNat [marked a, marked b, marked c] + 3 * 2 ^ 56) % 2 ^ 32
    rw [UInt32.toNat_or, UInt32.toNat_or, first, placed b 8 (by decide), placed c 16 (by decide)]
    change (marked a).toNat ||| ((marked b).toNat <<< 8) ||| ((marked c).toNat <<< 16) = _
    rw [<- number]
    omega
  · cases three

/-! ## The switches -/

/-- A tag that equals the one of a plain word belongs to a name that spells the
word. -/
theorem genericTag_eq_iff (plain : Plain (ascii text)) :
    genericTag name = literalTag text <-> name.map lower = ascii text := by
  rcases plain with ⟨short, letters⟩
  have same : (ascii text).map marked = ascii text := by
    refine (List.map_congr_left ?_).trans (List.map_id _)
    exact fun byte inside => marked_of_small (letters byte inside)
  rw [<- map_marked_iff letters, <- UInt64.toNat_inj, toNat_literalTag short, same]
  have literal : leNat (ascii text) < 2 ^ 56 := by
    refine Nat.lt_of_lt_of_le (leNat_lt_of_length rfl) ?_
    exact Nat.pow_le_pow_right (by decide) (by omega)
  by_cases long : 8 ≤ name.length
  · constructor
    · intro tags
      have bit := genericTag_long long
      have clear : (leNat (ascii text) + (ascii text).length * 2 ^ 56).testBit 61 = false := by
        refine Nat.testBit_lt_two_pow ?_
        omega
      rw [tags, clear] at bit
      cases bit
    · intro spelled
      have length := congrArg List.length spelled
      rw [List.length_map] at length
      omega
  · have few : name.length < 8 := Nat.not_le.mp long
    rw [toNat_genericTag few]
    have own : leNat (name.map marked) < 2 ^ 56 := by
      refine Nat.lt_of_lt_of_le (leNat_lt_of_length (List.length_map _)) ?_
      exact Nat.pow_le_pow_right (by decide) (by omega)
    constructor
    · intro tags
      have lengths : name.length = (ascii text).length := by omega
      have numbers : leNat (name.map marked) = leNat (ascii text) := by omega
      have left := leBytes_leNat (name.map marked)
      have right := leBytes_leNat (ascii text)
      rw [List.length_map, lengths, numbers, right] at left
      exact left.symm
    · intro spelled
      have length := congrArg List.length spelled
      rw [List.length_map] at length
      rw [spelled, length]

theorem toUInt32_eq_iff (plain : Plain (ascii text)) (three : name.length = 3)
    (threeToo : (ascii text).length = 3) :
    (literalTag text).toUInt32 = foldedTag name <-> name.map lower = ascii text := by
  have whole : (literalTag text).toUInt32 = (genericTag name).toUInt32 <->
      genericTag name = literalTag text := by
    have left : leNat (name.map marked) < 2 ^ (8 * 3) :=
      leNat_lt_of_length (by rw [List.length_map, three])
    have right : leNat ((ascii text).map marked) < 2 ^ (8 * 3) :=
      leNat_lt_of_length (by rw [List.length_map, threeToo])
    rw [<- UInt32.toNat_inj, <- UInt64.toNat_inj, UInt64.toNat_toUInt32, UInt64.toNat_toUInt32,
      toNat_genericTag (by omega), toNat_literalTag (by omega), three, threeToo]
    omega
  rw [foldedTag_eq three, whole, genericTag_eq_iff plain]

/-- The command whose name a text spells, whatever its case. -/
def namedCommand (name : Bytes) : CommandInfo :=
  switch ascii (name.map lower) commandTable

theorem commandTable_plain : forall entry, entry ∈ commandTable -> Plain (ascii entry.1) := by
  decide +kernel

theorem shortTable_three : forall entry, entry ∈ shortTable ->
    Plain (ascii entry.1) ∧ (ascii entry.1).length = 3 := by
  decide +kernel

/-- Two switches with the same cases that agree on every case. -/
theorem switch_congr {τ υ : Type} [DecidableEq τ] [DecidableEq υ] {tag : String -> τ}
    {other : String -> υ} {value : τ} {wanted : υ} {table : List (String × CommandInfo)}
    (agree : forall entry, entry ∈ table -> (tag entry.1 = value <-> other entry.1 = wanted)) :
    switch tag value table = switch other wanted table := by
  have found : (table.find? fun entry => decide (tag entry.1 = value)) =
      table.find? fun entry => decide (other entry.1 = wanted) := by
    refine List.find?_congr fun entry inside => ?_
    exact decide_eq_decide.mpr (agree entry inside)
  unfold switch
  rw [found]

theorem switch_none {word : Bytes} {table : List (String × CommandInfo)}
    (unknown : forall entry, entry ∈ table -> ascii entry.1 ≠ word) :
    switch ascii word table = ⟨.unknown, true⟩ := by
  unfold switch
  rw [List.find?_eq_none.mpr fun entry inside => by simpa using unknown entry inside]
  rfl

/-- A word of three bytes is looked for among four of the commands. -/
theorem switch_short {word : Bytes} (three : word.length = 3) :
    switch ascii word shortTable = switch ascii word commandTable := by
  have others : forall entry, entry ∈ commandTable ->
      entry ∈ shortTable ∨ (ascii entry.1).length ≠ 3 := by
    decide +kernel
  have listed : forall entry, entry ∈ shortTable ->
      switch ascii (ascii entry.1) shortTable = switch ascii (ascii entry.1) commandTable := by
    decide +kernel
  by_cases known : exists entry, entry ∈ shortTable ∧ ascii entry.1 = word
  · rcases known with ⟨entry, inside, rfl⟩
    exact listed entry inside
  · have short : forall entry, entry ∈ shortTable -> ascii entry.1 ≠ word :=
      fun entry inside spelled => known ⟨entry, inside, spelled⟩
    rw [switch_none short, switch_none]
    intro entry inside spelled
    rcases others entry inside with listed | longer
    · exact short entry listed spelled
    · exact longer (by rw [spelled, three])

/-- `classify_command` is exact matching without regard to case. -/
theorem classifyCommand_eq (name : Bytes) : classifyCommand name = namedCommand name := by
  unfold classifyCommand namedCommand
  split_ifs with three
  · rw [<- switch_short (by rw [List.length_map, three])]
    refine switch_congr fun entry inside => ?_
    rcases shortTable_three entry inside with ⟨plain, threeToo⟩
    rw [toUInt32_eq_iff plain three threeToo]
    exact eq_comm
  · refine switch_congr fun entry inside => ?_
    rw [tagOf_eq_genericTag, eq_comm, genericTag_eq_iff (commandTable_plain entry inside)]
    exact eq_comm

/-- The entry of a name that spells a command, found in the table. -/
theorem switch_some {word : Bytes} {entry : String × CommandInfo} (inside : entry ∈ commandTable) :
    switch ascii word commandTable = entry.2 <-> ascii entry.1 = word := by
  have found : forall entry, entry ∈ commandTable ->
      switch ascii (ascii entry.1) commandTable = entry.2 := by
    decide +kernel
  have known : forall entry, entry ∈ commandTable -> entry.2 ≠ ⟨.unknown, true⟩ := by
    decide +kernel
  have different : forall entry, entry ∈ commandTable -> forall other, other ∈ commandTable ->
      entry.2 = other.2 -> entry.1 = other.1 := by
    decide +kernel
  constructor
  · intro result
    by_cases spelled : exists other, other ∈ commandTable ∧ ascii other.1 = word
    · rcases spelled with ⟨other, listed, rfl⟩
      rw [found other listed] at result
      rw [different other listed entry inside result]
    · rw [switch_none fun other listed same => spelled ⟨other, listed, same⟩] at result
      exact absurd result.symm (known entry inside)
  · rintro rfl
    exact found entry inside

/-- A name is classified as a command exactly when it spells the command in any
case, and is unknown otherwise; all ways to compute a tag agree. -/
theorem classification_exact :
    (forall name entry, entry ∈ commandTable ->
      (classifyCommand name = entry.2 <->
        name.length = (ascii entry.1).length ∧ name.map lower = ascii entry.1)) ∧
    (forall name, (forall entry, entry ∈ commandTable -> name.map lower ≠ ascii entry.1) ->
      classifyCommand name = ⟨.unknown, true⟩) ∧
    (forall name, tagOf name = genericTag name) ∧
    (forall name, name.length = 3 -> foldedTag name = (genericTag name).toUInt32) ∧
    forall entry, entry ∈ commandTable -> tagOf (ascii entry.1) = literalTag entry.1 := by
  refine ⟨?_, ?_, tagOf_eq_genericTag, fun _ => foldedTag_eq, ?_⟩
  · intro name entry inside
    rw [classifyCommand_eq, namedCommand, switch_some inside]
    constructor
    · intro spelled
      refine ⟨?_, spelled.symm⟩
      rw [spelled, List.length_map]
    · rintro ⟨-, spelled⟩
      exact spelled.symm
  · intro name unknown
    rw [classifyCommand_eq, namedCommand, switch_none]
    exact fun entry inside spelled => unknown entry inside spelled.symm
  · intro entry inside
    have plain := commandTable_plain entry inside
    have letters : forall byte, byte ∈ ascii entry.1 -> lower byte = byte := by
      intro byte member
      exact (marked_eq_iff (plain.2 byte member)).mp (marked_of_small (plain.2 byte member))
    rw [tagOf_eq_genericTag, genericTag_eq_iff plain]
    exact (List.map_congr_left letters).trans (List.map_id _)

/-- A spelling with capital letters, and a name whose length is the same modulo
256. -/
theorem classification_exact_cases :
    classifyCommand (ascii "LPush") = ⟨.listPushLeft, true⟩ ∧
      classifyCommand (ascii "lpush" ++ List.replicate 256 0) = ⟨.unknown, true⟩ := by
  refine ⟨(classification_exact.1 (ascii "LPush") ("lpush", ⟨.listPushLeft, true⟩) (by decide)).mpr
    (by decide +kernel), classification_exact.2.1 _ fun entry inside spelled => ?_⟩
  have length := congrArg List.length spelled
  rw [List.length_map, List.length_append, List.length_replicate] at length
  have short := (commandTable_plain entry inside).1
  omega

end Resp

end Reddish
