import Reddish.Database.Calls

namespace Reddish

open Library Numeral

/-!
# Strings and integers

`set`, `get` and `increment`.  A string that fits is overwritten in its node;
otherwise a new node is prepared, the record is logged, and only then the new
node takes the place of the old one.
-/

namespace Node

/-- Copy a string into the body. -/
def setString (val : Bytes) (node : Node) : Node :=
  { node.writeBody 0 val with count := val.length }

def becomeInteger (value : Int64) (node : Node) : Node :=
  { node with type := .integer, count := 0 }.setIntegerValue value

variable {node : Node} {val : Bytes} {value : Int64}

theorem setString_spec (laid : node.Laid) (type : node.type = .string)
    (fits : val.length ≤ node.bodyCapacity) :
    (node.setString val).Laid ∧ (node.setString val).Holds (.string val) := by
  have written := laid.writeBody (show 0 + val.length ≤ node.bodyCapacity by omega)
  refine ⟨⟨written.key, written.offset, written.body, written.block⟩, type, rfl, fits, ?_⟩
  have read : Buffer.slice 0 val.length (Buffer.write 0 val node.body) = val :=
    Buffer.slice_write_same (Nat.zero_le _)
  rw [Buffer.slice_zero] at read
  exact read

theorem setIntegerValue_spec (laid : node.Laid) (type : node.type = .integer)
    (fits : 8 ≤ node.bodyCapacity) :
    (node.setIntegerValue value).Laid ∧ (node.setIntegerValue value).Holds (.integer value) := by
  have length := Pack.length_storeI64 value
  refine ⟨laid.writeBody (by rw [length]; omega), type, fits, ?_⟩
  have read : Buffer.slice 0 (Pack.storeI64 value).length
      (Buffer.write 0 (Pack.storeI64 value) node.body) = Pack.storeI64 value :=
    Buffer.slice_write_same (Nat.zero_le _)
  rw [Buffer.slice_zero, length] at read
  exact read

/-- A string that is moved to a block with enough room. -/
theorem holds_grown_string {capacity : Nat} {garbage : Nat -> UInt8} (laid : node.Laid)
    (holds : node.Holds (.string val))
    (room : val.length ≤ (node.grown capacity garbage).bodyCapacity) :
    (node.grown capacity garbage).Holds (.string val) := by
  rcases holds with ⟨type, count, fits, body⟩
  refine ⟨type, count, room, ?_⟩
  rw [take_grown laid fits room]
  exact body

end Node

/-- What a reader of a key sees. -/
inductive ValueView where
  | string (text : Bytes)
  | integer (n : Int64)
  | list
  | hash
  deriving DecidableEq

namespace Database

open Cmd (onlyIf)

/-- The strings that `set` accepts. -/
def maxValueLength : Nat := 64 * 1024 * 1024

/-- Whether `set` needs another node: the key is new, has another kind, is too
small or far too large. -/
def needsNode (db : Db) (found : Option Addr) (val : Bytes) : Bool :=
  match found with
  | none => true
  | some addr =>
      let node := db.node addr
      decide (node.type ≠ .string ∨ node.bodyCapacity < val.length ∨
        (node.bodyCapacity > Slab.largestClass ∧ val.length < node.bodyCapacity / 4))

/-- The branch of `set` with a new node. -/
def setFresh (found : Option Addr) (key val : Bytes) : Op Unit := do
  rehashFor found
  let _ <- install found key .string val.length (Node.setString val) (log .set [key, val]) false

/-- The branch of `set` that overwrites the string. -/
def setInPlace (addr : Addr) (key val : Bytes) : Op Unit := do
  log .set [key, val]
  modifyDb (Db.modifyNode addr (Node.setString val))
  modifyDb (Db.touch addr)
  modifyDb (Db.clearExpiry addr)

def set (key val : Bytes) : Op Unit := do
  if val.length > maxValueLength then Cmd.raise (.error .requestTooLarge)
  else do
    let found <- findWritable key
    let world <- Cmd.read
    if needsNode world.db found val then setFresh found key val
    else
      match found with
      | none => pure ()
      | some addr => setInPlace addr key val

def valueView (key : Bytes) : Op (Except ErrorCode (Option ValueView)) := do
  match <- findActive key with
  | none => pure (.ok none)
  | some addr => do
      let world <- Cmd.read
      let node := world.db.node addr
      match node.type with
      | .string => pure (.ok (some (.string node.stringValue)))
      | .integer => pure (.ok (some (.integer node.integerValue)))
      | .list => pure (.ok (some .list))
      | .hash => pure (.ok (some .hash))

/-- The answer of `get` to what it sees. -/
def textOfView : Except ErrorCode (Option ValueView) -> Except ErrorCode (Option Bytes)
  | .error code => .error code
  | .ok none => .ok none
  | .ok (some (.integer n)) => .ok (some (decimalInt n.toInt))
  | .ok (some (.string text)) => .ok (some text)
  | .ok (some _) => .error .wrongType

/-- The string that `get` returns, spelled or copied. -/
def copyText (_ : Bytes) : Op Unit := do
  let _ <- allocate
  pure ()

def get (key : Bytes) : Op (Except ErrorCode (Option Bytes)) :=
  copied copyText (do
    let view <- valueView key
    pure (textOfView view))

/-- The branch of `increment` for a key that does not exist. -/
def incrementFresh (key : Bytes) : Op (Except ErrorCode Int64) := do
  rehashFor none
  let _ <- install none key .integer 8 (Node.setIntegerValue · 1) (log .increment [key]) true
  pure (.ok 1)

/-- `grow_node` for a string that is too short to hold an integer. -/
def roomForInteger (addr : Addr) : Op Addr := do
  let world <- Cmd.read
  if (world.db.node addr).bodyCapacity < 8 then growNode addr 8 else pure addr

/-- The branch of `increment` for a string that spells an integer. -/
def incrementString (addr : Addr) (key : Bytes) (current : Int64) :
    Op (Except ErrorCode Int64) := do
  let addr <- roomForInteger addr
  log .increment [key]
  modifyDb (Db.modifyNode addr (Node.becomeInteger (current + 1)))
  pure (.ok (current + 1))

def incrementInteger (addr : Addr) (key : Bytes) (current : Int64) :
    Op (Except ErrorCode Int64) := do
  log .increment [key]
  modifyDb (Db.modifyNode addr (Node.setIntegerValue · (current + 1)))
  pure (.ok (current + 1))

def increment (key : Bytes) : Op (Except ErrorCode Int64) := do
  match <- findWritable key with
  | none => incrementFresh key
  | some addr => do
      let world <- Cmd.read
      let node := world.db.node addr
      match node.type with
      | .integer =>
          if node.integerValue = Int64.maxValue then pure (.error .valueNotInteger)
          else incrementInteger addr key node.integerValue
      | .string =>
          match parseInt64 node.stringValue with
          | none => pure (.error .valueNotInteger)
          | some current =>
              if current = Int64.maxValue then pure (.error .valueNotInteger)
              else incrementString addr key current
      | _ => pure (.error .wrongType)

end Database

/-! ## Specifications -/

namespace Spec

/-- `set` makes the key a string without a deadline. -/
def set (key val : Bytes) (time : Option Int64) (space : Keyspace) : Outcome Unit :=
  let start := writable time key space
  ⟨(), store start key (.string val) false, start.records ++ [record .set [key, val]]⟩

/-- What a reader sees of a stored value. -/
def view : Stored -> ValueView
  | .string bytes => .string bytes
  | .integer n => .integer n
  | .list _ => .list
  | .hash _ => .hash

/-- `value_view` shows the value of a key that has not expired. -/
def valueView : Bytes -> Option Int64 -> Keyspace ->
    Outcome (Except ErrorCode (Option ValueView)) :=
  reading (fun found => .ok (found.map fun entry => view entry.value))

/-- `get` shows integers in decimal. -/
def get : Bytes -> Option Int64 -> Keyspace -> Outcome (Except ErrorCode (Option Bytes)) :=
  reading (fun found =>
    match found with
    | none => .ok none
    | some entry =>
        match entry.value with
        | .string bytes => .ok (some bytes)
        | .integer n => .ok (some (decimalInt n.toInt))
        | _ => .error .wrongType)

def asInteger : Stored -> Except ErrorCode Int64
  | .integer n => if n = Int64.maxValue then .error .valueNotInteger else .ok n
  | .string bytes =>
      match parseInt64 bytes with
      | none => .error .valueNotInteger
      | some n => if n = Int64.maxValue then .error .valueNotInteger else .ok n
  | _ => .error .wrongType

/-- `increment` makes the key an integer, one larger, and keeps its deadline. -/
def increment (key : Bytes) (time : Option Int64) (space : Keyspace) :
    Outcome (Except ErrorCode Int64) :=
  let start := writable time key space
  let current : Except ErrorCode Int64 :=
    match start.result with
    | none => .ok 0
    | some entry => asInteger entry.value
  match current with
  | .error code => ⟨.error code, start.space, start.records⟩
  | .ok n =>
      ⟨.ok (n + 1), store start key (.integer (n + 1)) true,
        start.records ++ [record .increment [key]]⟩

end Spec

/-! ## Refinement -/

namespace Database

variable {world after : World} {space : Keyspace} {now : Int64} {key val : Bytes}
variable {found : Option Addr} {addr : Addr} {oversize : Prop}

theorem fills_setString : Fills (Node.setString val) key .string val.length (.string val) := by
  intro garbage laid room
  have written := Node.setString_spec laid rfl room
  exact ⟨written.1, rfl, rfl, written.2⟩

theorem fills_setIntegerValue {n : Int64} :
    Fills (Node.setIntegerValue · n) key .integer 8 (.integer n) := by
  intro garbage laid room
  have written := @Node.setIntegerValue_spec _ n laid rfl room
  exact ⟨written.1, rfl, rfl, written.2⟩

theorem setFresh_spec (opened : Opened world after key space now found)
    (small : val.length ≤ maxValueLength) :
    (setFresh found key val).wp
      (fun _ last => Reached world last [] (Spec.set key val (world.time now) space).space
        (Spec.set key val (world.time now) space).records)
      (fun thrown last => Aborted world last key space oversize thrown) after := by
  have bound : maxValueLength ≤ 2 ^ 31 := by decide
  unfold setFresh
  refine Cmd.wp_step (rehashFor_spec opened) ?_ (fun _ _ failed => failed)
  rintro _ ready ⟨opened, -⟩
  rw [Cmd.wp_bind]
  refine Cmd.wp_mono
    (install_spec opened (Nat.le_trans small bound) fills_setString (logs_log _ _)) ?_
    (fun _ _ failed => failed)
  rintro _ last ⟨reached, -⟩
  exact reached

theorem setInPlace_spec (opened : Opened world after key space now (some addr))
    (type : (after.db.node addr).type = .string)
    (fits : val.length ≤ (after.db.node addr).bodyCapacity) :
    (setInPlace addr key val).wp
      (fun _ last => Reached world last [] (Spec.set key val (world.time now) space).space
        (Spec.set key val (world.time now) space).records)
      (fun thrown last => Aborted world last key space oversize thrown) after := by
  unfold setInPlace modifyDb
  refine Cmd.wp_step (log_spec opened.reached .set [key, val]) ?_
    (fun _ _ failed => opened.aborted failed.1)
  rintro _ last ⟨reached, same, -⟩
  rw [Cmd.wp_bind, Cmd.wp_update, Cmd.wp_bind, Cmd.wp_update, Cmd.wp_update]
  have located : last.db.findNode key = some addr := same ▸ opened.located
  have known := reached.rep.found located
  have written := Node.setString_spec known.laid (same ▸ type) (same ▸ fits)
  rcases opened.modify reached located written.1 rfl rfl written.2 with ⟨reached, located, -⟩
  have touched := reached.modifyDb (reached.rep.touch located) ⟨rfl, rfl⟩
  rw [Spec.touch_store] at touched
  have cleared := touched.modifyDb (@Db.Rep.clearExpiry _ _ _ addr key touched.rep located)
    Db.settings_clearExpiry
  rw [Spec.setDeadline_store] at cleared
  exact cleared

theorem set_spec (key val : Bytes) :
    Implements (set key val) key
      (Node.maxKeyLength < key.length ∨ maxValueLength < val.length) (Spec.set key val) := by
  intro world space ready
  unfold set
  refine Cmd.wp_ite ?_ ?_
  · intro long
    exact Or.inl (ready.reached.toThrown (Or.inr (Or.inr (Or.inr long))))
  intro notLong
  have small := Nat.not_lt.mp notLong
  refine wp_findWritable ready Or.inl ?_
  intro now found after opened
  rw [Cmd.wp_bind, Cmd.wp_read]
  refine Cmd.wp_mono (Q := fun _ last =>
    Reached world last [] (Spec.set key val (world.time now) space).space
      (Spec.set key val (world.time now) space).records) ?_
    (fun _ last reached => ⟨now, opened.reads, rfl, reached⟩) (fun _ _ failed => failed)
  refine Cmd.wp_ite ?_ ?_
  · intro _
    exact setFresh_spec opened small
  intro reuse
  cases found with
  | none => exact absurd rfl reuse
  | some addr =>
      simp only [needsNode, decide_eq_true_eq, not_or, not_not, Nat.not_lt] at reuse
      exact setInPlace_spec opened reuse.1 reuse.2.1

theorem valueView_peeks (key : Bytes) : Peeks (valueView key) (Spec.valueView key) := by
  refine peeks_reading ?_ key
  intro world found _
  cases found with
  | none => exact ⟨rfl, rfl⟩
  | some addr =>
      have entry : (world.db.entry addr).value = (world.db.node addr).stored := rfl
      simp only [Cmd.wp_bind, Cmd.wp_read, Option.map_some, entry, Node.stored]
      cases type : (world.db.node addr).type with
      | string | integer | list | hash => exact ⟨rfl, rfl⟩

theorem valueView_spec (key : Bytes) :
    Implements (valueView key) key False (Spec.valueView key) :=
  (valueView_peeks key).implements

theorem prepares_copyText (text : Bytes) : Prepares (copyText text) fun _ => True :=
  prepares_allocate.bind fun _ _ => prepares_pure trivial

theorem textOfView_peeks (key : Bytes) :
    Peeks (valueView key >>= fun view => pure (textOfView view)) (Spec.get key) := by
  refine (valueView_peeks key).map fun found => ?_
  cases found with
  | none => rfl
  | some entry =>
      rcases entry with ⟨_, value, _⟩
      cases value with
      | string | integer | list | hash => rfl

theorem get_spec (key : Bytes) : Implements (get key) key False (Spec.get key) :=
  copied_implements (textOfView_peeks key) rfl prepares_copyText

theorem incrementFresh_spec (opened : Opened world after key space now none) :
    (incrementFresh key).wp
      (fun result last => result = .ok 1 ∧
        Reached world last []
          (Spec.store (Spec.writable (world.time now) key space) key (.integer 1) true)
          ((Spec.writable (world.time now) key space).records ++ [Spec.record .increment [key]]))
      (fun thrown last => Aborted world last key space oversize thrown) after := by
  unfold incrementFresh
  refine Cmd.wp_step (rehashFor_spec opened) ?_ (fun _ _ failed => failed)
  rintro _ ready ⟨opened, -⟩
  rw [Cmd.wp_bind]
  refine Cmd.wp_mono
    (install_spec opened (by decide) fills_setIntegerValue (logs_log _ _)) ?_
    (fun _ _ failed => failed)
  rintro _ last ⟨reached, -⟩
  exact ⟨rfl, reached⟩

theorem roomForInteger_spec (opened : Opened world after key space now (some addr))
    (holds : (after.db.node addr).Holds (.string val)) :
    (roomForInteger addr).wp
      (fun fresh last => Reached world last [] (Spec.writable (world.time now) key space).space
          (Spec.writable (world.time now) key space).records ∧
        last.db.findNode key = some fresh ∧ 8 ≤ (last.db.node fresh).bodyCapacity)
      (fun thrown last => Aborted world last key space oversize thrown) after := by
  have known := opened.reached.rep.found opened.located
  unfold roomForInteger
  rw [Cmd.wp_bind, Cmd.wp_read]
  refine Cmd.wp_ite ?_ ?_
  · intro tight
    have moved : forall garbage,
        ((after.db.node addr).grown 8 garbage).Holds (after.db.node addr).stored := by
      intro garbage
      rw [holds.stored_eq]
      have laid := @Node.grown_spec _ 8 garbage known.laid
        (blockLayout_fits known.laid.key (by decide))
      have length := holds.2.2.1
      exact Node.holds_grown_string known.laid holds (by omega)
    refine Cmd.wp_mono (growNode_spec opened.reached opened.located (by decide) moved) ?_
      (fun _ _ failed => opened.aborted failed.1.1)
    rintro fresh last ⟨reached, located, -, -, room⟩
    exact ⟨reached, located, room⟩
  · intro roomy
    exact ⟨opened.reached, opened.located, Nat.not_lt.mp roomy⟩

theorem incrementString_spec {n : Int64} (opened : Opened world after key space now (some addr))
    (holds : (after.db.node addr).Holds (.string val)) :
    (incrementString addr key n).wp
      (fun result last => result = .ok (n + 1) ∧
        Reached world last []
          (Spec.store (Spec.writable (world.time now) key space) key (.integer (n + 1)) true)
          ((Spec.writable (world.time now) key space).records ++ [Spec.record .increment [key]]))
      (fun thrown last => Aborted world last key space oversize thrown) after := by
  unfold incrementString
  refine Cmd.wp_step (roomForInteger_spec opened holds) ?_ (fun _ _ failed => failed)
  rintro fresh last ⟨reached, located, room⟩
  have laid := (reached.rep.found located).laid
  have written := @Node.setIntegerValue_spec
    { last.db.node fresh with type := .integer, count := 0 } (n + 1)
    ⟨laid.key, laid.offset, laid.body, laid.block⟩ rfl room
  refine opened.wp_logModify reached located written.1 rfl rfl written.2 ?_
  rintro last ⟨reached, -⟩
  exact ⟨rfl, reached⟩

theorem incrementInteger_spec {n : Int64} (opened : Opened world after key space now (some addr))
    (holds : (after.db.node addr).Holds (.integer n)) :
    (incrementInteger addr key n).wp
      (fun result last => result = .ok (n + 1) ∧
        Reached world last []
          (Spec.store (Spec.writable (world.time now) key space) key (.integer (n + 1)) true)
          ((Spec.writable (world.time now) key space).records ++ [Spec.record .increment [key]]))
      (fun thrown last => Aborted world last key space oversize thrown) after := by
  have laid := (opened.reached.rep.found opened.located).laid
  have written := @Node.setIntegerValue_spec _ (n + 1) laid holds.1 holds.2.1
  unfold incrementInteger
  refine opened.wp_logModify opened.reached opened.located written.1 rfl rfl written.2 ?_
  rintro last ⟨reached, -⟩
  exact ⟨rfl, reached⟩

theorem increment_spec (key : Bytes) :
    Implements (increment key) key (Node.maxKeyLength < key.length) (Spec.increment key) := by
  intro world space ready
  unfold increment
  refine wp_findWritable ready id ?_
  intro now found after opened
  have result := opened.result
  cases found with
  | none =>
      refine Cmd.wp_mono (incrementFresh_spec opened) ?_ (fun _ _ failed => failed)
      rintro _ last ⟨rfl, reached⟩
      refine opened.returns ?_ reached
      simp only [Spec.increment, result, Option.map_none]
      rfl
  | some addr =>
      have valid := (opened.reached.rep.found opened.located).valid
      have entry : (after.db.entry addr).value = (after.db.node addr).stored := rfl
      simp only [Cmd.wp_bind, Cmd.wp_read]
      have refused : forall code, Spec.asInteger (after.db.node addr).stored = .error code ->
          Spec.increment key (world.time now) space =
            ⟨.error code, (Spec.writable (world.time now) key space).space,
              (Spec.writable (world.time now) key space).records⟩ := by
        intro code asInteger
        simp only [Spec.increment, result, Option.map_some, entry, asInteger]
      have counted : forall n, Spec.asInteger (after.db.node addr).stored = .ok n ->
          Spec.increment key (world.time now) space =
            ⟨.ok (n + 1),
              Spec.store (Spec.writable (world.time now) key space) key (.integer (n + 1)) true,
              (Spec.writable (world.time now) key space).records ++
                [Spec.record .increment [key]]⟩ := by
        intro n asInteger
        simp only [Spec.increment, result, Option.map_some, entry, asInteger]
      unfold Node.Valid Node.stored at valid
      unfold Node.stored at refused counted
      cases type : (after.db.node addr).type with
      | integer =>
          simp only [type, Spec.asInteger] at valid refused counted ⊢
          refine Cmd.wp_ite ?_ ?_
          · intro largest
            exact opened.returns (refused _ (if_pos largest)) opened.reached
          · intro smaller
            refine Cmd.wp_mono (incrementInteger_spec opened valid) ?_ (fun _ _ failed => failed)
            rintro _ last ⟨rfl, reached⟩
            exact opened.returns (counted _ (if_neg smaller)) reached
      | string =>
          simp only [type, Spec.asInteger] at valid refused counted ⊢
          cases parsed : parseInt64 (after.db.node addr).stringValue with
          | none =>
              simp only [parsed] at refused ⊢
              exact opened.returns (refused _ rfl) opened.reached
          | some n =>
              simp only [parsed] at refused counted ⊢
              refine Cmd.wp_ite ?_ ?_
              · intro largest
                exact opened.returns (refused _ (if_pos largest)) opened.reached
              · intro smaller
                refine Cmd.wp_mono (incrementString_spec opened valid) ?_
                  (fun _ _ failed => failed)
                rintro _ last ⟨rfl, reached⟩
                exact opened.returns (counted _ (if_neg smaller)) reached
      | list | hash =>
          simp only [type, Spec.asInteger] at refused ⊢
          exact opened.returns (refused _ rfl) opened.reached

end Database

end Reddish
