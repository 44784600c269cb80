import Reddish.Database.Calls
import Reddish.Database.ListRun

namespace Reddish

open Library Numeral

/-!
# Lists

Pushing, popping and measuring.  A push may recentre the window or move the
node to a larger block before the record is logged; this is invisible in the
keyspace, so an exception there leaves the list as it was.  A batch of texts is
assembled in a new node and enters the keyspace only after all of its records
are logged.
-/

def WalOp.push (front : Bool) : WalOp :=
  if front then .pushLeft else .pushRight

def WalOp.pop (front : Bool) : WalOp :=
  if front then .popLeft else .popRight

/-- How an element is logged: its kind and its text. -/
def Value.logged : Value -> List Bytes
  | .integer n => [ascii "i", decimalInt n.toInt]
  | .text bytes => [ascii "s", bytes]

namespace Database

open Cmd (onlyIf)

/-- `element_size(value, true)` as a 32-bit number. -/
def encodedLength (value : Value) : Nat :=
  Pack.encodedSize value % 2 ^ 32

/-- The part of `list_reserve` that asks for a larger block. -/
def enlargeList (addr : Addr) (capacity newCapacity : Nat) : Op Addr :=
  if newCapacity > capacity then growNode addr ((Node.listHeaderSize + newCapacity) % 2 ^ 32)
  else pure addr

def listReserve (addr : Addr) (extraFront extraBack : Nat) : Op Addr := do
  let world <- Cmd.read
  let node := world.db.node addr
  let capacity := node.listRunCapacity
  if extraFront ≤ node.listHead ∧
      (node.listHead + node.listUsed + extraBack) % 2 ^ 32 ≤ capacity then pure addr
  else do
    let required := (node.listUsed + extraFront + extraBack) % 2 ^ 32
    let newCapacity :=
      if required ≤ capacity then capacity else Node.grownCapacity required capacity
    let moved <- enlargeList addr capacity newCapacity
    modifyDb (Db.modifyNode moved (Node.recentre extraFront extraBack newCapacity))
    pure moved

/-- The errors of `list_push`. -/
def refusePush (db : Db) (found : Option Addr) (value : Value) : Option ErrorCode :=
  match found with
  | none => if Pack.encodedSize value > Node.listLimit then some .requestTooLarge else none
  | some addr =>
      if (db.node addr).type ≠ .list then some .wrongType
      else if (db.node addr).listUsed + encodedLength value > Node.listLimit then
        some .requestTooLarge
      else if Pack.encodedSize value > Node.listLimit then some .requestTooLarge
      else none

/-- `std::to_string` of an integer element takes memory. -/
def spell : Value -> Op Unit
  | .integer _ => do
      let _ <- allocate
      pure ()
  | .text _ => pure ()

/-- The end of `list_push`. -/
def finishPush (addr : Addr) (useFront : Bool) (value : Value) : Op Nat := do
  modifyDb (Db.modifyNode addr (Node.pushElement useFront value))
  modifyDb (Db.touch addr)
  let world <- Cmd.read
  pure (world.db.node addr).count

/-- `list_push` on a key that does not exist. -/
def pushFresh (key : Bytes) (value : Value) (front : Bool) : Op Nat := do
  rehashFor none
  let pending <- createNode key .list ((Node.listHeaderSize + encodedLength value) % 2 ^ 32)
  modifyDb (Db.modifyNode pending Node.emptyList)
  let addr <- guarded pending (do
    let addr <- listReserve pending 0 (encodedLength value)
    log (.push front) (key :: value.logged)
    pure addr)
  modifyDb (Db.commitNode none pending true)
  finishPush addr false value

/-- `list_push` on a list. -/
def pushOnto (addr : Addr) (key : Bytes) (value : Value) (front : Bool) : Op Nat := do
  let world <- Cmd.read
  let useFront := front && decide ((world.db.node addr).count ≠ 0)
  let addr <- listReserve addr (if useFront then encodedLength value else 0)
    (if useFront then 0 else encodedLength value)
  log (.push front) (key :: value.logged)
  finishPush addr useFront value

def listPush (key : Bytes) (value : Value) (front : Bool) : Op (Except ErrorCode Nat) := do
  let found <- findWritable key
  let world <- Cmd.read
  match refusePush world.db found value with
  | some code => pure (.error code)
  | none => do
      spell value
      match found with
      | none => do
          let count <- pushFresh key value front
          pure (.ok count)
      | some addr => do
          let count <- pushOnto addr key value front
          pure (.ok count)

def pushLeft (key : Bytes) (value : Value) : Op (Except ErrorCode Nat) :=
  listPush key value true

def pushRight (key : Bytes) (value : Value) : Op (Except ErrorCode Nat) :=
  listPush key value false

/-- The loop of `push_texts` that adds up the sizes. -/
def measureTexts (bytes largest : Nat) : List Bytes -> Option (Nat × Nat)
  | [] => some (bytes, largest)
  | value :: rest =>
      if value.length > Node.listLimit then none
      else if bytes + Pack.encodedSize (.text value) > Node.listLimit then none
      else measureTexts (bytes + Pack.encodedSize (.text value)) (max largest value.length) rest

def listWindow (node : Node) : Bytes :=
  Buffer.slice node.listHead node.listUsed node.listRun

/-- The part of `push_texts` after its checks. -/
def pushAll (old : Option Addr) (key : Bytes) (values : List Bytes) (front : Bool)
    (bytes largest : Nat) : Op Nat := do
  let world <- Cmd.read
  let node := old.map world.db.node
  let count := ((node.map Node.count).getD 0 + values.length) % 2 ^ 32
  rehashFor old
  let _ <- install old key .list ((Node.listHeaderSize + bytes) % 2 ^ 32)
    (Node.fillTexts front values ((node.map listWindow).getD []) bytes count)
    (logBatch (key.length + largest + 64) (.push front)
      (values.map fun value => [key, ascii "s", value])) true
  pure count

def pushTexts (key : Bytes) (values : List Bytes) (front : Bool) : Op (Except ErrorCode Nat) := do
  let old <- findWritable key
  let world <- Cmd.read
  let node := old.map world.db.node
  if (node.map Node.type).getD .list ≠ .list then pure (.error .wrongType)
  else if values = [] then pure (.ok ((node.map Node.count).getD 0))
  else
    match measureTexts ((node.map Node.listUsed).getD 0) 0 values with
    | none => pure (.error .requestTooLarge)
    | some (bytes, largest) => do
        let count <- pushAll old key values front bytes largest
        pure (.ok count)

/-- `element_to_value` and `input_to_value`: a copied string takes memory. -/
def copyOut : Value -> Op Unit
  | .integer _ => pure ()
  | .text _ => do
      let _ <- allocate
      pure ()

/-- The attempt of `list_pop` to move a list that has become small to a
smaller block. -/
def shrinkList (addr : Addr) : Op Unit := do
  let world <- Cmd.read
  let used := (world.db.node addr).listUsed
  modifyDb (Db.modifyNode addr Node.packList)
  Cmd.handle (do
    let _ <- growNode addr ((Node.listHeaderSize + max used 32) % 2 ^ 32)
    pure ()) (fun thrown =>
      match thrown with
      | .badAlloc => pure ()
      | .error code => Cmd.raise (.error code))

/-- The end of `list_pop`: a list without elements is erased, and a large block
that is mostly empty is exchanged for a smaller one. -/
def finishPop (addr : Addr) : Op Unit := do
  let world <- Cmd.read
  let node := world.db.node addr
  if node.count = 0 then modifyDb (Db.eraseNode addr)
  else onlyIf (node.listRunCapacity > Slab.largestClass ∧
      node.listUsed < node.listRunCapacity / 4) (shrinkList addr)

/-- `list_pop` on a list that has elements. -/
def popFrom (addr : Addr) (key : Bytes) (front : Bool) : Op Value := do
  let world <- Cmd.read
  let popped := (world.db.node addr).popElement front
  copyOut popped.1
  log (.pop front) [key]
  modifyDb (Db.modifyNode addr (Node.dropElement front popped.2))
  finishPop addr
  pure popped.1

def listPop (key : Bytes) (front : Bool) : Op (Except ErrorCode (Option Value)) := do
  match <- findWritable key with
  | none => pure (.ok none)
  | some addr => do
      let world <- Cmd.read
      if (world.db.node addr).type ≠ .list then pure (.error .wrongType)
      else if (world.db.node addr).count = 0 then pure (.ok none)
      else do
        let value <- popFrom addr key front
        pure (.ok (some value))

def popLeft (key : Bytes) : Op (Except ErrorCode (Option Value)) :=
  listPop key true

def popRight (key : Bytes) : Op (Except ErrorCode (Option Value)) :=
  listPop key false

def listLength (key : Bytes) : Op (Except ErrorCode Nat) := do
  match <- findActive key with
  | none => pure (.ok 0)
  | some addr => do
      let world <- Cmd.read
      if (world.db.node addr).type ≠ .list then pure (.error .wrongType)
      else pure (.ok (world.db.node addr).count)

end Database

/-! ## Specifications -/

namespace Spec

/-- The list at a key; a missing key is an empty list. -/
def listOf : Option Entry -> Except ErrorCode (List Value)
  | none => .ok []
  | some entry =>
      match entry.value with
      | .list items => .ok items
      | _ => .error .wrongType

/-- New elements at one end of a sequence. -/
def extend (front : Bool) (values items : List Value) : List Value :=
  if front then values.reverse ++ items else items ++ values

def refusesPush (value : Value) : Except ErrorCode (List Value) -> Option ErrorCode
  | .error code => some code
  | .ok items =>
      if (Node.encodeItems items).length + Pack.encodedSize value > Node.listLimit then
        some .requestTooLarge
      else none

/-- A push adds one element at one end. -/
def listPush (key : Bytes) (value : Value) (front : Bool) (time : Option Int64)
    (space : Keyspace) : Outcome (Except ErrorCode Nat) :=
  let start := writable time key space
  match listOf start.result with
  | .error code => ⟨.error code, start.space, start.records⟩
  | .ok items =>
      if (Node.encodeItems items).length + Pack.encodedSize value > Node.listLimit then
        ⟨.error .requestTooLarge, start.space, start.records⟩
      else
        ⟨.ok (items.length + 1), store start key (.list (extend front [value] items)) true,
          start.records ++ [record (.push front) (key :: value.logged)]⟩

/-- A batch adds its texts one after another at one end. -/
def pushTexts (key : Bytes) (values : List Bytes) (front : Bool) (time : Option Int64)
    (space : Keyspace) : Outcome (Except ErrorCode Nat) :=
  let start := writable time key space
  match listOf start.result with
  | .error code => ⟨.error code, start.space, start.records⟩
  | .ok items =>
      if values = [] then ⟨.ok items.length, start.space, start.records⟩
      else if (Node.encodeItems items).length +
          (Node.encodeItems (values.map Value.text)).length > Node.listLimit then
        ⟨.error .requestTooLarge, start.space, start.records⟩
      else
        ⟨.ok (items.length + values.length),
          store start key (.list (extend front (values.map Value.text) items)) true,
          start.records ++ values.map fun value => record (.push front) [key, ascii "s", value]⟩

def takeEnd (front : Bool) (items : List Value) : Option (Value × List Value) :=
  if front then
    match items with
    | [] => none
    | value :: rest => some (value, rest)
  else
    match items.getLast? with
    | none => none
    | some value => some (value, items.dropLast)

/-- A pop removes one end; a list without elements is not kept. -/
def listPop (key : Bytes) (front : Bool) (time : Option Int64) (space : Keyspace) :
    Outcome (Except ErrorCode (Option Value)) :=
  let start := writable time key space
  match listOf start.result with
  | .error code => ⟨.error code, start.space, start.records⟩
  | .ok items =>
      match takeEnd front items with
      | none => ⟨.ok none, start.space, start.records⟩
      | some (value, rest) =>
          ⟨.ok (some value),
            if rest = [] then start.space.erase key else store start key (.list rest) true,
            start.records ++ [record (.pop front) [key]]⟩

def listLength : Bytes -> Option Int64 -> Keyspace -> Outcome (Except ErrorCode Nat) :=
  reading (fun found =>
    match listOf found with
    | .error code => .error code
    | .ok items => .ok items.length)

end Spec

/-! ## Reserving room -/

namespace Database

variable {origin world after : World} {pending : List Addr} {space : Keyspace}
variable {records : List Wal.Record} {now : Int64} {key : Bytes} {found : Option Addr}
variable {addr : Addr} {oversize : Prop} {items : List Value} {value : Value}

theorem enlargeList_spec {newCapacity : Nat}
    (reached : Reached origin world pending space records)
    (located : world.db.findNode key = some addr) (nonempty : items ≠ [])
    (window : (world.db.node addr).Window items)
    (enough : (world.db.node addr).listRunCapacity ≤ newCapacity)
    (bound : newCapacity ≤ 2 * Node.listLimit) :
    (enlargeList addr (world.db.node addr).listRunCapacity newCapacity).wp
      (fun fresh after => Reached origin after pending space records ∧
        after.db.findNode key = some fresh ∧ (after.db.node fresh).Window items ∧
        newCapacity ≤ (after.db.node fresh).listRunCapacity)
      (fun thrown after => Thrown origin after pending space records oversize thrown) world := by
  have limits : Node.listHeaderSize + 2 * Node.listLimit ≤ 2 ^ 31 := by decide
  have room := window.run.room
  have size : (Node.listHeaderSize + newCapacity) % 2 ^ 32 = Node.listHeaderSize + newCapacity :=
    Nat.mod_eq_of_lt (by omega)
  unfold enlargeList
  refine Cmd.wp_ite ?_ ?_
  · intro larger
    rw [size]
    have moved := fun garbage => @Node.Window.grown _ _ (Node.listHeaderSize + newCapacity) garbage
      window (blockLayout_fits window.laid.key (by omega)) (by omega) (by omega)
    have same : (world.db.node addr).stored = .list items := (window.holds nonempty).stored_eq
    refine Cmd.wp_mono (growNode_spec reached located (by omega) ?_) ?_
      (fun _ _ failed => failed.1.1)
    · intro garbage
      rw [same]
      exact (moved garbage).1.holds nonempty
    · rintro fresh after ⟨later, found, ⟨garbage, node⟩, laid, capacity⟩
      have grown := (moved garbage).1
      rw [<- node] at grown
      refine ⟨later, found, grown, ?_⟩
      rw [grown.runCapacity]
      omega
  · intro notLarger
    have equal : newCapacity = (world.db.node addr).listRunCapacity := by omega
    exact ⟨reached, located, window, Nat.le_of_eq equal⟩

/-- With room at both ends nothing happens. -/
theorem listReserve_fits {front back : Nat} {Q : Addr -> World -> Prop} {E : Exn -> World -> Prop}
    (atFront : front ≤ (world.db.node addr).listHead)
    (atBack : (world.db.node addr).listHead + (world.db.node addr).listUsed + back ≤
      (world.db.node addr).listRunCapacity)
    (small : (world.db.node addr).listRunCapacity < 2 ^ 32) (holds : Q addr world) :
    (listReserve addr front back).wp Q E world := by
  unfold listReserve
  rw [Cmd.wp_bind, Cmd.wp_read]
  simp only
  rw [Nat.mod_eq_of_lt (Nat.lt_of_le_of_lt atBack small), if_pos ⟨atFront, atBack⟩]
  exact holds

/-- `list_reserve` makes room at both ends and keeps the list. -/
theorem listReserve_spec {front back : Nat} (reached : Reached origin world pending space records)
    (located : world.db.findNode key = some addr) (nonempty : items ≠ [])
    (window : (world.db.node addr).Window items)
    (fits : (world.db.node addr).listUsed + front + back ≤ Node.listLimit) :
    (listReserve addr front back).wp
      (fun fresh after => Reached origin after pending space records ∧
        after.db.findNode key = some fresh ∧ (after.db.node fresh).Window items ∧
        front ≤ (after.db.node fresh).listHead ∧
        (after.db.node fresh).listHead + (after.db.node fresh).listUsed + back ≤
          (after.db.node fresh).listRunCapacity)
      (fun thrown after => Thrown origin after pending space records oversize thrown) world := by
  have limits : 4 * Node.listLimit < 2 ^ 32 := by decide
  have bound := window.run.bound
  have room := window.run.room
  have sum : ((world.db.node addr).listHead + (world.db.node addr).listUsed + back) % 2 ^ 32 =
      (world.db.node addr).listHead + (world.db.node addr).listUsed + back :=
    Nat.mod_eq_of_lt (by omega)
  have required : ((world.db.node addr).listUsed + front + back) % 2 ^ 32 =
      (world.db.node addr).listUsed + front + back := Nat.mod_eq_of_lt (by omega)
  unfold listReserve
  rw [Cmd.wp_bind, Cmd.wp_read]
  simp only [sum, required]
  refine Cmd.wp_ite ?_ ?_
  · intro already
    exact ⟨reached, located, window, already.1, already.2⟩
  · intro _
    generalize chosen : (if (world.db.node addr).listUsed + front + back ≤
        (world.db.node addr).listRunCapacity then (world.db.node addr).listRunCapacity
      else Node.grownCapacity ((world.db.node addr).listUsed + front + back)
        (world.db.node addr).listRunCapacity) = newCapacity
    have capacity : (world.db.node addr).listUsed + front + back ≤ newCapacity ∧
        (world.db.node addr).listRunCapacity ≤ newCapacity ∧
        newCapacity ≤ 2 * Node.listLimit := by
      rw [<- chosen]
      split
      case isTrue enough => exact ⟨enough, Nat.le_refl _, bound⟩
      case isFalse short =>
        have grown := Node.grownCapacity_spec (Nat.not_le.mp short) fits
        exact ⟨grown.1, Nat.le_of_lt grown.2.1, grown.2.2⟩
    rw [Cmd.wp_bind]
    refine Cmd.wp_mono
      (enlargeList_spec reached located nonempty window capacity.2.1 capacity.2.2) ?_
      (fun _ _ failed => failed)
    rintro fresh after ⟨later, found, window', inside⟩
    have used : (after.db.node fresh).listUsed = (world.db.node addr).listUsed :=
      window'.run.used.trans window.run.used.symm
    have centred := @Node.Window.recentre _ _ front back newCapacity window'
      (by rw [used]; exact capacity.1) inside
    have same : (after.db.node fresh).stored = .list items := (window'.holds nonempty).stored_eq
    unfold modifyDb
    rw [Cmd.wp_bind, Cmd.wp_update, Cmd.wp_pure]
    have frame := @Node.sameBlock_recentre front back newCapacity (after.db.node fresh)
    have kept := later.rewrite found centred.1.laid frame.blockSize frame.key
      (by rw [same]; exact centred.1.holds nonempty)
    refine ⟨kept.1, kept.2.1, ?_⟩
    change ((Db.modifyNode fresh _ after.db).node fresh).Window items ∧
      front ≤ ((Db.modifyNode fresh _ after.db).node fresh).listHead ∧
      ((Db.modifyNode fresh _ after.db).node fresh).listHead +
        ((Db.modifyNode fresh _ after.db).node fresh).listUsed + back ≤
        ((Db.modifyNode fresh _ after.db).node fresh).listRunCapacity
    rw [kept.2.2, centred.2.1, frame.listRunCapacity]
    refine ⟨centred.1, centred.2.2.1, ?_⟩
    exact Nat.le_trans centred.2.2.2 inside

/-! ## Pushing -/

theorem window_pushElement {node : Node} {front : Bool} (window : node.Window items)
    (limit : node.listUsed + Pack.encodedSize value ≤ Node.listLimit)
    (atFront : (if front then Pack.encodedSize value else 0) ≤ node.listHead)
    (atBack : node.listHead + node.listUsed + (if front then 0 else Pack.encodedSize value) ≤
      node.listRunCapacity) :
    (node.pushElement front value).Window (Spec.extend front [value] items) := by
  cases front with
  | true => exact window.pushFront limit atFront
  | false => exact window.pushBack limit atBack

theorem extend_ne_nil {front : Bool} : Spec.extend front [value] items ≠ [] := by
  cases front with
  | true => exact List.cons_ne_nil _ _
  | false => simp [Spec.extend]

theorem length_extend {front : Bool} {values : List Value} :
    (Spec.extend front values items).length = items.length + values.length := by
  cases front with
  | true =>
      simp only [Spec.extend, if_true, List.length_append, List.length_reverse]
      omega
  | false => simp only [Spec.extend, Bool.false_eq_true, if_false, List.length_append]

theorem prepares_spell : Prepares (spell value) (fun _ => True) := by
  cases value with
  | text bytes => exact prepares_pure trivial
  | integer n => exact prepares_allocate.bind fun _ _ => prepares_pure trivial

/-- Pushing onto a list that is there. -/
theorem pushOnto_spec {front : Bool} (opened : Opened origin world key space now (some addr))
    (window : (world.db.node addr).Window items) (nonempty : items ≠ [])
    (limit : (world.db.node addr).listUsed + Pack.encodedSize value ≤ Node.listLimit) :
    (pushOnto addr key value front).wp
      (fun count after => count = items.length + 1 ∧
        Reached origin after []
          (Spec.store (Spec.writable (origin.time now) key space) key
            (.list (Spec.extend front [value] items)) true)
          ((Spec.writable (origin.time now) key space).records ++
            [Spec.record (.push front) (key :: value.logged)]))
      (fun thrown after => Aborted origin after key space oversize thrown) world := by
  have encoded : encodedLength value = Pack.encodedSize value := Node.encoded_of_limit limit
  have counted : (front && decide ((world.db.node addr).count ≠ 0)) = front := by
    have positive := List.length_pos_of_ne_nil nonempty
    rw [window.run.count, decide_eq_true (by omega), Bool.and_true]
  unfold pushOnto
  rw [Cmd.wp_bind, Cmd.wp_read]
  simp only [counted, encoded]
  refine Cmd.wp_step (listReserve_spec opened.reached opened.located nonempty window ?_) ?_
    (fun _ _ => opened.aborted)
  · cases front with
    | true => simpa using limit
    | false => simpa using limit
  · rintro fresh after ⟨reached, located, reserved, atFront, atBack⟩
    have used : (after.db.node fresh).listUsed = (world.db.node addr).listUsed :=
      reserved.run.used.trans window.run.used.symm
    have pushed := window_pushElement reserved (by rw [used]; exact limit) atFront atBack
    have frame := @Node.sameBlock_pushElement front value (after.db.node fresh)
    unfold finishPush
    refine opened.wp_logModify reached located pushed.laid frame.blockSize frame.key
      (pushed.holds extend_ne_nil) ?_
    rintro last ⟨stored, found, node⟩
    unfold modifyDb
    rw [Cmd.wp_bind, Cmd.wp_update, Cmd.wp_bind, Cmd.wp_read, Cmd.wp_pure]
    have touched := stored.modifyDb (stored.rep.touch found) ⟨rfl, rfl⟩
    rw [Spec.touch_store] at touched
    refine ⟨?_, touched⟩
    change (last.db.node fresh).count = _
    rw [node, pushed.run.count, length_extend]
    rfl

/-- A new list node has its header and a run of the size that was asked for. -/
theorem headed_fresh {size : Nat} {garbage : Nat -> UInt8}
    (laid : (Node.fresh key .list (Node.listHeaderSize + size) garbage).Laid)
    (room : Node.listHeaderSize + size ≤
      (Node.fresh key .list (Node.listHeaderSize + size) garbage).bodyCapacity)
    (limit : size ≤ Node.listLimit) :
    (Node.fresh key .list (Node.listHeaderSize + size) garbage).Headed ∧
      size ≤ (Node.fresh key .list (Node.listHeaderSize + size) garbage).listRunCapacity ∧
      (Node.fresh key .list (Node.listHeaderSize + size) garbage).listRunCapacity ≤
        2 * Node.listLimit := by
  have widest := Node.bodyCapacity_le
    (Node.fresh key .list (Node.listHeaderSize + size) garbage) rfl
  have headed : (Node.fresh key .list (Node.listHeaderSize + size) garbage).Headed :=
    ⟨laid, Nat.le_trans (Nat.le_add_right _ _) room⟩
  have largest : Slab.largestClass = 4096 := rfl
  have bound : 4096 ≤ 2 * Node.listLimit := by decide
  rw [headed.runCapacity]
  exact ⟨headed, by omega, by omega⟩

/-- A node with its first element is entered and moved to the front. -/
theorem enterPushed_spec {logged : World} {fresh : Addr}
    (opened : Opened origin world key space now none)
    (later : Reached origin logged [fresh] (Spec.writable (origin.time now) key space).space records)
    (isKey : (logged.db.node fresh).key = key) (unknown : logged.db.findNode key = none)
    (pushed : ((logged.db.node fresh).pushElement false value).Window [value]) :
    (modifyDb (Db.commitNode none fresh true) >>= fun _ => finishPush fresh false value).wp
      (fun count after => count = 1 ∧ Reached origin after []
        (Spec.store (Spec.writable (origin.time now) key space) key (.list [value]) true) records)
      (fun thrown after => Aborted origin after key space oversize thrown) logged := by
  unfold finishPush modifyDb
  rw [Cmd.wp_bind, Cmd.wp_update, Cmd.wp_bind, Cmd.wp_update, Cmd.wp_bind, Cmd.wp_update,
    Cmd.wp_bind, Cmd.wp_read, Cmd.wp_pure]
  have frame := @Node.sameBlock_pushElement false value (logged.db.node fresh)
  have modified := later.rep.modifyPending List.mem_cons_self pushed.laid frame.blockSize frame.key
  have freshKey : (logged.db.modifyNode fresh (Node.pushElement false value)).key fresh = key := by
    unfold Db.key
    rw [modified.2.2, frame.key, isKey]
  have absent : (logged.db.modifyNode fresh (Node.pushElement false value)).findNode
      ((logged.db.modifyNode fresh (Node.pushElement false value)).key fresh) = none := by
    rw [freshKey, modified.2.1, unknown]
  have holds : ((logged.db.modifyNode fresh (Node.pushElement false value)).node fresh).Holds
      (.list [value]) := by
    rw [modified.2.2]
    exact pushed.holds (List.cons_ne_nil _ _)
  have committed := @Db.Rep.commitNew _ [] _ fresh _ true modified.1 absent holds
  rw [freshKey, <- Db.modifyNode_commitNode frame.key] at committed
  have stored : Spec.store (Spec.writable (origin.time now) key space) key (.list [value]) true =
      (Spec.writable (origin.time now) key space).space.put ⟨key, .list [value], none⟩ := by
    unfold Spec.store
    rw [opened.deadline]
    rfl
  rw [<- stored] at committed
  have entered := @Reached.modifyDb _ _ _ _ _ _ _
    (fun db => Db.modifyNode fresh (Node.pushElement false value) (Db.commitNode none fresh true db))
    later committed.1 (@Db.settings_commitNode fresh logged.db none true)
  have touched := entered.modifyDb (entered.rep.touch committed.2.1) ⟨rfl, rfl⟩
  rw [Spec.touch_store] at touched
  refine ⟨?_, touched⟩
  change ((Db.modifyNode fresh _ (Db.commitNode none fresh true logged.db)).node fresh).count = 1
  rw [committed.2.2, modified.2.2, pushed.run.count]
  rfl

theorem pushFresh_spec {front : Bool} (opened : Opened origin world key space now none)
    (limit : Pack.encodedSize value ≤ Node.listLimit) :
    (pushFresh key value front).wp
      (fun count after => count = 1 ∧
        Reached origin after []
          (Spec.store (Spec.writable (origin.time now) key space) key (.list [value]) true)
          ((Spec.writable (origin.time now) key space).records ++
            [Spec.record (.push front) (key :: value.logged)]))
      (fun thrown after => Aborted origin after key space oversize thrown) world := by
  have bound : Node.listHeaderSize + Node.listLimit ≤ 2 ^ 31 := by decide
  have encoded : encodedLength value = Pack.encodedSize value := Nat.mod_eq_of_lt (by omega)
  have asked : (Node.listHeaderSize + Pack.encodedSize value) % 2 ^ 32 =
      Node.listHeaderSize + Pack.encodedSize value := Nat.mod_eq_of_lt (by omega)
  unfold pushFresh
  simp only [encoded, asked]
  refine Cmd.wp_step (rehashFor_spec opened) ?_ (fun _ _ failed => failed)
  rintro _ ready ⟨opened, -⟩
  refine Cmd.wp_step (createNode_spec opened.reached opened.short (by omega)) ?_
    (fun _ _ => opened.aborted)
  rintro fresh created ⟨reached, ⟨garbage, node⟩, laid, room, same, -⟩
  have header := headed_fresh (node ▸ laid) (node ▸ room) limit
  rw [<- node] at header
  have empty := Node.window_emptyList header.1 (by rw [node]; rfl) (by rw [node]; rfl) header.2.2
  have emptied := reached.rep.modifyPending List.mem_cons_self empty.laid rfl rfl
  have capacity : (created.db.node fresh).emptyList.listRunCapacity =
      (created.db.node fresh).listRunCapacity :=
    (Node.SameBlock.mk rfl rfl rfl).listRunCapacity
  have head : (created.db.node fresh).emptyList.listHead = 0 := by
    unfold Node.emptyList
    rw [Node.listHead_setListUsed (header.1.setListHead 0),
      Node.listHead_setListHead header.1 (by decide)]
  have used : (created.db.node fresh).emptyList.listUsed = 0 := empty.run.used
  unfold modifyDb
  rw [Cmd.wp_bind, Cmd.wp_update, Cmd.wp_bind]
  have owned := reached.modifyDb emptied.1 ⟨rfl, rfl⟩
  refine Cmd.wp_mono (Q := fun addr after => fresh = addr ∧
    Reached origin after [fresh] (Spec.writable (origin.time now) key space).space
      ((Spec.writable (origin.time now) key space).records ++
        [Spec.record (.push front) (key :: value.logged)]) ∧
    after.db = created.db.modifyNode fresh Node.emptyList) (wp_guarded ?_) ?_
    (fun _ _ => opened.aborted)
  · rw [Cmd.wp_bind]
    refine listReserve_fits (Nat.zero_le _) ?_ ?_ ?_
    · change ((created.db.modifyNode fresh Node.emptyList).node fresh).listHead +
        ((created.db.modifyNode fresh Node.emptyList).node fresh).listUsed + _ ≤
        ((created.db.modifyNode fresh Node.emptyList).node fresh).listRunCapacity
      rw [emptied.2.2, head, used, capacity]
      omega
    · change ((created.db.modifyNode fresh Node.emptyList).node fresh).listRunCapacity < _
      rw [emptied.2.2]
      exact empty.small.2.1
    · refine Cmd.wp_step (log_spec owned (.push front) (key :: value.logged)) ?_
        (fun _ _ failed => failed.1)
      rintro _ logged ⟨later, sameDb, -⟩
      exact ⟨rfl, later, sameDb⟩
  · rintro _ logged ⟨rfl, later, sameDb⟩
    have loggedNode : logged.db.node fresh = (created.db.node fresh).emptyList := by
      rw [sameDb]
      exact emptied.2.2
    refine enterPushed_spec opened later ?_ ?_ ?_
    · rw [loggedNode, node]
      rfl
    · rw [sameDb, emptied.2.1, same, opened.located]
    · rw [loggedNode]
      refine empty.pushBack ?_ ?_
      · rw [used, Nat.zero_add]
        exact limit
      · rw [head, used, capacity]
        omega

/-! ## The list operations refine their specifications -/

/-- What the lookup found, seen as a list. -/
inductive OpenedList (world : World) :
    Option Addr -> Except ErrorCode (List Value) -> Prop where
  | absent : OpenedList world none (.ok [])
  | present {addr : Addr} {items : List Value} : items ≠ [] ->
      (world.db.node addr).Window items -> OpenedList world (some addr) (.ok items)
  | other {addr : Addr} : (world.db.node addr).type ≠ .list ->
      OpenedList world (some addr) (.error .wrongType)

theorem Opened.list (opened : Opened origin world key space now found) :
    OpenedList world found (Spec.listOf (Spec.writable (origin.time now) key space).result) := by
  rw [opened.result]
  cases found with
  | none => exact .absent
  | some addr =>
      have known := opened.reached.rep.found opened.located
      have valid := known.valid
      unfold Node.Valid Node.stored at valid
      have entry : (world.db.entry addr).value = (world.db.node addr).stored := rfl
      rw [Option.map_some, Spec.listOf, entry, Node.stored]
      cases type : (world.db.node addr).type with
      | list =>
          rw [type] at valid
          exact .present valid.1 (Node.Holds.window valid known.laid)
      | string | integer | hash => exact .other (by rw [type]; decide)

theorem refusePush_eq {result : Except ErrorCode (List Value)}
    (opened : OpenedList world found result) :
    refusePush world.db found value = Spec.refusesPush value result := by
  cases opened with
  | absent =>
      simp only [refusePush, Spec.refusesPush, Node.encodeItems_nil, List.length_nil, Nat.zero_add]
  | other type => exact if_pos type
  | present nonempty window =>
      have bound : Node.listLimit < 2 ^ 32 := by decide
      simp only [refusePush, Spec.refusesPush, window.run.type, ne_eq, not_true_eq_false, if_false,
        window.run.used, encodedLength]
      split_ifs <;> first | rfl | omega

theorem listPush_spec (key : Bytes) (value : Value) (front : Bool) :
    Implements (listPush key value front) key (Node.maxKeyLength < key.length)
      (Spec.listPush key value front) := by
  intro origin space ready
  unfold listPush
  refine wp_findWritable ready id ?_
  intro now found world opened
  have list := opened.list
  rw [Cmd.wp_bind, Cmd.wp_read, refusePush_eq list]
  generalize seen : Spec.listOf (Spec.writable (origin.time now) key space).result = result
    at list ⊢
  cases result with
  | error code =>
      refine opened.returns ?_ opened.reached
      simp only [Spec.listPush, seen]
  | ok items =>
      simp only [Spec.refusesPush]
      by_cases large : (Node.encodeItems items).length + Pack.encodedSize value > Node.listLimit
      · rw [if_pos large]
        refine opened.returns ?_ opened.reached
        simp only [Spec.listPush, seen, if_pos large]
      · have limit := Nat.not_lt.mp large
        have outcome : Spec.listPush key value front (origin.time now) space =
            ⟨.ok (items.length + 1),
              Spec.store (Spec.writable (origin.time now) key space) key
                (.list (Spec.extend front [value] items)) true,
              (Spec.writable (origin.time now) key space).records ++
                [Spec.record (.push front) (key :: value.logged)]⟩ := by
          simp only [Spec.listPush, seen, if_neg large]
        rw [if_neg large]
        refine opened.wp_prepares prepares_spell ?_
        intro _ spelled _ opened' same
        cases list with
        | absent =>
            simp only
            rw [Cmd.wp_bind]
            rw [Node.encodeItems_nil, List.length_nil, Nat.zero_add] at limit
            refine Cmd.wp_mono (pushFresh_spec opened' limit) ?_ (fun _ _ failed => failed)
            rintro count last ⟨rfl, stored⟩
            have single : Spec.extend front [value] [] = [value] := by
              cases front with
              | true => rfl
              | false => rfl
            rw [single] at outcome
            exact opened.returns outcome stored
        | present nonempty window =>
            simp only
            rw [Cmd.wp_bind]
            rw [<- same] at window
            rw [<- window.run.used] at limit
            refine Cmd.wp_mono (pushOnto_spec opened' window nonempty limit) ?_
              (fun _ _ failed => failed)
            rintro count last ⟨rfl, stored⟩
            exact opened.returns outcome stored

/-- The loop over the sizes refuses exactly the batches that are too large. -/
theorem measureTexts_spec (values : List Bytes) (bytes largest : Nat)
    (start : bytes ≤ Node.listLimit) :
    (bytes + (Node.encodeItems (values.map Value.text)).length > Node.listLimit ->
      measureTexts bytes largest values = none) ∧
    (bytes + (Node.encodeItems (values.map Value.text)).length ≤ Node.listLimit ->
      exists top, largest ≤ top ∧ (forall value, value ∈ values -> value.length ≤ top) ∧
        measureTexts bytes largest values =
          some (bytes + (Node.encodeItems (values.map Value.text)).length, top)) := by
  induction values generalizing bytes largest with
  | nil =>
      refine ⟨fun large => ?_, fun _ => ⟨largest, Nat.le_refl _, ?_, rfl⟩⟩
      · rw [List.map_nil, Node.encodeItems_nil, List.length_nil] at large
        omega
      · intro value impossible
        cases impossible
  | cons value rest ih =>
      have body := Pack.bodySize_lt_encodedSize (.text value)
      have longer : value.length < Pack.encodedSize (.text value) :=
        Nat.lt_of_le_of_lt (Nat.le_add_left _ _) body
      rw [List.map_cons, Node.encodeItems_cons, List.length_append, Pack.length_encode,
        <- Nat.add_assoc]
      simp only [measureTexts]
      by_cases small : bytes + Pack.encodedSize (.text value) ≤ Node.listLimit
      · rw [if_neg (by omega), if_neg (by omega)]
        have rest := ih (bytes + Pack.encodedSize (.text value))
          (max largest value.length) small
        refine ⟨rest.1, fun fits => ?_⟩
        rcases rest.2 fits with ⟨top, above, each, measured⟩
        refine ⟨top, by omega, ?_, measured⟩
        intro other member
        rcases List.mem_cons.mp member with rfl | member
        · omega
        · exact each other member
      · refine ⟨fun _ => ?_, fun fits => by omega⟩
        rw [if_pos (Nat.not_le.mp small)]
        split
        · rfl
        · rfl

theorem fills_fillTexts {front : Bool} {values : List Bytes} {window : Bytes} {bytes count : Nat}
    (isWindow : window = Node.encodeItems items)
    (size : bytes = (Node.encodeItems items).length +
      (Node.encodeItems (values.map Value.text)).length)
    (isCount : count = items.length + values.length) (limit : bytes ≤ Node.listLimit)
    (nonempty : values ≠ []) :
    Fills (Node.fillTexts front values window bytes count) key .list
      (Node.listHeaderSize + bytes) (.list (Spec.extend front (values.map Value.text) items)) := by
  intro garbage laid room
  have header := headed_fresh laid room limit
  have filled := @Node.window_fillTexts _ items front values window bytes count header.1 rfl
    isWindow size isCount header.2.1 limit header.2.2
  have frame : Node.SameBlock
      ((Node.fresh key .list (Node.listHeaderSize + bytes) garbage).fillTexts front values window
        bytes count) (Node.fresh key .list (Node.listHeaderSize + bytes) garbage) :=
    ⟨rfl, rfl, rfl⟩
  have some : Spec.extend front (values.map Value.text) items ≠ [] := by
    have positive := List.length_pos_of_ne_nil nonempty
    refine List.ne_nil_of_length_pos ?_
    rw [length_extend, List.length_map]
    omega
  exact ⟨filled.laid, frame.blockSize, rfl, filled.holds some⟩

/-- Assembling a batch in a new node. -/
theorem pushAll_spec {front : Bool} {values : List Bytes} {largest : Nat}
    (opened : Opened origin world key space now found)
    (list : OpenedList world found (.ok items)) (nonempty : values ≠ [])
    (limit : (Node.encodeItems items).length +
      (Node.encodeItems (values.map Value.text)).length ≤ Node.listLimit)
    (each : forall value, value ∈ values -> value.length ≤ largest) :
    (pushAll found key values front ((Node.encodeItems items).length +
        (Node.encodeItems (values.map Value.text)).length) largest).wp
      (fun count after => count = items.length + values.length ∧
        Reached origin after []
          (Spec.store (Spec.writable (origin.time now) key space) key
            (.list (Spec.extend front (values.map Value.text) items)) true)
          ((Spec.writable (origin.time now) key space).records ++
            values.map fun value => Spec.record (.push front) [key, ascii "s", value]))
      (fun thrown after => Aborted origin after key space oversize thrown) world := by
  have bound : Node.listHeaderSize + Node.listLimit ≤ 2 ^ 31 := by decide
  have oldCount : ((found.map world.db.node).map Node.count).getD 0 = items.length := by
    cases list with
    | absent => rfl
    | present _ window => exact window.run.count
  have oldWindow : ((found.map world.db.node).map listWindow).getD [] = Node.encodeItems items := by
    cases list with
    | absent => rfl
    | present _ window => exact window.run.run
  have many : items.length + values.length < 2 ^ 32 := by
    have first := Node.length_le_encodeItems items
    have second := Node.length_le_encodeItems (values.map Value.text)
    rw [List.length_map] at second
    omega
  unfold pushAll
  rw [Cmd.wp_bind, Cmd.wp_read]
  simp only [oldCount, oldWindow, Nat.mod_eq_of_lt many]
  rw [Nat.mod_eq_of_lt (show Node.listHeaderSize + _ < 2 ^ 32 by omega), Cmd.wp_bind]
  refine Cmd.wp_mono (rehashFor_spec opened) ?_ (fun _ _ failed => failed)
  rintro _ ready ⟨opened, -⟩
  rw [Cmd.wp_bind]
  have logs := @logs_logBatch (key.length + largest + 64) (.push front)
    (values.map fun value => [key, ascii "s", value]) ?_
  · refine Cmd.wp_mono (install_spec opened (by omega)
      (fills_fillTexts rfl rfl rfl limit nonempty) logs) ?_ (fun _ _ failed => failed)
    rintro _ last ⟨stored, -⟩
    rw [List.map_map] at stored
    exact ⟨rfl, stored⟩
  · intro args member
    rcases List.mem_map.mp member with ⟨value, inside, rfl⟩
    have short := each value inside
    have kind : (ascii "s").length = 1 := rfl
    refine ⟨by simp, ?_⟩
    rw [Wal.length_payload]
    simp only [Spec.record, List.map_cons, List.map_nil, List.sum_cons, List.sum_nil, kind]
    omega

theorem pushTexts_spec (key : Bytes) (values : List Bytes) (front : Bool) :
    Implements (pushTexts key values front) key (Node.maxKeyLength < key.length)
      (Spec.pushTexts key values front) := by
  intro origin space ready
  unfold pushTexts
  refine wp_findWritable ready id ?_
  intro now found world opened
  have list := opened.list
  rw [Cmd.wp_bind, Cmd.wp_read]
  generalize seen : Spec.listOf (Spec.writable (origin.time now) key space).result = result
    at list
  cases result with
  | error code =>
      cases list with
      | other type =>
          simp only [Option.map_some, Option.getD_some, if_pos type]
          refine opened.returns ?_ opened.reached
          simp only [Spec.pushTexts, seen]
  | ok items =>
      have isList : ((found.map world.db.node).map Node.type).getD .list = .list := by
        cases list with
        | absent => rfl
        | present _ window => exact window.run.type
      have oldCount : ((found.map world.db.node).map Node.count).getD 0 = items.length := by
        cases list with
        | absent => rfl
        | present _ window => exact window.run.count
      have oldUsed : ((found.map world.db.node).map Node.listUsed).getD 0 =
          (Node.encodeItems items).length ∧ (Node.encodeItems items).length ≤ Node.listLimit := by
        cases list with
        | absent => exact ⟨rfl, Nat.zero_le _⟩
        | present _ window => exact ⟨window.run.used, window.run.used ▸ window.run.limit⟩
      simp only [isList, ne_eq, not_true_eq_false, if_false, oldCount, oldUsed.1]
      refine Cmd.wp_ite ?_ ?_
      · intro nothing
        refine opened.returns ?_ opened.reached
        simp only [Spec.pushTexts, seen, if_pos nothing]
      · intro something
        have measured := measureTexts_spec values _ 0 oldUsed.2
        by_cases large : (Node.encodeItems items).length +
            (Node.encodeItems (values.map Value.text)).length > Node.listLimit
        · rw [measured.1 large]
          refine opened.returns ?_ opened.reached
          simp only [Spec.pushTexts, seen, if_neg something, if_pos large]
        · rcases measured.2 (Nat.not_lt.mp large) with ⟨top, -, each, sum⟩
          rw [sum]
          simp only
          refine Cmd.wp_step (pushAll_spec opened list something (Nat.not_lt.mp large) each) ?_
            (fun _ _ failed => failed)
          rintro count last ⟨rfl, stored⟩
          refine opened.returns ?_ stored
          simp only [Spec.pushTexts, seen, if_neg something, if_neg large]

/-! ## Popping -/

theorem prepares_copyOut : Prepares (copyOut value) (fun _ => True) := by
  cases value with
  | integer n => exact prepares_pure trivial
  | text bytes => exact prepares_allocate.bind fun _ _ => prepares_pure trivial

/-- A shrink that finds no memory leaves the list in its block; nothing else
can go wrong. -/
theorem shrinkList_spec (reached : Reached origin world pending space records)
    (located : world.db.findNode key = some addr) (nonempty : items ≠ [])
    (window : (world.db.node addr).Window items) :
    (shrinkList addr).wp
      (fun _ after => Reached origin after pending space records) (fun _ _ => False) world := by
  have bounds : Node.listHeaderSize + Node.listLimit ≤ 2 ^ 31 ∧ 32 ≤ Node.listLimit := by decide
  have limit := window.run.limit
  have packed := window.packList
  have frame := Node.sameBlock_packList (world.db.node addr)
  have used : (world.db.node addr).packList.listUsed = (world.db.node addr).listUsed :=
    packed.1.run.used.trans window.run.used.symm
  have size : (Node.listHeaderSize + max (world.db.node addr).listUsed 32) % 2 ^ 32 =
      Node.listHeaderSize + max (world.db.node addr).listUsed 32 := Nat.mod_eq_of_lt (by omega)
  have kept := reached.rewrite located packed.1.laid frame.blockSize frame.key (by
    rw [(window.holds nonempty).stored_eq]
    exact packed.1.holds nonempty)
  unfold shrinkList modifyDb
  rw [Cmd.wp_bind, Cmd.wp_read, Cmd.wp_bind, Cmd.wp_update, Cmd.wp_handle, Cmd.wp_bind]
  simp only [size]
  have moved : forall garbage,
      ((({ world with db := world.db.modifyNode addr Node.packList } : World).db.node addr).grown
        (Node.listHeaderSize + max (world.db.node addr).listUsed 32) garbage).Holds
        (({ world with db := world.db.modifyNode addr Node.packList } : World).db.node
          addr).stored := by
    intro garbage
    have shrunk := @Node.Window.grown _ _
      (Node.listHeaderSize + max (world.db.node addr).listUsed 32) garbage packed.1
      (blockLayout_fits packed.1.laid.key (by omega)) (by rw [packed.2, used]; omega) (by omega)
    change (((world.db.modifyNode addr Node.packList).node addr).grown _ garbage).Holds
      ((world.db.modifyNode addr Node.packList).node addr).stored
    rw [kept.2.2, (packed.1.holds nonempty).stored_eq]
    exact shrunk.1.holds nonempty
  refine Cmd.wp_mono (@growNode_spec _ _ _ _ _ False _ _ kept.1 _ kept.2.1 (by omega) moved) ?_ ?_
  · rintro _ after ⟨later, -⟩
    exact later
  · rintro _ after ⟨⟨failed, rfl⟩, -⟩
    refine ⟨failed.rep, failed.sound, failed.evolves, ?_⟩
    rcases failed.logged with logged | ⟨impossible, -⟩
    · exact logged
    · cases impossible

/-- Popping takes one end off; the key goes with its last element. -/
theorem popFrom_spec {front : Bool} {rest : List Value}
    (opened : Opened origin world key space now (some addr))
    (window : (world.db.node addr).Window items)
    (ends : Spec.takeEnd front items = some (value, rest)) :
    (popFrom addr key front).wp
      (fun result last => result = value ∧ Reached origin last []
        (if rest = [] then (Spec.writable (origin.time now) key space).space.erase key
          else Spec.store (Spec.writable (origin.time now) key space) key (.list rest) true)
        ((Spec.writable (origin.time now) key space).records ++ [Spec.record (.pop front) [key]]))
      (fun thrown last => Aborted origin last key space oversize thrown) world := by
  have popped : (world.db.node addr).popElement front = (value, (Pack.encode value).length) ∧
      ((world.db.node addr).dropElement front (Pack.encode value).length).Window rest := by
    cases front with
    | true =>
        cases items with
        | nil => cases ends
        | cons first others =>
            cases ends
            exact ⟨window.popElement_front, window.dropElement_front⟩
    | false =>
        cases last : items.getLast? with
        | none =>
            simp only [Spec.takeEnd, Bool.false_eq_true, if_false, last] at ends
            cases ends
        | some final =>
            simp only [Spec.takeEnd, Bool.false_eq_true, if_false, last] at ends
            cases ends
            have whole := List.dropLast_append_getLast? value last
            rw [<- whole] at window
            exact ⟨window.popElement_back, window.dropElement_back⟩
  have frame := @Node.sameBlock_dropElement front (Pack.encode value).length
    (world.db.node addr)
  unfold popFrom
  rw [Cmd.wp_bind, Cmd.wp_read]
  simp only [popped.1]
  refine opened.wp_prepares prepares_copyOut ?_
  intro _ copied _ opened same
  rw [<- same] at popped frame
  have reached := opened.reached
  have located := opened.located
  by_cases last : rest = []
  · rw [if_pos last]
    refine opened.wp_logErase reached located frame.blockSize frame.key ?_
    intro emptied node erased
    have none : (emptied.db.node addr).count = 0 := by
      rw [node, popped.2.run.count, last]
      rfl
    unfold finishPop modifyDb
    rw [Cmd.wp_bind, Cmd.wp_bind, Cmd.wp_read]
    simp only
    rw [if_pos none, Cmd.wp_update, Cmd.wp_pure]
    exact ⟨rfl, erased⟩
  · rw [if_neg last]
    refine opened.wp_logModify reached located popped.2.laid frame.blockSize frame.key
      (popped.2.holds last) ?_
    rintro stored ⟨reached, located, node⟩
    have window : (stored.db.node addr).Window rest := by
      rw [node]
      exact popped.2
    have filled : (stored.db.node addr).count ≠ 0 := by
      have positive := List.length_pos_of_ne_nil last
      rw [window.run.count]
      omega
    unfold finishPop
    rw [Cmd.wp_bind, Cmd.wp_bind, Cmd.wp_read]
    simp only
    rw [if_neg filled]
    refine Cmd.wp_onlyIf ?_ ?_
    · intro _
      refine Cmd.wp_mono (shrinkList_spec reached located last window) ?_
        (fun _ _ never => never.elim)
      intro _ after kept
      exact ⟨rfl, kept⟩
    · intro _
      exact ⟨rfl, reached⟩

theorem listPop_spec (key : Bytes) (front : Bool) :
    Implements (listPop key front) key (Node.maxKeyLength < key.length)
      (Spec.listPop key front) := by
  intro origin space ready
  unfold listPop
  refine wp_findWritable ready id ?_
  intro now found world opened
  have list := opened.list
  generalize seen : Spec.listOf (Spec.writable (origin.time now) key space).result = result
    at list
  cases list with
  | absent =>
      refine opened.returns ?_ opened.reached
      cases front with
      | true => simp only [Spec.listPop, seen, Spec.takeEnd, if_true]
      | false =>
          simp only [Spec.listPop, seen, Spec.takeEnd, Bool.false_eq_true, if_false,
            List.getLast?_nil]
  | other type =>
      simp only [Cmd.wp_bind, Cmd.wp_read, if_pos type]
      refine opened.returns ?_ opened.reached
      simp only [Spec.listPop, seen]
  | @present addr items nonempty window =>
      have filled : (world.db.node addr).count ≠ 0 := by
        have positive := List.length_pos_of_ne_nil nonempty
        rw [window.run.count]
        omega
      simp only [Cmd.wp_bind, Cmd.wp_read, window.run.type, ne_eq, not_true_eq_false, if_false,
        filled]
      have ends : exists value rest, Spec.takeEnd front items = some (value, rest) := by
        cases front with
        | true =>
            cases items with
            | nil => exact absurd rfl nonempty
            | cons value rest => exact ⟨value, rest, rfl⟩
        | false =>
            refine ⟨items.getLast nonempty, items.dropLast, ?_⟩
            simp only [Spec.takeEnd, Bool.false_eq_true, if_false,
              List.getLast?_eq_some_getLast nonempty]
      rcases ends with ⟨value, rest, ends⟩
      refine Cmd.wp_mono (popFrom_spec opened window ends) ?_ (fun _ _ failed => failed)
      rintro _ last ⟨rfl, reached⟩
      refine opened.returns ?_ reached
      simp only [Spec.listPop, seen, ends]

theorem listLength_peeks (key : Bytes) : Peeks (listLength key) (Spec.listLength key) := by
  refine peeks_reading ?_ key
  intro world found valid
  cases found with
  | none => exact ⟨rfl, rfl⟩
  | some addr =>
      have holds := valid addr rfl
      have entry : (world.db.entry addr).value = (world.db.node addr).stored := rfl
      unfold Node.Valid Node.stored at holds
      simp only [Cmd.wp_bind, Cmd.wp_read, Option.map_some, Spec.listOf, entry, Node.stored]
      cases type : (world.db.node addr).type with
      | list =>
          rw [type] at holds
          exact ⟨congrArg Except.ok holds.2.count, rfl⟩
      | string | integer | hash => exact ⟨rfl, rfl⟩

theorem listLength_spec (key : Bytes) :
    Implements (listLength key) key False (Spec.listLength key) :=
  (listLength_peeks key).implements

end Database

end Reddish
