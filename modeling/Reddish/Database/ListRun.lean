import Reddish.Database.Content

namespace Reddish

open Library Numeral

/-!
# The run of a list node

A list keeps its encoded elements in a window of its body.  The window floats:
pushing moves one of its ends, popping moves the other way, and when an end
meets the border of the body the window is moved towards the middle.  Each
change of the window is a function on nodes, and its lemma says which elements
the window holds afterwards.
-/

namespace Node

/-- An empty window at the start of the run. -/
def emptyList (node : Node) : Node :=
  (node.setListHead 0).setListUsed 0

/-- The place of the window that `list_reserve` aims at: the middle, moved so
far that both ends have the room they need. -/
def centredHead (front back capacity used : Nat) : Nat :=
  let lowest := front
  let highest := sub32 (sub32 capacity used) back
  let middle := sub32 capacity used / 2
  let head := if middle < lowest then lowest else middle
  if head > highest then highest else head

/-- The end of `list_reserve`: move the window within the node. -/
def recentre (front back capacity : Nat) (node : Node) : Node :=
  let used := node.listUsed
  let head := centredHead front back capacity used
  let moved :=
    if head ≠ node.listHead ∧ used ≠ 0 then node.moveRun head node.listHead used else node
  moved.setListHead head

/-- The end of `list_push`: write the element at one end of the window. -/
def pushElement (useFront : Bool) (value : Value) (node : Node) : Node :=
  let encoded := Pack.encodedSize value % 2 ^ 32
  let written :=
    if useFront then
      let lowered := node.setListHead (sub32 node.listHead encoded)
      lowered.writeRun lowered.listHead (Pack.encode value)
    else node.writeRun (node.listHead + node.listUsed) (Pack.encode value)
  let longer := written.setListUsed ((written.listUsed + encoded) % 2 ^ 32)
  { longer with count := (longer.count + 1) % 2 ^ 32 }

/-- What `list_pop` reads: the element and its size, found from its header or
from its length suffix. -/
def popElement (front : Bool) (node : Node) : Value × Nat :=
  if front then
    let element := node.listRun.drop node.listHead
    (Pack.decode element, Pack.stride element % 2 ^ 32)
  else
    let stop := node.listHead + node.listUsed
    let payload := Pack.decodeBacklen (node.listRun.take stop)
    let full := payload + Pack.backlenBytes payload
    (Pack.decode (node.listRun.drop (stop - full)), full % 2 ^ 32)

/-- The part of `list_pop` that takes the element out of the window. -/
def dropElement (front : Bool) (removed : Nat) (node : Node) : Node :=
  let advanced := if front then node.setListHead ((node.listHead + removed) % 2 ^ 32) else node
  let shorter := advanced.setListUsed (sub32 advanced.listUsed removed)
  { shorter with count := sub32 shorter.count 1 }

/-- The part of `list_pop` that moves the window to the start before it asks
for a smaller block. -/
def packList (node : Node) : Node :=
  let moved :=
    if node.listUsed ≠ 0 then node.moveRun 0 node.listHead node.listUsed else node
  moved.setListHead 0

/-- The part of `push_texts` that fills the new node: the new elements before
or behind the old window. -/
def fillTexts (front : Bool) (values : List Bytes) (window : Bytes) (bytes count : Nat)
    (node : Node) : Node :=
  let texts := values.map Value.text
  let data :=
    if front then encodeItems texts.reverse ++ window else window ++ encodeItems texts
  { (((node.setListHead 0).setListUsed bytes).writeRun 0 data) with count := count }

/-! ## Frames -/

theorem sameBlock_recentre {front back capacity : Nat} (node : Node) :
    SameBlock (node.recentre front back capacity) node := by
  unfold recentre
  simp only
  split
  · exact ⟨rfl, rfl, rfl⟩
  · exact ⟨rfl, rfl, rfl⟩

theorem sameBlock_pushElement {useFront : Bool} {value : Value} (node : Node) :
    SameBlock (node.pushElement useFront value) node := by
  unfold pushElement
  refine (sameBlock_count _ _).trans ((sameBlock_writeBody _ _ _).trans ?_)
  split
  · exact (sameBlock_writeBody _ _ _).trans (sameBlock_writeBody _ _ _)
  · exact sameBlock_writeBody _ _ _

theorem sameBlock_dropElement {front : Bool} {removed : Nat} (node : Node) :
    SameBlock (node.dropElement front removed) node := by
  unfold dropElement
  refine (sameBlock_count _ _).trans ((sameBlock_writeBody _ _ _).trans ?_)
  split
  · exact sameBlock_writeBody _ _ _
  · exact ⟨rfl, rfl, rfl⟩

theorem sameBlock_packList (node : Node) : SameBlock node.packList node := by
  unfold packList
  simp only
  split
  · exact ⟨rfl, rfl, rfl⟩
  · exact ⟨rfl, rfl, rfl⟩

/-! ## Fields of the body -/

/-- A node whose body has room for the two words before the run. -/
structure Headed (node : Node) : Prop where
  laid : node.Laid
  header : listHeaderSize ≤ node.bodyCapacity

variable {node : Node} {items : List Value} {value : Value}

theorem Headed.length (headed : node.Headed) : 8 ≤ node.body.length := by
  rw [headed.laid.body]
  exact headed.header

theorem Headed.runCapacity (headed : node.Headed) :
    node.listRunCapacity = node.bodyCapacity - listHeaderSize := by
  have header := headed.header
  unfold listRunCapacity
  split
  · rfl
  · omega

theorem Headed.length_run (headed : node.Headed) :
    node.listRun.length = node.listRunCapacity := by
  rw [headed.runCapacity, listRun, List.length_drop, headed.laid.body]

theorem Headed.writeBody (headed : node.Headed) {offset : Nat} {data : Bytes}
    (fits : offset + data.length ≤ node.bodyCapacity) : (node.writeBody offset data).Headed where
  laid := headed.laid.writeBody fits
  header := by
    rw [(sameBlock_writeBody node offset data).bodyCapacity]
    exact headed.header

theorem Headed.setListHead (headed : node.Headed) (head : Nat) :
    (node.setListHead head).Headed := by
  have header := headed.header
  unfold listHeaderSize at header
  refine headed.writeBody ?_
  rw [length_leBytes]
  omega

theorem Headed.setListUsed (headed : node.Headed) (used : Nat) :
    (node.setListUsed used).Headed := by
  have header := headed.header
  unfold listHeaderSize at header
  refine headed.writeBody ?_
  rw [length_leBytes]
  omega

theorem Headed.writeRun (headed : node.Headed) {offset : Nat} {data : Bytes}
    (fits : offset + data.length ≤ node.listRunCapacity) :
    (node.writeRun offset data).Headed := by
  have header := headed.header
  rw [headed.runCapacity] at fits
  refine headed.writeBody ?_
  omega

theorem slice_word {offset probe n : Nat} {body : Bytes} (room : offset + 4 ≤ body.length)
    (apart : probe = offset ∨ probe + 4 ≤ offset ∨ offset + 4 ≤ probe) :
    Buffer.slice probe 4 (Buffer.write offset (leBytes 4 n) body) =
      if probe = offset then leBytes 4 n else Buffer.slice probe 4 body := by
  have length := length_leBytes 4 n
  rcases apart with same | before | after
  · rw [same, if_pos rfl]
    have read := @Buffer.slice_write_same UInt8 offset (leBytes 4 n) body (by omega)
    rw [length] at read
    exact read
  · rw [if_neg (by omega), Buffer.slice_write_before (by omega) before]
  · rw [if_neg (by omega), Buffer.slice_write_after (by omega) (by rw [length]; exact after)]

theorem listHead_setListHead (headed : node.Headed) {head : Nat} (small : head < 2 ^ 32) :
    (node.setListHead head).listHead = head := by
  have length := headed.length
  unfold listHead setListHead writeBody
  rw [slice_word (by omega) (Or.inl rfl), if_pos rfl]
  exact leNat_leBytes_of_lt small

theorem listUsed_setListHead (headed : node.Headed) {head : Nat} :
    (node.setListHead head).listUsed = node.listUsed := by
  have length := headed.length
  unfold listUsed setListHead writeBody
  rw [slice_word (by omega) (Or.inr (Or.inr (by omega))), if_neg (by omega)]

theorem listUsed_setListUsed (headed : node.Headed) {used : Nat} (small : used < 2 ^ 32) :
    (node.setListUsed used).listUsed = used := by
  have length := headed.length
  unfold listUsed setListUsed writeBody
  rw [slice_word (by omega) (Or.inl rfl), if_pos rfl]
  exact leNat_leBytes_of_lt small

theorem listHead_setListUsed (headed : node.Headed) {used : Nat} :
    (node.setListUsed used).listHead = node.listHead := by
  have length := headed.length
  unfold listHead setListUsed writeBody
  rw [slice_word (by omega) (Or.inr (Or.inl (by omega))), if_neg (by omega)]

theorem listRun_setListHead (headed : node.Headed) {head : Nat} :
    (node.setListHead head).listRun = node.listRun := by
  have length := headed.length
  unfold listRun setListHead writeBody
  exact Buffer.drop_write_of_le (Nat.zero_le _) (by rw [length_leBytes]; decide)

theorem listRun_setListUsed (headed : node.Headed) {used : Nat} :
    (node.setListUsed used).listRun = node.listRun := by
  have length := headed.length
  unfold listRun setListUsed writeBody
  exact Buffer.drop_write_of_le (by omega) (by rw [length_leBytes]; decide)

theorem listHead_writeRun (headed : node.Headed) {offset : Nat} {data : Bytes}
    (fits : offset + data.length ≤ node.listRunCapacity) :
    (node.writeRun offset data).listHead = node.listHead := by
  have length := headed.length_run
  have header := headed.length
  unfold listRun at length
  rw [List.length_drop] at length
  unfold listHead writeRun writeBody listHeaderSize
  rw [Buffer.slice_write_before (by unfold listHeaderSize at length; omega) (by omega)]

theorem listUsed_writeRun (headed : node.Headed) {offset : Nat} {data : Bytes}
    (fits : offset + data.length ≤ node.listRunCapacity) :
    (node.writeRun offset data).listUsed = node.listUsed := by
  have length := headed.length_run
  have header := headed.length
  unfold listRun at length
  rw [List.length_drop] at length
  unfold listUsed writeRun writeBody listHeaderSize
  rw [Buffer.slice_write_before (by unfold listHeaderSize at length; omega) (by omega)]

theorem listRun_writeRun (headed : node.Headed) {offset : Nat} {data : Bytes}
    (fits : offset + data.length ≤ node.listRunCapacity) :
    (node.writeRun offset data).listRun = Buffer.write offset data node.listRun := by
  have length := headed.length_run
  have header := headed.length
  unfold listRun at length
  rw [List.length_drop] at length
  unfold listRun writeRun writeBody listHeaderSize
  exact Buffer.drop_write_add (by unfold listHeaderSize at length; omega)

/-! ## Windows -/

/-- A list node whose window holds the elements, with everything needed to
change it. -/
structure Window (node : Node) (items : List Value) : Prop extends Headed node where
  run : ListRun node items

theorem Headed.of_frame {next : Node} (headed : node.Headed) (frame : SameBlock next node)
    (body : next.body.length = node.body.length) : next.Headed where
  laid := frame.laid headed.laid body
  header := by
    rw [frame.bodyCapacity]
    exact headed.header

theorem Headed.same_length {next : Node} (left : next.Headed) (right : node.Headed)
    (frame : SameBlock next node) : next.body.length = node.body.length := by
  rw [left.laid.body, right.laid.body, frame.bodyCapacity]

theorem Headed.window {head used : Nat} (headed : node.Headed) (type : node.type = .list)
    (count : node.count = items.length) (isHead : node.listHead = head)
    (isUsed : node.listUsed = used) (size : used = (encodeItems items).length)
    (room : head + used ≤ node.listRunCapacity)
    (bytes : Buffer.slice head used node.listRun = encodeItems items)
    (limit : used ≤ listLimit) (bound : node.listRunCapacity ≤ 2 * listLimit) :
    node.Window items where
  toHeaded := headed
  run :=
    { type := type
      count := count
      used := isUsed.trans size
      room := by rw [isHead, isUsed]; exact room
      run := by rw [isHead, isUsed]; exact bytes
      limit := by rw [isUsed]; exact limit
      bound := bound }

theorem Window.of_frame {next : Node} {more : List Value} {head used : Nat}
    (window : node.Window items) (frame : SameBlock next node)
    (body : next.body.length = node.body.length) (type : next.type = node.type)
    (count : next.count = more.length) (isHead : next.listHead = head)
    (isUsed : next.listUsed = used) (size : used = (encodeItems more).length)
    (room : head + used ≤ node.listRunCapacity)
    (bytes : Buffer.slice head used next.listRun = encodeItems more)
    (limit : used ≤ listLimit) : next.Window more := by
  refine Headed.window (window.toHeaded.of_frame frame body) (type.trans window.run.type) count
    isHead isUsed size ?_ bytes limit ?_
  · rw [frame.listRunCapacity]
    exact room
  · rw [frame.listRunCapacity]
    exact window.run.bound

theorem Window.small (window : node.Window items) :
    node.listHead + node.listUsed < 2 ^ 32 ∧ node.listRunCapacity < 2 ^ 32 ∧
      node.listUsed < 2 ^ 32 := by
  have room := window.run.room
  have bound := window.run.bound
  have limit : 2 * listLimit < 2 ^ 32 := by decide
  omega

theorem Holds.window (holds : node.Holds (.list items)) (laid : node.Laid) :
    node.Window items := by
  rcases holds with ⟨nonempty, run⟩
  have elements := List.length_pos_of_ne_nil nonempty
  have bytes := length_le_encodeItems items
  have used := run.used
  have room := run.room
  refine ⟨⟨laid, ?_⟩, run⟩
  unfold listRunCapacity at room
  split at room
  case isTrue more => exact Nat.le_of_lt more
  case isFalse => omega

theorem Window.holds (window : node.Window items) (nonempty : items ≠ []) :
    node.Holds (.list items) :=
  ⟨nonempty, window.run⟩

theorem window_emptyList (headed : node.Headed) (type : node.type = .list)
    (count : node.count = 0) (bound : node.listRunCapacity ≤ 2 * listLimit) :
    node.emptyList.Window [] := by
  have zeroHead := headed.setListHead 0
  have frame : SameBlock node.emptyList node := ⟨rfl, rfl, rfl⟩
  refine @Headed.window node.emptyList [] 0 0 (zeroHead.setListUsed 0) type count ?_ ?_ rfl
    (Nat.zero_le _) (Buffer.slice_zero_length _ _) (Nat.zero_le _)
    (by rw [frame.listRunCapacity]; exact bound)
  · unfold emptyList
    rw [listHead_setListUsed zeroHead, listHead_setListHead headed (by decide)]
  · unfold emptyList
    rw [listUsed_setListUsed zeroHead (by decide)]

/-- Moving the window within the node; nothing has to be copied when it is
empty or already there. -/
theorem Window.moveTo {head : Nat} {needed : Prop} [Decidable needed] (window : node.Window items)
    (idle : ¬ needed -> head = node.listHead ∨ node.listUsed = 0)
    (room : head + node.listUsed ≤ node.listRunCapacity) :
    ((if needed then node.moveRun head node.listHead node.listUsed else node).setListHead
      head).Window items := by
  have small := window.small
  have length := window.length_run
  split
  case isTrue moves =>
    have size : (Buffer.slice node.listHead node.listUsed node.listRun).length =
        node.listUsed :=
      Buffer.length_slice_of_le (by rw [length]; exact window.run.room)
    have fits : head + (Buffer.slice node.listHead node.listUsed node.listRun).length ≤
        node.listRunCapacity := by
      rw [size]
      exact room
    have moved : (node.moveRun head node.listHead node.listUsed).Headed :=
      window.toHeaded.writeRun fits
    have used : (node.moveRun head node.listHead node.listUsed).listUsed = node.listUsed :=
      listUsed_writeRun window.toHeaded fits
    have run : (node.moveRun head node.listHead node.listUsed).listRun =
        Buffer.write head (Buffer.slice node.listHead node.listUsed node.listRun)
          node.listRun := listRun_writeRun window.toHeaded fits
    have same := @Buffer.slice_write_same UInt8 head
      (Buffer.slice node.listHead node.listUsed node.listRun) node.listRun
      (by rw [length]; omega)
    rw [size, window.run.run] at same
    have frame : SameBlock ((node.moveRun head node.listHead node.listUsed).setListHead head)
        node := ⟨rfl, rfl, rfl⟩
    refine window.of_frame frame ((moved.setListHead head).same_length window.toHeaded frame) rfl
      window.run.count (listHead_setListHead moved (by omega))
      ((listUsed_setListHead moved).trans used) window.run.used room ?_ window.run.limit
    rw [listRun_setListHead moved, run, window.run.run]
    exact same
  case isFalse stays =>
    have frame : SameBlock (node.setListHead head) node := ⟨rfl, rfl, rfl⟩
    refine window.of_frame frame
      ((window.toHeaded.setListHead head).same_length window.toHeaded frame) rfl window.run.count
      (listHead_setListHead window.toHeaded (by omega)) (listUsed_setListHead window.toHeaded)
      window.run.used room ?_ window.run.limit
    rw [listRun_setListHead window.toHeaded]
    rcases idle stays with same | empty
    · rw [same]
      exact window.run.run
    · have bytes := window.run.run
      rw [empty, Buffer.slice_zero_length] at bytes ⊢
      exact bytes

/-- The clamped middle leaves room on both sides. -/
theorem centredHead_spec {front back capacity used : Nat} (fits : used + front + back ≤ capacity)
    (small : capacity < 2 ^ 32) :
    front ≤ centredHead front back capacity used ∧
      centredHead front back capacity used + used + back ≤ capacity := by
  unfold centredHead
  rw [sub32_of_le (show used ≤ capacity by omega) small,
    sub32_of_le (show back ≤ capacity - used by omega) (by omega)]
  simp only
  split
  · split
    · omega
    · omega
  · split
    · omega
    · omega

/-- A larger run has room for what is required and stays within bounds. -/
theorem grownCapacity_spec {required current : Nat} (more : current < required)
    (limit : required ≤ listLimit) :
    required ≤ grownCapacity required current ∧ current < grownCapacity required current ∧
      grownCapacity required current ≤ 2 * listLimit := by
  have bound : 2 * listLimit < 2 ^ 32 := by decide
  have large : 32 ≤ listLimit := by decide
  have doubled : current * 2 % 2 ^ 32 = current * 2 := Nat.mod_eq_of_lt (by omega)
  unfold grownCapacity
  simp only [doubled]
  split_ifs <;> omega

/-- After `list_reserve` moved the window, both ends have room. -/
theorem Window.recentre {front back capacity : Nat} (window : node.Window items)
    (fits : node.listUsed + front + back ≤ capacity) (inside : capacity ≤ node.listRunCapacity) :
    (node.recentre front back capacity).Window items ∧
      (node.recentre front back capacity).listUsed = node.listUsed ∧
      front ≤ (node.recentre front back capacity).listHead ∧
      (node.recentre front back capacity).listHead + node.listUsed + back ≤ capacity := by
  have small := window.small
  have place := centredHead_spec fits (by omega)
  have moved : (node.recentre front back capacity).Window items := by
    refine window.moveTo ?_ (by omega)
    intro stays
    by_contra neither
    rw [not_or] at neither
    exact stays neither
  have head : (node.recentre front back capacity).listHead =
      centredHead front back capacity node.listUsed := by
    unfold Node.recentre
    refine listHead_setListHead ?_ (by omega)
    split
    · refine window.toHeaded.writeRun ?_
      rw [Buffer.length_slice]
      omega
    · exact window.toHeaded
  have used : (node.recentre front back capacity).listUsed = node.listUsed :=
    moved.run.used.trans window.run.used.symm
  rw [head]
  exact ⟨moved, used, place.1, place.2⟩

theorem Window.packList (window : node.Window items) :
    node.packList.Window items ∧ node.packList.listHead = 0 := by
  have room := window.run.room
  refine ⟨window.moveTo ?_ (by omega), ?_⟩
  · intro empty
    exact Or.inr (not_not.mp empty)
  · unfold Node.packList
    refine listHead_setListHead ?_ (by decide)
    split
    · refine window.toHeaded.writeRun ?_
      rw [Buffer.length_slice]
      omega
    · exact window.toHeaded

/-- Another block that has room for the header and the window. -/
theorem Window.grown {capacity : Nat} {garbage : Nat -> UInt8} (window : node.Window items)
    (fits : (blockLayout node.key.length capacity).2 < 2 ^ 32)
    (room : listHeaderSize + node.listHead + node.listUsed ≤ capacity)
    (bound : capacity ≤ listHeaderSize + 2 * listLimit) :
    (node.grown capacity garbage).Window items ∧
      (node.grown capacity garbage).listHead = node.listHead ∧
      (node.grown capacity garbage).listUsed = node.listUsed := by
  have larger := @grown_spec node capacity garbage window.laid fits
  have widest := bodyCapacity_le (node.grown capacity garbage) rfl
  have header := window.header
  have inside := window.run.room
  rw [window.runCapacity] at inside
  have headed : (node.grown capacity garbage).Headed :=
    ⟨larger.1, Nat.le_trans (by omega) larger.2⟩
  have copied : (node.grown capacity garbage).body.take
      (listHeaderSize + node.listHead + node.listUsed) =
      node.body.take (listHeaderSize + node.listHead + node.listUsed) :=
    take_grown window.laid (by omega) (Nat.le_trans room larger.2)
  have read : forall offset length,
      offset + length ≤ listHeaderSize + node.listHead + node.listUsed ->
      Buffer.slice offset length (node.grown capacity garbage).body =
        Buffer.slice offset length node.body := by
    intro offset length within
    rw [<- Buffer.slice_take within, copied, Buffer.slice_take within]
  have size : listHeaderSize = 8 := rfl
  have head : (node.grown capacity garbage).listHead = node.listHead := by
    unfold listHead
    rw [read 0 4 (by omega)]
  have used : (node.grown capacity garbage).listUsed = node.listUsed := by
    unfold listUsed
    rw [read 4 4 (by omega)]
  have largest : Slab.largestClass = 4096 := rfl
  have limit : 4096 ≤ 2 * listLimit := by decide
  refine ⟨Headed.window headed window.run.type window.run.count head used window.run.used ?_ ?_
    window.run.limit ?_, head, used⟩
  · rw [headed.runCapacity]
    omega
  · rw [<- window.run.run]
    have from_body : forall body : Bytes,
        Buffer.slice node.listHead node.listUsed (body.drop listHeaderSize) =
          Buffer.slice (listHeaderSize + node.listHead) node.listUsed body := by
      intro body
      simp only [Buffer.slice, List.drop_drop]
    unfold listRun
    rw [from_body, from_body]
    exact read _ _ (Nat.le_refl _)
  · rw [headed.runCapacity]
    omega

/-! ## Pushing and popping -/

theorem Window.count_lt (window : node.Window items) : items.length < 2 ^ 32 - 1 := by
  have limit := window.run.limit
  have bytes := length_le_encodeItems items
  have bound : listLimit < 2 ^ 32 - 1 := by decide
  rw [window.run.used] at limit
  omega

theorem encoded_of_limit (limit : node.listUsed + Pack.encodedSize value ≤ listLimit) :
    Pack.encodedSize value % 2 ^ 32 = Pack.encodedSize value := by
  have bound : listLimit < 2 ^ 32 := by decide
  exact Nat.mod_eq_of_lt (by omega)

theorem Window.pushBack (window : node.Window items)
    (limit : node.listUsed + Pack.encodedSize value ≤ listLimit)
    (room : node.listHead + node.listUsed + Pack.encodedSize value ≤ node.listRunCapacity) :
    (node.pushElement false value).Window (items ++ [value]) := by
  have length := Pack.length_encode value
  have small := window.count_lt
  have bound : listLimit < 2 ^ 32 := by decide
  have fits : node.listHead + node.listUsed + (Pack.encode value).length ≤
      node.listRunCapacity := by omega
  have written := window.toHeaded.writeRun fits
  have used := listUsed_writeRun window.toHeaded fits
  have head := listHead_writeRun window.toHeaded fits
  have run := listRun_writeRun window.toHeaded fits
  have inside : node.listHead + node.listUsed ≤ node.listRun.length := by
    rw [window.length_run]
    omega
  have shape : node.pushElement false value =
      { (node.writeRun (node.listHead + node.listUsed) (Pack.encode value)).setListUsed
          (node.listUsed + Pack.encodedSize value) with
        count := items.length + 1 } := by
    unfold Node.pushElement
    simp only [Bool.false_eq_true, if_false, used, encoded_of_limit limit]
    rw [Nat.mod_eq_of_lt (show node.listUsed + Pack.encodedSize value < 2 ^ 32 by omega)]
    have count : (node.count + 1) % 2 ^ 32 = items.length + 1 := by
      rw [window.run.count]
      omega
    rw [<- count]
    rfl
  have encoded : (encodeItems (items ++ [value])).length =
      node.listUsed + Pack.encodedSize value := by
    rw [encodeItems_append, List.length_append, <- window.run.used, encodeItems_cons,
      encodeItems_nil, List.append_nil, length]
  have longer := (written.setListUsed (node.listUsed + Pack.encodedSize value)).same_length
    window.toHeaded ⟨rfl, rfl, rfl⟩
  rw [shape]
  refine @Window.of_frame _ _ _ (items ++ [value]) node.listHead
    (node.listUsed + Pack.encodedSize value) window ⟨rfl, rfl, rfl⟩ longer rfl ?_ ?_ ?_
    encoded.symm ?_ ?_ limit
  · rw [List.length_append]
    rfl
  · exact (listHead_setListUsed written).trans head
  · exact listUsed_setListUsed written (by omega)
  · rw [<- Nat.add_assoc]
    exact room
  · change Buffer.slice _ _ (Node.listRun (Node.setListUsed _ _)) = _
    rw [listRun_setListUsed written, run, Buffer.slice_add,
      Buffer.slice_write_before inside (Nat.le_refl _), window.run.run, encodeItems_append,
      encodeItems_cons, encodeItems_nil, List.append_nil, <- length,
      Buffer.slice_write_same inside]

theorem Window.pushFront (window : node.Window items)
    (limit : node.listUsed + Pack.encodedSize value ≤ listLimit)
    (room : Pack.encodedSize value ≤ node.listHead) :
    (node.pushElement true value).Window (value :: items) := by
  have length := Pack.length_encode value
  have small := window.count_lt
  have sizes := window.small
  have bound : listLimit < 2 ^ 32 := by decide
  have inside := window.run.room
  have lowered := window.toHeaded.setListHead (node.listHead - Pack.encodedSize value)
  have lowHead : (node.setListHead (node.listHead - Pack.encodedSize value)).listHead =
      node.listHead - Pack.encodedSize value :=
    listHead_setListHead window.toHeaded (by omega)
  have lowUsed : (node.setListHead (node.listHead - Pack.encodedSize value)).listUsed =
      node.listUsed := listUsed_setListHead window.toHeaded
  have frame : SameBlock (node.setListHead (node.listHead - Pack.encodedSize value)) node :=
    ⟨rfl, rfl, rfl⟩
  have fits : node.listHead - Pack.encodedSize value + (Pack.encode value).length ≤
      (node.setListHead (node.listHead - Pack.encodedSize value)).listRunCapacity := by
    rw [frame.listRunCapacity]
    omega
  have written := lowered.writeRun fits
  have used := (listUsed_writeRun lowered fits).trans lowUsed
  have head := (listHead_writeRun lowered fits).trans lowHead
  have run := listRun_writeRun lowered fits
  rw [listRun_setListHead window.toHeaded] at run
  have shape : node.pushElement true value =
      { ((node.setListHead (node.listHead - Pack.encodedSize value)).writeRun
          (node.listHead - Pack.encodedSize value) (Pack.encode value)).setListUsed
          (Pack.encodedSize value + node.listUsed) with
        count := items.length + 1 } := by
    unfold Node.pushElement
    simp only [if_true, encoded_of_limit limit]
    rw [sub32_of_le room (by omega), lowHead, used,
      Nat.mod_eq_of_lt (show node.listUsed + Pack.encodedSize value < 2 ^ 32 by omega)]
    have count : (node.count + 1) % 2 ^ 32 = items.length + 1 := by
      rw [window.run.count]
      omega
    rw [<- count, Nat.add_comm node.listUsed]
    rfl
  have encoded : (encodeItems (value :: items)).length =
      Pack.encodedSize value + node.listUsed := by
    rw [encodeItems_cons, List.length_append, <- window.run.used, length]
  have covered : node.listHead - Pack.encodedSize value ≤ node.listRun.length := by
    rw [window.length_run]
    omega
  have longer := (written.setListUsed (Pack.encodedSize value + node.listUsed)).same_length
    window.toHeaded ⟨rfl, rfl, rfl⟩
  rw [shape]
  refine @Window.of_frame _ _ _ (value :: items) (node.listHead - Pack.encodedSize value)
    (Pack.encodedSize value + node.listUsed) window ⟨rfl, rfl, rfl⟩ longer rfl rfl ?_ ?_
    encoded.symm (by omega) ?_ ?_
  · exact (listHead_setListUsed written).trans head
  · exact listUsed_setListUsed written (by omega)
  · change Buffer.slice _ _ (Node.listRun (Node.setListUsed _ _)) = _
    rw [listRun_setListUsed written, run, Buffer.slice_add, <- length,
      Buffer.slice_write_same (by rw [length]; exact covered), encodeItems_cons,
      Buffer.slice_write_after (by rw [length]; exact covered) (Nat.le_refl _)]
    congr 1
    rw [length, Nat.sub_add_cancel room]
    exact window.run.run
  · rw [Nat.add_comm]
    exact limit

/-- The first element is found from its header. -/
theorem Window.popElement_front (window : node.Window (value :: items)) :
    node.popElement true = (value, (Pack.encode value).length) := by
  have fits := window.run.fits List.mem_cons_self
  have limit := window.run.limit
  have bound : listLimit < 2 ^ 32 := by decide
  have whole := List.take_append_drop node.listUsed (node.listRun.drop node.listHead)
  have bytes : (node.listRun.drop node.listHead).take node.listUsed =
      encodeItems (value :: items) := window.run.run
  rw [bytes, encodeItems_cons, List.append_assoc] at whole
  rw [window.run.used, encodeItems_cons, List.length_append] at limit
  unfold popElement
  simp only [if_true]
  rw [<- whole, Pack.decode_encode fits, Pack.stride_encode fits,
    Nat.mod_eq_of_lt (show (Pack.encode value).length < 2 ^ 32 by omega)]

/-- The last element is found from its length suffix. -/
theorem Window.popElement_back (window : node.Window (items ++ [value])) :
    node.popElement false = (value, (Pack.encode value).length) := by
  have fits := window.run.fits (List.mem_append_right items List.mem_cons_self)
  have limit := window.run.limit
  have used := window.run.used
  have bound : listLimit < 2 ^ 32 := by decide
  rw [encodeItems_append, encodeItems_cons, encodeItems_nil, List.append_nil,
    List.length_append] at used
  have bytes := window.run.run
  rw [encodeItems_append, encodeItems_cons, encodeItems_nil, List.append_nil] at bytes
  have before : node.listRun.take (node.listHead + node.listUsed) =
      node.listRun.take node.listHead ++ encodeItems items ++ Pack.encode value := by
    rw [List.take_add, List.append_assoc, <- bytes]
    rfl
  have start : node.listHead + node.listUsed - (Pack.encode value).length =
      node.listHead + (encodeItems items).length := by omega
  have after : node.listRun.drop (node.listHead + (encodeItems items).length) =
      Pack.encode value ++ node.listRun.drop (node.listHead + node.listUsed) := by
    have whole := List.take_append_drop node.listUsed (node.listRun.drop node.listHead)
    have window : (node.listRun.drop node.listHead).take node.listUsed =
        encodeItems items ++ Pack.encode value := bytes
    rw [window, List.drop_drop] at whole
    rw [<- List.drop_drop, <- whole, List.append_assoc, List.drop_left]
  unfold popElement
  simp only [Bool.false_eq_true, if_false]
  rw [before, Pack.decodeBacklen_encode fits, Pack.backlen_encode, start, after,
    Pack.decode_encode fits,
    Nat.mod_eq_of_lt (show (Pack.encode value).length < 2 ^ 32 by omega)]

/-- Taking the first element out moves the start of the window. -/
theorem Window.dropElement_front (window : node.Window (value :: items)) :
    (node.dropElement true (Pack.encode value).length).Window items := by
  have small := window.small
  have room := window.run.room
  have used := window.run.used
  rw [encodeItems_cons, List.length_append] at used
  have count := window.run.count
  have few := window.count_lt
  rw [List.length_cons] at count few
  have advanced := window.toHeaded.setListHead (node.listHead + (Pack.encode value).length)
  have isUsed : (node.setListHead (node.listHead + (Pack.encode value).length)).listUsed =
      node.listUsed := listUsed_setListHead window.toHeaded
  have shape : node.dropElement true (Pack.encode value).length =
      { (node.setListHead (node.listHead + (Pack.encode value).length)).setListUsed
          (encodeItems items).length with count := items.length } := by
    unfold Node.dropElement
    simp only [if_true]
    rw [Nat.mod_eq_of_lt (show node.listHead + (Pack.encode value).length < 2 ^ 32 by omega),
      isUsed, sub32_of_le (by omega) (by omega), used, Nat.add_sub_cancel_left]
    have less : sub32 node.count 1 = items.length := by
      rw [sub32_of_le (by omega) (by omega), count]
      rfl
    rw [<- less]
    rfl
  have shorter := (advanced.setListUsed (encodeItems items).length).same_length
    window.toHeaded ⟨rfl, rfl, rfl⟩
  rw [shape]
  refine @Window.of_frame _ _ _ items (node.listHead + (Pack.encode value).length)
    (encodeItems items).length window ⟨rfl, rfl, rfl⟩ shorter rfl rfl ?_ ?_ rfl (by omega) ?_ ?_
  · exact (listHead_setListUsed advanced).trans (listHead_setListHead window.toHeaded (by omega))
  · exact listUsed_setListUsed advanced (by omega)
  · change Buffer.slice _ _ (Node.listRun (Node.setListUsed _ _)) = _
    rw [listRun_setListUsed advanced, listRun_setListHead window.toHeaded]
    have bytes := window.run.run
    rw [used, Buffer.slice_add, encodeItems_cons] at bytes
    refine (List.append_inj bytes ?_).2
    exact Buffer.length_slice_of_le (by rw [window.length_run]; omega)
  · have limit := window.run.limit
    omega

/-- Taking the last element out moves the end of the window. -/
theorem Window.dropElement_back (window : node.Window (items ++ [value])) :
    (node.dropElement false (Pack.encode value).length).Window items := by
  have small := window.small
  have room := window.run.room
  have used := window.run.used
  rw [encodeItems_append, encodeItems_cons, encodeItems_nil, List.append_nil,
    List.length_append] at used
  have count := window.run.count
  have few := window.count_lt
  rw [List.length_append, List.length_singleton] at count few
  have shape : node.dropElement false (Pack.encode value).length =
      { node.setListUsed (encodeItems items).length with count := items.length } := by
    unfold Node.dropElement
    simp only [Bool.false_eq_true, if_false]
    rw [sub32_of_le (by omega) (by omega), used, Nat.add_sub_cancel]
    have less : sub32 node.count 1 = items.length := by
      rw [sub32_of_le (by omega) (by omega), count]
      rfl
    rw [<- less]
    rfl
  have shorter := (window.toHeaded.setListUsed (encodeItems items).length).same_length
    window.toHeaded ⟨rfl, rfl, rfl⟩
  rw [shape]
  refine @Window.of_frame _ _ _ items node.listHead (encodeItems items).length window
    ⟨rfl, rfl, rfl⟩ shorter rfl rfl ?_ ?_ rfl (by omega) ?_ ?_
  · exact listHead_setListUsed window.toHeaded
  · exact listUsed_setListUsed window.toHeaded (by omega)
  · change Buffer.slice _ _ (Node.listRun (Node.setListUsed _ _)) = _
    rw [listRun_setListUsed window.toHeaded]
    have bytes := window.run.run
    rw [used, Buffer.slice_add, encodeItems_append] at bytes
    refine (List.append_inj bytes ?_).1
    exact Buffer.length_slice_of_le (by rw [window.length_run]; omega)
  · have limit := window.run.limit
    omega

/-- The new node of `push_texts` holds the old and the new elements. -/
theorem window_fillTexts {front : Bool} {values : List Bytes} {window : Bytes} {bytes count : Nat}
    (headed : node.Headed) (type : node.type = .list)
    (isWindow : window = encodeItems items)
    (size : bytes = (encodeItems items).length + (encodeItems (values.map Value.text)).length)
    (isCount : count = items.length + values.length)
    (room : bytes ≤ node.listRunCapacity) (limit : bytes ≤ listLimit)
    (bound : node.listRunCapacity ≤ 2 * listLimit) :
    (node.fillTexts front values window bytes count).Window
      (if front then (values.map Value.text).reverse ++ items
        else items ++ values.map Value.text) := by
  have reversed : (encodeItems (values.map Value.text).reverse).length =
      (encodeItems (values.map Value.text)).length := by
    unfold encodeItems
    rw [List.length_flatMap, List.length_flatMap, List.map_reverse, List.sum_reverse]
  have data : (if front then encodeItems (values.map Value.text).reverse ++ window
      else window ++ encodeItems (values.map Value.text)) =
      encodeItems (if front then (values.map Value.text).reverse ++ items
        else items ++ values.map Value.text) := by
    rw [isWindow]
    cases front with
    | true | false => exact (encodeItems_append _ _).symm
  have length : (encodeItems (if front then (values.map Value.text).reverse ++ items
      else items ++ values.map Value.text)).length = bytes := by
    rw [<- data, isWindow, size]
    cases front with
    | true =>
        simp only [if_true, List.length_append, reversed]
        omega
    | false => simp only [Bool.false_eq_true, if_false, List.length_append]
  have bounds : listLimit < 2 ^ 32 := by decide
  have zeroHead := headed.setListHead 0
  have sized := zeroHead.setListUsed bytes
  have fits : 0 + (encodeItems (if front then (values.map Value.text).reverse ++ items
      else items ++ values.map Value.text)).length ≤
      ((node.setListHead 0).setListUsed bytes).listRunCapacity := by
    have frame : SameBlock ((node.setListHead 0).setListUsed bytes) node := ⟨rfl, rfl, rfl⟩
    rw [length, Nat.zero_add, frame.listRunCapacity]
    exact room
  have written := sized.writeRun fits
  unfold fillTexts
  simp only
  rw [data]
  have frame : SameBlock { ((node.setListHead 0).setListUsed bytes).writeRun 0 (encodeItems
      (if front then (values.map Value.text).reverse ++ items
        else items ++ values.map Value.text)) with count := count } node := ⟨rfl, rfl, rfl⟩
  refine @Headed.window _ _ 0 bytes
    (headed.of_frame frame (written.same_length headed ⟨rfl, rfl, rfl⟩)) type ?_ ?_ ?_ length.symm
    ?_ ?_ limit (by rw [frame.listRunCapacity]; exact bound)
  · change count = _
    rw [isCount]
    cases front with
    | true =>
        simp only [if_true, List.length_append, List.length_reverse, List.length_map]
        omega
    | false => simp only [Bool.false_eq_true, if_false, List.length_append, List.length_map]
  · exact (listHead_writeRun sized fits).trans
      ((listHead_setListUsed zeroHead).trans (listHead_setListHead headed (by decide)))
  · exact (listUsed_writeRun sized fits).trans (listUsed_setListUsed zeroHead (by omega))
  · rw [Nat.zero_add, frame.listRunCapacity]
    exact room
  · change Buffer.slice _ _ (Node.listRun (Node.writeRun _ _ _)) = _
    rw [listRun_writeRun sized fits, <- length]
    exact Buffer.slice_write_same (Nat.zero_le _)

end Node

end Reddish
