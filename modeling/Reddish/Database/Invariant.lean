import Reddish.Database.State

namespace Reddish
namespace Db

open Library Numeral

/-!
# The structures agree

`Consistent db order pending` says that `order` lists the nodes of the keyspace
from the most to the least recently used one, that `pending` lists the nodes
that were created but not entered yet, and that blocks, table, recency list,
deadlines and counters all speak about these nodes.

Each structure has its own predicate, so that an operation on one of them
leaves the proofs about the others alone.
-/

/-- The allocated blocks are the listed ones; the pool hands out others.  Each block
has the computed layout, and the tracked bytes are the sum of their sizes. -/
structure Blocks (db : Db) (live : List Addr) : Prop where
  nodup : live.Nodup
  allocated : forall addr, db.nodes addr ≠ none <-> addr ∈ live
  free_lt : forall addr, addr ∈ db.free -> addr < db.top
  free_nodup : db.free.Nodup
  free_none : forall addr, addr ∈ db.free -> db.nodes addr = none
  beyond : forall addr, db.top ≤ addr -> db.nodes addr = none
  laid : forall addr, addr ∈ live -> (db.node addr).Laid
  tracked : db.trackedBytes = (live.map fun addr => (db.node addr).blockSize).sum

/-- Every listed node stands in the chain of its key, and no key occurs twice. -/
structure Table (db : Db) (order : List Addr) : Prop where
  size : exists k, 4 ≤ k ∧ k ≤ 31 ∧ db.buckets.length = 2 ^ k
  holds : Chains.Holds (fun addr => chainOf db.buckets.length (db.key addr)) db.buckets order
  keys : (order.map db.key).Nodup

/-- Deadlines belong to listed nodes, whose flags say who has one. -/
structure Deadlines (db : Db) (nodes : List Addr) : Prop where
  valid : db.expiries.Valid
  member : forall addr, db.deadline addr ≠ none -> addr ∈ nodes
  flags : forall addr, addr ∈ nodes -> (db.ttlFlag addr = true <-> db.deadline addr ≠ none)
  count : db.ttlKeyCount = db.expiries.order.length
  hint : db.ttlHint = decide (db.expiries.order.length ≠ 0)

/-- Everything but the deadlines agrees: the blocks, the table, the recency list and
the counters are about the same nodes, and a pending node is linked nowhere. -/
structure Linked (db : Db) (order pending : List Addr) : Prop where
  blocks : Blocks db (order ++ pending)
  table : Table db order
  recency : db.lru.Represents order
  unlinked : forall addr, addr ∈ pending ->
    db.lru.previous addr = none ∧ db.lru.next addr = none
  keyTotal : db.keyTotal = order.length
  keyHint : db.keyHint = db.keyTotal

structure Consistent (db : Db) (order pending : List Addr) : Prop extends
    Linked db order pending where
  deadlines : Deadlines db (order ++ pending)

variable {db : Db} {order pending live nodes : List Addr} {addr other old new : Addr}

/-! ## Only the own fields matter -/

section Transfer

variable {later : Db}

theorem Blocks.transfer (blocks : Blocks db live) (nodes : later.nodes = db.nodes)
    (free : later.free = db.free) (top : later.top = db.top)
    (tracked : later.trackedBytes = db.trackedBytes) : Blocks later live where
  nodup := blocks.nodup
  allocated := by rw [nodes]; exact blocks.allocated
  free_lt := by rw [free, top]; exact blocks.free_lt
  free_nodup := by rw [free]; exact blocks.free_nodup
  free_none := by rw [free, nodes]; exact blocks.free_none
  beyond := by rw [top, nodes]; exact blocks.beyond
  laid := by unfold Db.node; rw [nodes]; exact blocks.laid
  tracked := by unfold Db.node; rw [tracked, nodes]; exact blocks.tracked

theorem Table.transfer (table : Table db order) (buckets : later.buckets = db.buckets)
    (keys : forall addr, addr ∈ order -> later.key addr = db.key addr) : Table later order where
  size := by rw [buckets]; exact table.size
  holds := by
    rw [buckets]
    exact table.holds.congr fun addr member => by rw [keys addr member]
  keys := by rw [List.map_congr_left keys]; exact table.keys

theorem Deadlines.transfer (deadlines : Deadlines db nodes)
    (expiries : later.expiries = db.expiries) (flag : later.ttlFlag = db.ttlFlag)
    (count : later.ttlKeyCount = db.ttlKeyCount) (hint : later.ttlHint = db.ttlHint) :
    Deadlines later nodes where
  valid := by rw [expiries]; exact deadlines.valid
  member := by unfold Db.deadline; rw [expiries]; exact deadlines.member
  flags := by unfold Db.deadline; rw [expiries, flag]; exact deadlines.flags
  count := by rw [count, expiries]; exact deadlines.count
  hint := by rw [hint, expiries]; exact deadlines.hint

theorem Linked.transfer (linked : Linked db order pending) (nodes : later.nodes = db.nodes)
    (free : later.free = db.free) (top : later.top = db.top)
    (tracked : later.trackedBytes = db.trackedBytes) (buckets : later.buckets = db.buckets)
    (lru : later.lru = db.lru) (total : later.keyTotal = db.keyTotal)
    (hint : later.keyHint = db.keyHint) : Linked later order pending where
  blocks := linked.blocks.transfer nodes free top tracked
  table := linked.table.transfer buckets fun _ _ => by unfold Db.key Db.node; rw [nodes]
  recency := by rw [lru]; exact linked.recency
  unlinked := by rw [lru]; exact linked.unlinked
  keyTotal := by rw [total]; exact linked.keyTotal
  keyHint := by rw [total, hint]; exact linked.keyHint

end Transfer

/-! ## Reading -/

theorem chainOf_lt {count k : Nat} (size : count = 2 ^ k) (key : Bytes) :
    chainOf count key < count := by
  rw [chainOf, size, Nat.and_two_pow_sub_one_eq_mod]
  exact Nat.mod_lt _ (Nat.two_pow_pos k)

theorem Blocks.of_perm {others : List Addr} (blocks : Blocks db live) (perm : live.Perm others) :
    Blocks db others where
  nodup := perm.nodup_iff.mp blocks.nodup
  allocated := fun addr => (blocks.allocated addr).trans perm.mem_iff
  free_lt := blocks.free_lt
  free_nodup := blocks.free_nodup
  free_none := blocks.free_none
  beyond := blocks.beyond
  laid := fun addr member => blocks.laid addr (perm.mem_iff.mpr member)
  tracked := blocks.tracked.trans (perm.map _).sum_eq

/-- The pool never hands out a block in use. -/
theorem Blocks.freshAddr_notMem (blocks : Blocks db live) : db.freshAddr ∉ live := by
  rw [<- blocks.allocated, not_not]
  unfold freshAddr
  cases free : db.free with
  | nil => exact blocks.beyond _ (Nat.le_refl _)
  | cons first rest => exact blocks.free_none first (by rw [free]; exact List.mem_cons_self)

theorem Deadlines.congr {others : List Addr} (deadlines : Deadlines db nodes)
    (same : forall addr, addr ∈ nodes <-> addr ∈ others) : Deadlines db others where
  valid := deadlines.valid
  member := fun addr some => (same addr).mp (deadlines.member addr some)
  flags := fun addr member => deadlines.flags addr ((same addr).mpr member)
  count := deadlines.count
  hint := deadlines.hint

theorem Linked.nodup (linked : Linked db order pending) : order.Nodup :=
  linked.recency.nodup

theorem Linked.notMem_of_pending (linked : Linked db order pending)
    (waiting : addr ∈ pending) : addr ∉ order := fun inside =>
  (List.nodup_append.mp linked.blocks.nodup).2.2 addr inside addr waiting rfl

theorem Table.key_injective (table : Table db order) (member : addr ∈ order)
    (also : other ∈ order) (equal : db.key addr = db.key other) : addr = other :=
  List.inj_on_of_nodup_map table.keys member also equal

theorem Linked.key_injective (linked : Linked db order pending)
    (member : addr ∈ order) (also : other ∈ order) (equal : db.key addr = db.key other) :
    addr = other :=
  linked.table.key_injective member also equal

/-- `find_node` finds the node of the key, if there is one. -/
theorem Table.findNode_eq (table : Table db order) (key : Bytes) :
    db.findNode key = order.find? (fun addr => db.key addr = key) := by
  refine table.holds.find_chain ?_ ?_
  · intro addr _ found
    rw [decide_eq_true_eq] at found
    rw [found]
  · intro one first two second isOne isTwo
    rw [decide_eq_true_eq] at isOne isTwo
    exact table.key_injective first second (isOne.trans isTwo.symm)

theorem Table.findNode_iff (table : Table db order) {key : Bytes} :
    db.findNode key = some addr <-> addr ∈ order ∧ db.key addr = key := by
  rw [table.findNode_eq]
  constructor
  · intro found
    exact ⟨List.mem_of_find?_eq_some found, by simpa using List.find?_some found⟩
  · rintro ⟨member, rfl⟩
    cases found : order.find? (fun other => db.key other = db.key addr) with
    | none => simpa using List.find?_eq_none.mp found addr member
    | some other =>
        have same : db.key other = db.key addr := by simpa using List.find?_some found
        rw [table.key_injective (List.mem_of_find?_eq_some found) member same]

theorem Linked.findNode_eq (linked : Linked db order pending) (key : Bytes) :
    db.findNode key = order.find? (fun addr => db.key addr = key) :=
  linked.table.findNode_eq key

theorem Linked.findNode_some (linked : Linked db order pending) {key : Bytes}
    (found : db.findNode key = some addr) : addr ∈ order ∧ db.key addr = key :=
  linked.table.findNode_iff.mp found

theorem Linked.findNode_none (linked : Linked db order pending) {key : Bytes} :
    db.findNode key = none <-> forall addr, addr ∈ order -> db.key addr ≠ key := by
  rw [linked.findNode_eq, List.find?_eq_none]
  simp

theorem Linked.findNode_of_mem (linked : Linked db order pending)
    (member : addr ∈ order) : db.findNode (db.key addr) = some addr :=
  linked.table.findNode_iff.mpr ⟨member, rfl⟩

theorem Table.link (table : Table db order)
    (fresh : forall other, other ∈ order -> db.key other ≠ db.key addr) :
    Table (db.link addr) (addr :: order) := by
  have length : (db.link addr).buckets.length = db.buckets.length := Chains.length_link
  rcases table.size with ⟨k, large, small, size⟩
  refine ⟨⟨k, large, small, length.trans size⟩, ?_, ?_⟩
  · rw [length]
    exact table.holds.link (chainOf_lt size _)
  · refine List.nodup_cons.mpr ⟨?_, table.keys⟩
    intro listed
    rcases List.mem_map.mp listed with ⟨other, member, equal⟩
    exact fresh other member equal

theorem Table.unlink (table : Table db order) (member : addr ∈ order) :
    Table (db.unlink addr) (order.erase addr) := by
  have length : (db.unlink addr).buckets.length = db.buckets.length := Chains.length_unlink
  refine ⟨?_, ?_, table.keys.sublist (List.erase_sublist.map _)⟩
  · rw [length]
    exact table.size
  · rw [length]
    exact table.holds.unlink member

/-! ## Touching -/

/-- A member splits the list, and erasing it joins the parts. -/
theorem split_of_mem (nodup : order.Nodup) (member : addr ∈ order) :
    exists before after, order = before ++ addr :: after ∧ order.erase addr = before ++ after ∧
      addr ∉ before ++ after := by
  rcases List.append_of_mem member with ⟨before, after, split⟩
  rw [split, List.nodup_append, List.nodup_cons] at nodup
  have notBefore : addr ∉ before := fun inside =>
    nodup.2.2 addr inside addr List.mem_cons_self rfl
  refine ⟨before, after, split, ?_, ?_⟩
  · rw [split, List.erase_append_right _ notBefore, List.erase_cons_head]
  · rw [List.mem_append]
    rintro (front | back)
    · exact notBefore front
    · exact nodup.2.1.1 back

/-- A touched node moves to the front; nodes outside the list keep their
fields. -/
theorem represents_touchLinks {links : Links Addr} (list : links.Represents order)
    (member : addr ∈ order) :
    (touchLinks addr links).Represents (addr :: order.erase addr) ∧
      forall other, other ∉ order ->
        (touchLinks addr links).previous other = links.previous other ∧
          (touchLinks addr links).next other = links.next other := by
  rcases split_of_mem list.nodup member with ⟨before, after, rfl, erased, outside⟩
  rw [erased]
  unfold touchLinks
  by_cases first : links.head = some addr
  · rw [if_pos first]
    refine ⟨?_, fun _ _ => ⟨rfl, rfl⟩⟩
    rw [list.head] at first
    cases before with
    | nil => exact list
    | cons head rest =>
        rw [List.cons_append, List.head?_cons, Option.some.injEq] at first
        rw [first] at outside
        exact absurd (by simp) outside
  · have linked : (links.previous addr).isSome :=
      (list.head_or_previous member).resolve_left first
    rw [if_neg first, if_pos (Or.inl linked)]
    refine ⟨list.unlink.pushFront outside, ?_⟩
    intro other notThere
    have kept := list.unlink_outside notThere
    simp only [List.mem_append, List.mem_cons, not_or] at notThere
    have pushed := list.unlink.pushFront_outside (by simp [notThere]) notThere.2.1
    exact ⟨pushed.1.trans kept.1, pushed.2.trans kept.2⟩

/-- A node without links is put in front. -/
theorem represents_touchLinks_fresh {links : Links Addr} (list : links.Represents order)
    (fresh : addr ∉ order) (unlinked : links.previous addr = none ∧ links.next addr = none) :
    (touchLinks addr links).Represents (addr :: order) ∧
      forall other, other ∉ order -> other ≠ addr ->
        (touchLinks addr links).previous other = links.previous other ∧
          (touchLinks addr links).next other = links.next other := by
  have notHead : links.head ≠ some addr := by
    rw [list.head]
    intro equal
    exact fresh (List.mem_of_head? equal)
  have notTail : links.tail ≠ some addr := by
    rw [list.tail]
    intro equal
    exact fresh (List.mem_of_getLast? equal)
  unfold touchLinks
  rw [if_neg notHead, if_neg (by simp [unlinked, notTail])]
  exact ⟨list.pushFront fresh, fun other outside different =>
    list.pushFront_outside outside different⟩

theorem perm_touch (member : addr ∈ order) :
    (order ++ pending).Perm (addr :: order.erase addr ++ pending) :=
  (List.perm_cons_erase member).append_right pending

theorem Linked.touch (linked : Linked db order pending) (member : addr ∈ order) :
    Linked (db.touch addr) (addr :: order.erase addr) pending where
  blocks := (linked.blocks.of_perm (perm_touch member)).transfer rfl rfl rfl rfl
  table := by
    have perm := List.perm_cons_erase member
    have table : Table (db.touch addr) order := linked.table.transfer rfl fun _ _ => rfl
    exact ⟨table.size, table.holds.of_perm perm, (perm.map _).nodup_iff.mp table.keys⟩
  recency := (represents_touchLinks linked.recency member).1
  unlinked := by
    intro other waiting
    have kept := (represents_touchLinks linked.recency member).2 other
      (linked.notMem_of_pending waiting)
    have before := linked.unlinked other waiting
    exact ⟨kept.1.trans before.1, kept.2.trans before.2⟩
  keyTotal := by
    change db.keyTotal = _
    rw [linked.keyTotal, (List.perm_cons_erase member).length_eq]
  keyHint := linked.keyHint

theorem Consistent.touch (consistent : Consistent db order pending) (member : addr ∈ order) :
    Consistent (db.touch addr) (addr :: order.erase addr) pending where
  toLinked := consistent.toLinked.touch member
  deadlines := (consistent.deadlines.congr fun _ => (perm_touch member).mem_iff).transfer
    rfl rfl rfl rfl

/-! ## Blocks -/

theorem node_modifyNode {change : Node -> Node} (known : db.nodes addr ≠ none) :
    (db.modifyNode addr change).node other =
      if other = addr then change (db.node addr) else db.node other := by
  unfold Db.node modifyNode
  by_cases same : other = addr
  · subst same
    simp only [Function.update_self, if_true]
    cases found : db.nodes other with
    | none => exact absurd found known
    | some node => rfl
  · simp only [Function.update_of_ne same, if_neg same]

theorem node_place {node : Node} :
    (db.place node).node other = if other = db.freshAddr then node else db.node other := by
  unfold Db.node place
  by_cases same : other = db.freshAddr
  · simp only [same, Function.update_self, if_true, Option.getD_some]
  · simp only [Function.update_of_ne same, if_neg same]

theorem node_destroy (different : other ≠ addr) : (db.destroy addr).node other = db.node other := by
  unfold Db.node destroy
  simp only [Function.update_of_ne different]

theorem Blocks.modifyNode {change : Node -> Node} (blocks : Blocks db live) (member : addr ∈ live)
    (laid : (change (db.node addr)).Laid)
    (size : (change (db.node addr)).blockSize = (db.node addr).blockSize) :
    Blocks (db.modifyNode addr change) live where
  nodup := blocks.nodup
  allocated := by
    intro other
    rw [<- blocks.allocated other]
    unfold Db.modifyNode
    by_cases same : other = addr
    · subst same
      simp
    · simp only [Function.update_of_ne same]
  free_lt := blocks.free_lt
  free_nodup := blocks.free_nodup
  free_none := by
    intro other free
    have different : other ≠ addr := by
      rintro rfl
      exact (blocks.allocated other).mpr member (blocks.free_none other free)
    change Function.update db.nodes addr _ other = none
    rw [Function.update_of_ne different]
    exact blocks.free_none other free
  beyond := by
    intro other high
    have different : other ≠ addr := by
      rintro rfl
      exact (blocks.allocated other).mpr member (blocks.beyond other high)
    change Function.update db.nodes addr _ other = none
    rw [Function.update_of_ne different]
    exact blocks.beyond other high
  laid := by
    intro other inside
    rw [node_modifyNode ((blocks.allocated addr).mpr member)]
    split
    · exact laid
    · exact blocks.laid other inside
  tracked := by
    change db.trackedBytes = _
    rw [blocks.tracked]
    congr 1
    refine List.map_congr_left ?_
    intro other _
    rw [node_modifyNode ((blocks.allocated addr).mpr member)]
    split
    case isTrue same => rw [same, size]
    case isFalse => rfl

theorem Blocks.place {node : Node} (blocks : Blocks db live) (laid : node.Laid) :
    Blocks (db.place node) (db.freshAddr :: live) where
  nodup := List.nodup_cons.mpr ⟨blocks.freshAddr_notMem, blocks.nodup⟩
  allocated := by
    intro other
    change Function.update db.nodes db.freshAddr (some node) other ≠ none <-> _
    by_cases same : other = db.freshAddr
    · rw [same, Function.update_self]
      simp
    · rw [Function.update_of_ne same, blocks.allocated, List.mem_cons]
      simp [same]
  free_lt := by
    intro other free
    have low := blocks.free_lt other (List.mem_of_mem_tail free)
    change other < if db.free.isEmpty then db.top + 1 else db.top
    split
    · exact Nat.lt_succ_of_lt low
    · exact low
  free_nodup := blocks.free_nodup.sublist (List.tail_sublist _)
  free_none := by
    intro other free
    have different : other ≠ db.freshAddr := by
      have distinct := blocks.free_nodup
      unfold freshAddr
      change other ∈ db.free.tail at free
      cases list : db.free with
      | nil => simp [list] at free
      | cons first rest =>
          rw [list, List.nodup_cons] at distinct
          rw [list] at free
          rintro rfl
          exact distinct.1 free
    change Function.update db.nodes db.freshAddr _ other = none
    rw [Function.update_of_ne different]
    exact blocks.free_none other (List.mem_of_mem_tail free)
  beyond := by
    intro other high
    change (if db.free.isEmpty then db.top + 1 else db.top) ≤ other at high
    have bounds : db.top ≤ other ∧ other ≠ db.freshAddr := by
      unfold freshAddr
      cases list : db.free with
      | nil =>
          simp only [list, List.isEmpty_nil, if_true] at high
          exact ⟨Nat.le_of_succ_le high, Nat.ne_of_gt high⟩
      | cons first rest =>
          have low := blocks.free_lt first (by rw [list]; exact List.mem_cons_self)
          simp only [list, List.isEmpty_cons, Bool.false_eq_true, if_false] at high
          exact ⟨high, Nat.ne_of_gt (Nat.lt_of_lt_of_le low high)⟩
    change Function.update db.nodes db.freshAddr _ other = none
    rw [Function.update_of_ne bounds.2]
    exact blocks.beyond other bounds.1
  laid := by
    intro other inside
    rw [node_place]
    split
    · exact laid
    case isFalse different =>
      exact blocks.laid other ((List.mem_cons.mp inside).resolve_left different)
  tracked := by
    have others : live.map (fun other => ((db.place node).node other).blockSize) =
        live.map (fun other => (db.node other).blockSize) := by
      refine List.map_congr_left ?_
      intro other inside
      rw [node_place, if_neg]
      rintro rfl
      exact blocks.freshAddr_notMem inside
    rw [List.map_cons, List.sum_cons, others, node_place, if_pos rfl, <- blocks.tracked]
    exact Nat.add_comm ..

theorem Blocks.destroy (blocks : Blocks db (addr :: live)) : Blocks (db.destroy addr) live where
  nodup := (List.nodup_cons.mp blocks.nodup).2
  allocated := by
    intro other
    change Function.update db.nodes addr none other ≠ none <-> _
    by_cases same : other = addr
    · rw [same, Function.update_self]
      have outside := (List.nodup_cons.mp blocks.nodup).1
      simp [outside]
    · rw [Function.update_of_ne same, blocks.allocated, List.mem_cons]
      simp [same]
  free_lt := by
    intro other free
    rcases List.mem_cons.mp free with rfl | free
    · by_contra high
      exact (blocks.allocated other).mpr List.mem_cons_self
        (blocks.beyond other (Nat.not_lt.mp high))
    · exact blocks.free_lt other free
  free_nodup := by
    refine List.nodup_cons.mpr ⟨?_, blocks.free_nodup⟩
    intro free
    exact (blocks.allocated addr).mpr List.mem_cons_self (blocks.free_none addr free)
  free_none := by
    intro other free
    change Function.update db.nodes addr none other = none
    by_cases same : other = addr
    · rw [same, Function.update_self]
    · rw [Function.update_of_ne same]
      exact blocks.free_none other ((List.mem_cons.mp free).resolve_left same)
  beyond := by
    intro other high
    change Function.update db.nodes addr none other = none
    by_cases same : other = addr
    · rw [same, Function.update_self]
    · rw [Function.update_of_ne same]
      exact blocks.beyond other high
  laid := by
    intro other inside
    have different : other ≠ addr := by
      rintro rfl
      exact (List.nodup_cons.mp blocks.nodup).1 inside
    rw [node_destroy different]
    exact blocks.laid other (List.mem_cons_of_mem _ inside)
  tracked := by
    have others : live.map (fun other => ((db.destroy addr).node other).blockSize) =
        live.map (fun other => (db.node other).blockSize) := by
      refine List.map_congr_left ?_
      intro other inside
      rw [node_destroy]
      rintro rfl
      exact (List.nodup_cons.mp blocks.nodup).1 inside
    have before := blocks.tracked
    rw [List.map_cons, List.sum_cons] at before
    rw [others]
    change db.trackedBytes - (db.node addr).blockSize = _
    omega

theorem Linked.modifyNode {change : Node -> Node} (linked : Linked db order pending)
    (member : addr ∈ order ++ pending) (laid : (change (db.node addr)).Laid)
    (size : (change (db.node addr)).blockSize = (db.node addr).blockSize)
    (key : (change (db.node addr)).key = (db.node addr).key) :
    Linked (db.modifyNode addr change) order pending where
  blocks := linked.blocks.modifyNode member laid size
  table := by
    refine linked.table.transfer rfl ?_
    intro other _
    unfold Db.key
    rw [node_modifyNode ((linked.blocks.allocated addr).mpr member)]
    split
    case isTrue same => rw [same, key]
    case isFalse => rfl
  recency := linked.recency
  unlinked := linked.unlinked
  keyTotal := linked.keyTotal
  keyHint := linked.keyHint

/-- Rewriting a node within its block keeps all structures. -/
theorem Consistent.modifyNode {change : Node -> Node} (consistent : Consistent db order pending)
    (member : addr ∈ order ++ pending) (laid : (change (db.node addr)).Laid)
    (size : (change (db.node addr)).blockSize = (db.node addr).blockSize)
    (key : (change (db.node addr)).key = (db.node addr).key) :
    Consistent (db.modifyNode addr change) order pending where
  toLinked := consistent.toLinked.modifyNode member laid size key
  deadlines := consistent.deadlines.transfer rfl rfl rfl rfl

theorem Linked.place {node : Node} (linked : Linked db order pending) (laid : node.Laid) :
    Linked (db.place node) order (db.freshAddr :: pending) where
  blocks := (linked.blocks.place laid).of_perm List.perm_middle.symm
  table := by
    refine linked.table.transfer rfl ?_
    intro other member
    unfold Db.key
    rw [node_place, if_neg]
    rintro rfl
    exact linked.blocks.freshAddr_notMem (List.mem_append_left _ member)
  recency := linked.recency.clear fun member =>
    linked.blocks.freshAddr_notMem (List.mem_append_left _ member)
  unlinked := by
    intro other waiting
    change Function.update db.lru.previous db.freshAddr none other = none ∧
      Function.update db.lru.next db.freshAddr none other = none
    by_cases same : other = db.freshAddr
    · rw [same, Function.update_self, Function.update_self]
      exact ⟨rfl, rfl⟩
    · rw [Function.update_of_ne same, Function.update_of_ne same]
      exact linked.unlinked other ((List.mem_cons.mp waiting).resolve_left same)
  keyTotal := linked.keyTotal
  keyHint := linked.keyHint

theorem Consistent.deadline_outside (consistent : Consistent db order pending)
    (outside : addr ∉ order ++ pending) : db.deadline addr = none := by
  by_contra some
  exact outside (consistent.deadlines.member addr some)

theorem Consistent.place {node : Node} (consistent : Consistent db order pending)
    (laid : node.Laid) : Consistent (db.place node) order (db.freshAddr :: pending) where
  toLinked := consistent.toLinked.place laid
  deadlines :=
    { valid := consistent.deadlines.valid
      member := by
        intro other some
        exact List.perm_middle.mem_iff.mpr
          (List.mem_cons_of_mem _ (consistent.deadlines.member other some))
      flags := by
        intro other inside
        change Function.update db.ttlFlag db.freshAddr false other = true <->
          db.deadline other ≠ none
        by_cases same : other = db.freshAddr
        · rw [same, Function.update_self,
            consistent.deadline_outside consistent.blocks.freshAddr_notMem]
          simp
        · rw [Function.update_of_ne same]
          exact consistent.deadlines.flags other
            ((List.mem_cons.mp (List.perm_middle.mem_iff.mp inside)).resolve_left same)
      count := consistent.deadlines.count
      hint := consistent.deadlines.hint }

theorem Consistent.discard (consistent : Consistent db order (addr :: pending))
    (none : db.deadline addr = none) : Consistent (db.destroy addr) order pending where
  blocks := (consistent.blocks.of_perm List.perm_middle).destroy
  table := by
    refine consistent.table.transfer rfl ?_
    intro other member
    unfold Db.key
    rw [node_destroy]
    rintro rfl
    exact consistent.notMem_of_pending List.mem_cons_self member
  recency := consistent.recency
  unlinked := fun other waiting => consistent.unlinked other (List.mem_cons_of_mem _ waiting)
  keyTotal := consistent.keyTotal
  keyHint := consistent.keyHint
  deadlines :=
    { valid := consistent.deadlines.valid
      member := by
        intro other some
        have inside := consistent.deadlines.member other some
        refine (List.mem_cons.mp (List.perm_middle.mem_iff.mp inside)).resolve_left ?_
        rintro rfl
        exact some none
      flags := fun other inside => consistent.deadlines.flags other
        (List.perm_middle.mem_iff.mpr (List.mem_cons_of_mem _ inside))
      count := consistent.deadlines.count
      hint := consistent.deadlines.hint }

/-- Moving to a larger table keeps all structures. -/
theorem Consistent.rehashTo {k : Nat} (consistent : Consistent db order pending) (large : 4 ≤ k)
    (small : k ≤ 31) : Consistent (db.rehashTo (2 ^ k)) order pending where
  blocks := consistent.blocks.transfer rfl rfl rfl rfl
  table := by
    have moved := consistent.table.holds.redistribute
      (fun addr => chainOf_lt (rfl : 2 ^ k = 2 ^ k) (db.key addr))
    refine ⟨⟨k, large, small, moved.2⟩, ?_, consistent.table.keys⟩
    change Chains.Holds (fun addr => chainOf (Chains.redistribute _ (2 ^ k) db.buckets).length
      (db.key addr)) _ order
    rw [moved.2]
    exact moved.1
  recency := consistent.recency
  unlinked := consistent.unlinked
  keyTotal := consistent.keyTotal
  keyHint := consistent.keyHint
  deadlines := consistent.deadlines.transfer rfl rfl rfl rfl

end Db
end Reddish
