import Reddish.Database.Invariant

namespace Reddish
namespace Db

open Library Numeral

/-!
# Entering, erasing and moving nodes

The operations that change several structures at once.  Each lemma says which
nodes are in the keyspace afterwards and what happened to the deadlines; that
the structures agree again is part of every conclusion.
-/

variable {db : Db} {order pending nodes : List Addr} {addr other old new : Addr}

/-! ## Deadlines -/

theorem Deadlines.clearExpiry (deadlines : Deadlines db nodes) :
    Deadlines (db.clearExpiry addr) nodes ∧
      (db.clearExpiry addr).deadline = Function.update db.deadline addr none := by
  unfold Db.clearExpiry
  split
  case isTrue absent =>
    refine ⟨deadlines, ?_⟩
    have none : db.deadline addr = none := by
      simpa [Db.deadline, IndexedHeap.priority] using absent
    rw [<- none, Function.update_eq_self]
  case isFalse present =>
    have known : db.expiries.priority addr ≠ none := by
      simpa [IndexedHeap.priority] using present
    rcases IndexedHeap.remove_spec deadlines.valid known with ⟨valid, priority, length⟩
    refine ⟨⟨valid, ?_, ?_, rfl, rfl⟩, priority⟩
    · intro other some
      change (db.expiries.remove addr).priority other ≠ none at some
      rw [priority] at some
      by_cases same : other = addr
      · rw [same, Function.update_self] at some
        exact absurd rfl some
      · rw [Function.update_of_ne same] at some
        exact deadlines.member other some
    · intro other inside
      change Function.update db.ttlFlag addr false other = true <->
        (db.expiries.remove addr).priority other ≠ none
      rw [priority]
      by_cases same : other = addr
      · rw [same, Function.update_self, Function.update_self]
        simp
      · rw [Function.update_of_ne same, Function.update_of_ne same]
        exact deadlines.flags other inside

theorem Deadlines.setDeadline {deadline : Int64} (deadlines : Deadlines db nodes)
    (member : addr ∈ nodes) :
    Deadlines (db.setDeadline addr deadline) nodes ∧
      (db.setDeadline addr deadline).deadline =
        Function.update db.deadline addr (some deadline) := by
  have result : (db.setDeadline addr deadline).expiries.Valid ∧
      (db.setDeadline addr deadline).deadline =
        Function.update db.deadline addr (some deadline) ∧
      (db.setDeadline addr deadline).expiries.order.length ≠ 0 := by
    unfold Db.setDeadline Db.deadline
    cases stored : db.expiries.entries addr with
    | none =>
        have absent : db.expiries.priority addr = none := by
          simp [IndexedHeap.priority, stored]
        rcases IndexedHeap.insert_spec deadlines.valid absent deadline with
          ⟨valid, priority, length⟩
        exact ⟨valid, priority, by simp only; omega⟩
    | some slot =>
        rcases IndexedHeap.assign_spec deadlines.valid stored deadline with
          ⟨valid, priority, length⟩
        have listed := deadlines.valid.coherent.listed addr slot stored
        have inside := (List.getElem?_eq_some_iff.mp listed).1
        exact ⟨valid, priority, by simp only; omega⟩
  rcases result with ⟨valid, priority, nonempty⟩
  refine ⟨⟨valid, ?_, ?_, rfl, ?_⟩, priority⟩
  · intro other some
    rw [priority] at some
    by_cases same : other = addr
    · rw [same]
      exact member
    · rw [Function.update_of_ne same] at some
      exact deadlines.member other some
  · intro other inside
    rw [priority]
    change Function.update db.ttlFlag addr true other = true <-> _
    by_cases same : other = addr
    · rw [same, Function.update_self, Function.update_self]
      simp
    · rw [Function.update_of_ne same, Function.update_of_ne same]
      exact deadlines.flags other inside
  · change true = _
    rw [decide_eq_true nonempty]

/-- A deadline changes its owner; the old one is not accounted for any more. -/
theorem Deadlines.moveDeadline {others : List Addr} (deadlines : Deadlines db nodes)
    (isOld : old ∈ nodes) (isNew : new ∈ nodes) (free : db.deadline new = none)
    (rest : forall addr, addr ∈ others <-> addr ∈ nodes ∧ addr ≠ old) (apart : new ≠ old) :
    Deadlines (db.moveDeadline old new) others ∧
      (db.moveDeadline old new).deadline =
        Function.update (Function.update db.deadline old none) new (db.deadline old) := by
  unfold Db.moveDeadline
  by_cases flag : db.ttlFlag old = true
  · rw [if_pos flag]
    rcases IndexedHeap.rename_spec deadlines.valid ((deadlines.flags old isOld).mp flag) free with
      ⟨valid, priority, length⟩
    refine ⟨⟨valid, ?_, ?_, ?_, ?_⟩, priority⟩
    · intro other some
      change (db.expiries.rename old new).priority other ≠ none at some
      rw [priority] at some
      rw [rest]
      by_cases same : other = new
      · rw [same]
        exact ⟨isNew, apart⟩
      · rw [Function.update_of_ne same] at some
        by_cases gone : other = old
        · rw [gone, Function.update_self] at some
          exact absurd rfl some
        · rw [Function.update_of_ne gone] at some
          exact ⟨deadlines.member other some, gone⟩
    · intro other inside
      change Function.update db.ttlFlag new true other = true <->
        (db.expiries.rename old new).priority other ≠ none
      rw [priority]
      have known := (rest other).mp inside
      by_cases same : other = new
      · rw [same, Function.update_self, Function.update_self]
        exact ⟨fun _ => (deadlines.flags old isOld).mp flag, fun _ => rfl⟩
      · rw [Function.update_of_ne same, Function.update_of_ne same, Function.update_of_ne known.2]
        exact deadlines.flags other known.1
    · exact deadlines.count.trans length.symm
    · change db.ttlHint = _
      rw [length]
      exact deadlines.hint
  · rw [if_neg flag]
    have none : db.deadline old = none := by
      by_contra some
      exact flag ((deadlines.flags old isOld).mpr some)
    refine ⟨⟨deadlines.valid, ?_, ?_, deadlines.count, deadlines.hint⟩, ?_⟩
    · intro other some
      refine (rest other).mpr ⟨deadlines.member other some, ?_⟩
      rintro rfl
      exact some none
    · intro other inside
      exact deadlines.flags other ((rest other).mp inside).1
    · have same : Function.update db.deadline old Option.none = db.deadline := by
        rw [<- none, Function.update_eq_self]
      rw [same, none, <- free, Function.update_eq_self]

theorem clearExpiry_frame : (db.clearExpiry addr).nodes = db.nodes ∧
    (db.clearExpiry addr).free = db.free ∧ (db.clearExpiry addr).top = db.top ∧
    (db.clearExpiry addr).trackedBytes = db.trackedBytes ∧
    (db.clearExpiry addr).buckets = db.buckets ∧ (db.clearExpiry addr).lru = db.lru ∧
    (db.clearExpiry addr).keyTotal = db.keyTotal ∧ (db.clearExpiry addr).keyHint = db.keyHint := by
  unfold Db.clearExpiry
  split
  · exact ⟨rfl, rfl, rfl, rfl, rfl, rfl, rfl, rfl⟩
  · exact ⟨rfl, rfl, rfl, rfl, rfl, rfl, rfl, rfl⟩

theorem moveDeadline_frame : (db.moveDeadline old new).nodes = db.nodes ∧
    (db.moveDeadline old new).free = db.free ∧ (db.moveDeadline old new).top = db.top ∧
    (db.moveDeadline old new).trackedBytes = db.trackedBytes ∧
    (db.moveDeadline old new).buckets = db.buckets ∧ (db.moveDeadline old new).lru = db.lru ∧
    (db.moveDeadline old new).keyTotal = db.keyTotal ∧
    (db.moveDeadline old new).keyHint = db.keyHint := by
  unfold Db.moveDeadline
  split
  · exact ⟨rfl, rfl, rfl, rfl, rfl, rfl, rfl, rfl⟩
  · exact ⟨rfl, rfl, rfl, rfl, rfl, rfl, rfl, rfl⟩

theorem Linked.clearExpiry (linked : Linked db order pending) :
    Linked (db.clearExpiry addr) order pending := by
  rcases @clearExpiry_frame db addr with ⟨nodes, free, top, tracked, buckets, lru, total, hint⟩
  exact linked.transfer nodes free top tracked buckets lru total hint

theorem Linked.moveDeadline (linked : Linked db order pending) :
    Linked (db.moveDeadline old new) order pending := by
  rcases @moveDeadline_frame db old new with
    ⟨nodes, free, top, tracked, buckets, lru, total, hint⟩
  exact linked.transfer nodes free top tracked buckets lru total hint

theorem Consistent.clearExpiry (consistent : Consistent db order pending) :
    Consistent (db.clearExpiry addr) order pending where
  toLinked := consistent.toLinked.clearExpiry
  deadlines := consistent.deadlines.clearExpiry.1

theorem Consistent.setDeadline {deadline : Int64} (consistent : Consistent db order pending)
    (member : addr ∈ order) : Consistent (db.setDeadline addr deadline) order pending where
  toLinked := consistent.toLinked.transfer rfl rfl rfl rfl rfl rfl rfl rfl
  deadlines := (consistent.deadlines.setDeadline (List.mem_append_left _ member)).1

/-! ## Erasing -/

theorem node_detach (different : other ≠ addr) : (db.detach addr).node other = db.node other :=
  node_destroy different

theorem perm_erase (member : addr ∈ order) :
    (order ++ pending).Perm (addr :: (order.erase addr ++ pending)) :=
  (List.perm_cons_erase member).append_right pending

theorem Linked.detach (linked : Linked db order pending) (member : addr ∈ order) :
    Linked (db.detach addr) (order.erase addr) pending where
  blocks := by
    have blocks := linked.blocks.of_perm (perm_erase member)
    exact (blocks.transfer rfl rfl rfl rfl : Blocks
      { (db.unlinkLru addr).unlink addr with
        keyTotal := db.keyTotal - 1, keyHint := db.keyTotal - 1 } _).destroy
  table := by
    have keys : forall other, other ∈ order.erase addr ->
        (db.detach addr).key other = db.key other := by
      intro other inside
      unfold Db.key
      rw [node_detach]
      rintro rfl
      exact linked.nodup.not_mem_erase inside
    exact (linked.table.unlink member).transfer rfl keys
  recency := by
    rcases split_of_mem linked.nodup member with ⟨before, after, rfl, erased, -⟩
    rw [erased]
    exact linked.recency.unlink
  unlinked := by
    intro other waiting
    rcases split_of_mem linked.nodup member with ⟨before, after, rfl, -, -⟩
    have kept := linked.recency.unlink_outside (linked.notMem_of_pending waiting)
    have before := linked.unlinked other waiting
    exact ⟨kept.1.trans before.1, kept.2.trans before.2⟩
  keyTotal := by
    change db.keyTotal - 1 = _
    rw [linked.keyTotal, List.length_erase_of_mem member]
  keyHint := rfl

/-- `erase_node` removes the node from every structure. -/
theorem Linked.eraseNode (linked : Linked db order pending) (member : addr ∈ order)
    (deadlines : Deadlines db nodes)
    (rest : forall other, other ∈ order.erase addr ++ pending <-> other ∈ nodes ∧ other ≠ addr) :
    Consistent (db.eraseNode addr) (order.erase addr) pending ∧
      (db.eraseNode addr).deadline = Function.update db.deadline addr none ∧
      forall other, other ≠ addr -> (db.eraseNode addr).node other = db.node other := by
  have cleared := @Deadlines.clearExpiry db nodes addr deadlines
  have gone : (db.clearExpiry addr).deadline addr = none := by
    rw [cleared.2, Function.update_self]
  refine ⟨⟨linked.clearExpiry.detach member, ⟨cleared.1.valid, ?_, ?_, cleared.1.count,
    cleared.1.hint⟩⟩, cleared.2, ?_⟩
  · intro other some
    refine (rest other).mpr ⟨cleared.1.member other some, ?_⟩
    rintro rfl
    exact some gone
  · intro other inside
    exact cleared.1.flags other ((rest other).mp inside).1
  · intro other different
    unfold Db.eraseNode
    rw [node_detach different]
    unfold Db.node
    rw [clearExpiry_frame.1]

theorem mem_erase_append (linked : Linked db order pending) (member : addr ∈ order) (other : Addr) :
    other ∈ order.erase addr ++ pending <-> other ∈ order ++ pending ∧ other ≠ addr := by
  have distinct := linked.blocks.nodup
  rw [(perm_erase member).nodup_iff, List.nodup_cons] at distinct
  rw [(perm_erase member).mem_iff, List.mem_cons]
  constructor
  · intro inside
    refine ⟨Or.inr inside, ?_⟩
    rintro rfl
    exact distinct.1 inside
  · rintro ⟨same | inside, different⟩
    · exact absurd same different
    · exact inside

theorem Consistent.eraseNode (consistent : Consistent db order pending) (member : addr ∈ order) :
    Consistent (db.eraseNode addr) (order.erase addr) pending ∧
      (db.eraseNode addr).deadline = Function.update db.deadline addr none ∧
      forall other, other ≠ addr -> (db.eraseNode addr).node other = db.node other :=
  consistent.toLinked.eraseNode member consistent.deadlines
    (mem_erase_append consistent.toLinked member)

/-! ## Entering -/

theorem Linked.enter (linked : Linked db order (addr :: pending))
    (fresh : forall other, other ∈ order -> db.key other ≠ db.key addr) :
    Linked (db.enter addr) (addr :: order) pending where
  blocks := (linked.blocks.of_perm List.perm_middle).transfer rfl rfl rfl rfl
  table := (linked.table.link fresh).transfer rfl fun _ _ => rfl
  recency := (represents_touchLinks_fresh linked.recency
    (linked.notMem_of_pending List.mem_cons_self) (linked.unlinked addr List.mem_cons_self)).1
  unlinked := by
    intro other waiting
    have distinct := (List.nodup_cons.mp (List.nodup_append.mp linked.blocks.nodup).2.1).1
    have kept := (represents_touchLinks_fresh linked.recency
      (linked.notMem_of_pending List.mem_cons_self) (linked.unlinked addr List.mem_cons_self)).2
      other (linked.notMem_of_pending (List.mem_cons_of_mem _ waiting))
      (by rintro rfl; exact distinct waiting)
    have before := linked.unlinked other (List.mem_cons_of_mem _ waiting)
    exact ⟨kept.1.trans before.1, kept.2.trans before.2⟩
  keyTotal := by
    change db.keyTotal + 1 = _
    rw [linked.keyTotal, List.length_cons]
  keyHint := rfl

/-- A pending node with a new key is entered in front. -/
theorem Consistent.enter (consistent : Consistent db order (addr :: pending))
    (fresh : forall other, other ∈ order -> db.key other ≠ db.key addr) :
    Consistent (db.enter addr) (addr :: order) pending where
  toLinked := consistent.toLinked.enter fresh
  deadlines := (consistent.deadlines.congr fun _ => List.perm_middle.mem_iff).transfer
    rfl rfl rfl rfl

/-- `commit_node` with an old node: the new one takes over its key and, if
asked to, its deadline. -/
theorem Consistent.replaceNode {keepTtl : Bool} (consistent : Consistent db order (new :: pending))
    (member : old ∈ order) (key : db.key new = db.key old) (free : db.deadline new = none) :
    Consistent (db.commitNode (some old) new keepTtl) (new :: order.erase old) pending ∧
      (db.commitNode (some old) new keepTtl).deadline =
        Function.update (Function.update db.deadline old none) new
          (if keepTtl then db.deadline old else none) ∧
      forall other, other ≠ old ->
        (db.commitNode (some old) new keepTtl).node other = db.node other := by
  have apart : new ≠ old := by
    rintro rfl
    exact consistent.notMem_of_pending List.mem_cons_self member
  have rest := mem_erase_append consistent.toLinked member
  have moved : exists nodes,
      Linked (if keepTtl then db.moveDeadline old new else db) order (new :: pending) ∧
      Deadlines (if keepTtl then db.moveDeadline old new else db) nodes ∧
      (forall other, other ∈ order.erase old ++ new :: pending <-> other ∈ nodes ∧ other ≠ old) ∧
      Function.update (if keepTtl then db.moveDeadline old new else db).deadline old none =
        Function.update (Function.update db.deadline old none) new
          (if keepTtl then db.deadline old else none) ∧
      (if keepTtl then db.moveDeadline old new else db).nodes = db.nodes := by
    cases keepTtl with
    | false =>
        refine ⟨_, consistent.toLinked, consistent.deadlines, rest, ?_, rfl⟩
        simp only [Bool.false_eq_true, if_false]
        exact (Function.update_eq_self_iff.mpr
          (by rw [Function.update_of_ne apart, free])).symm
    | true =>
        have result := consistent.deadlines.moveDeadline (List.mem_append_left _ member)
          (List.mem_append_right _ List.mem_cons_self) free rest apart
        refine ⟨_, consistent.toLinked.moveDeadline, result.1, ?_, ?_, moveDeadline_frame.1⟩
        · intro other
          constructor
          · intro inside
            exact ⟨inside, ((rest other).mp inside).2⟩
          · exact fun both => both.1
        · simp only [if_true]
          rw [result.2, Function.update_comm apart, Function.update_idem]
  rcases moved with ⟨nodes, linked, deadlines, remaining, deadline, same⟩
  rcases linked.eraseNode member deadlines remaining with ⟨erased, erasedDeadline, erasedNode⟩
  have nodeEq : forall other, other ≠ old ->
      ((if keepTtl then db.moveDeadline old new else db).eraseNode old).node other =
        db.node other := by
    intro other different
    rw [erasedNode other different]
    unfold Db.node
    rw [same]
  refine ⟨erased.enter ?_, erasedDeadline.trans deadline, nodeEq⟩
  intro other inside equal
  have different : other ≠ old := by
    rintro rfl
    exact consistent.nodup.not_mem_erase inside
  unfold Db.key at equal
  rw [nodeEq other different, nodeEq new apart] at equal
  exact different (consistent.key_injective (List.mem_of_mem_erase inside) member
    (equal.trans key))

/-! ## Growing -/

/-- The steps of `grow_node` between taking the new block and returning the
old one. -/
def relink (old new : Addr) (db : Db) : Db :=
  let db := { db with lru := db.lru.replace old new }
  let db := db.moveDeadline old new
  { db with buckets := Chains.replace (chainOf db.buckets.length (db.key new)) old new db.buckets }

theorem regrow_eq {capacity : Nat} {garbage : Nat -> UInt8} :
    db.regrow addr capacity garbage =
      ((db.place ((db.node addr).grown capacity garbage)).relink addr db.freshAddr).destroy addr :=
  rfl

theorem relink_frame : (db.relink old new).nodes = db.nodes ∧
    (db.relink old new).free = db.free ∧ (db.relink old new).top = db.top ∧
    (db.relink old new).trackedBytes = db.trackedBytes ∧
    (db.relink old new).lru = db.lru.replace old new ∧
    (db.relink old new).keyTotal = db.keyTotal ∧ (db.relink old new).keyHint = db.keyHint ∧
    (db.relink old new).buckets =
      Chains.replace (chainOf db.buckets.length (db.key new)) old new db.buckets := by
  rcases @moveDeadline_frame { db with lru := db.lru.replace old new } old new with
    ⟨nodes, free, top, tracked, buckets, lru, total, hint⟩
  refine ⟨nodes, free, top, tracked, lru, total, hint, ?_⟩
  unfold relink Db.key Db.node
  simp only
  rw [buckets, nodes]

theorem perm_relink {before after : List Addr} : (before ++ old :: after ++ new :: pending).Perm
    (old :: (before ++ new :: after ++ pending)) := by
  rw [List.perm_iff_count]
  intro addr
  simp only [List.count_append, List.count_cons]
  omega

theorem mem_relink {before after : List Addr} {other : Addr}
    (distinct : (before ++ old :: after ++ new :: pending).Nodup) :
    other ∈ before ++ new :: after ++ pending <->
      other ∈ before ++ old :: after ++ new :: pending ∧ other ≠ old := by
  rw [perm_relink.mem_iff, List.mem_cons]
  constructor
  · intro inside
    refine ⟨Or.inr inside, ?_⟩
    rintro rfl
    exact (List.nodup_cons.mp (perm_relink.nodup_iff.mp distinct)).1 inside
  · rintro ⟨same | inside, different⟩
    · exact absurd same different
    · exact inside

theorem node_relink {other : Addr} (different : other ≠ old) :
    ((db.relink old new).destroy old).node other = db.node other := by
  rw [node_destroy different]
  unfold Db.node
  rw [(@relink_frame db old new).1]

/-- The chain that had the old block has the new one. -/
theorem Consistent.table_relink {before after : List Addr}
    (consistent : Consistent db (before ++ old :: after) (new :: pending))
    (key : db.key new = db.key old) :
    Table ((db.relink old new).destroy old) (before ++ new :: after) := by
  have member : old ∈ before ++ old :: after := by simp
  have buckets : ((db.relink old new).destroy old).buckets =
      Chains.replace (chainOf db.buckets.length (db.key new)) old new db.buckets :=
    (@relink_frame db old new).2.2.2.2.2.2.2
  have keyEq : forall other, other ∈ before ++ new :: after ->
      ((db.relink old new).destroy old).key other = db.key other := by
    intro other inside
    unfold Db.key
    rw [node_relink ((mem_relink consistent.blocks.nodup).mp (List.mem_append_left _ inside)).2]
  have length : ((db.relink old new).destroy old).buckets.length = db.buckets.length := by
    rw [buckets, Chains.length_replace]
  refine ⟨?_, ?_, ?_⟩
  · rw [length]
    exact consistent.table.size
  · rw [length, buckets, key]
    have replaced := consistent.table.holds.replace consistent.nodup member
      (show chainOf db.buckets.length (db.key new) = chainOf db.buckets.length (db.key old) by
        rw [key])
    have same : (new :: (before ++ old :: after).erase old).Perm (before ++ new :: after) := by
      have notBefore : old ∉ before := fun inside =>
        (List.nodup_append.mp consistent.nodup).2.2 old inside old List.mem_cons_self rfl
      rw [List.erase_append_right _ notBefore, List.erase_cons_head]
      exact List.perm_middle.symm
    exact (replaced.of_perm same).congr fun other inside => by rw [keyEq other inside]
  · rw [List.map_congr_left keyEq]
    have keys := consistent.table.keys
    rw [List.map_append, List.map_cons] at keys ⊢
    rw [key]
    exact keys

/-- A pending block takes the place of another one everywhere: in the chain of
its key, in the recency list and in the heap. -/
theorem Consistent.relink {before after : List Addr}
    (consistent : Consistent db (before ++ old :: after) (new :: pending))
    (key : db.key new = db.key old) (free : db.deadline new = none) :
    Consistent ((db.relink old new).destroy old) (before ++ new :: after) pending ∧
      ((db.relink old new).destroy old).deadline =
        Function.update (Function.update db.deadline old none) new (db.deadline old) ∧
      forall other, other ≠ old ->
        ((db.relink old new).destroy old).node other = db.node other := by
  have member : old ∈ before ++ old :: after := by simp
  have outside := consistent.notMem_of_pending List.mem_cons_self
  have apart : new ≠ old := by
    rintro rfl
    exact outside member
  rcases @relink_frame db old new with ⟨nodes, free', top, tracked, lru, total, hint, -⟩
  have same : Deadlines { db with lru := db.lru.replace old new } _ :=
    consistent.deadlines.transfer rfl rfl rfl rfl
  have moved := same.moveDeadline (List.mem_append_left _ member)
    (List.mem_append_right _ List.mem_cons_self) free
    (fun other => mem_relink consistent.blocks.nodup) apart
  refine ⟨⟨⟨?_, consistent.table_relink key, ?_, ?_, ?_, ?_⟩, ?_⟩, ?_, fun _ => node_relink⟩
  · have blocks := (consistent.blocks.of_perm perm_relink).transfer nodes free' top tracked
    exact blocks.destroy
  · change (db.relink old new).lru.Represents _
    rw [lru]
    exact consistent.recency.replace outside
  · intro other waiting
    have notOld := consistent.notMem_of_pending (List.mem_cons_of_mem _ waiting)
    have notNew : other ≠ new := by
      rintro rfl
      exact (List.nodup_cons.mp (List.nodup_append.mp consistent.blocks.nodup).2.1).1 waiting
    have kept := consistent.recency.replace_outside notOld notNew
    have before := consistent.unlinked other (List.mem_cons_of_mem _ waiting)
    change (db.relink old new).lru.previous other = none ∧
      (db.relink old new).lru.next other = none
    rw [lru]
    exact ⟨kept.1.trans before.1, kept.2.trans before.2⟩
  · change (db.relink old new).keyTotal = _
    rw [total, consistent.keyTotal]
    simp
  · change (db.relink old new).keyHint = (db.relink old new).keyTotal
    rw [total, hint]
    exact consistent.keyHint
  · exact moved.1.transfer rfl rfl rfl rfl
  · exact moved.2

/-- `grow_node` puts a node with the same key and a larger body in the place of
the old one. -/
theorem Consistent.regrow {capacity : Nat} {garbage : Nat -> UInt8}
    (consistent : Consistent db order pending) (member : addr ∈ order)
    (laid : ((db.node addr).grown capacity garbage).Laid) :
    exists before after, order = before ++ addr :: after ∧
      Consistent (db.regrow addr capacity garbage) (before ++ db.freshAddr :: after) pending ∧
      (db.regrow addr capacity garbage).deadline =
        Function.update (Function.update db.deadline addr none) db.freshAddr (db.deadline addr) ∧
      (db.regrow addr capacity garbage).node db.freshAddr =
        (db.node addr).grown capacity garbage ∧
      forall other, other ≠ addr -> other ≠ db.freshAddr ->
        (db.regrow addr capacity garbage).node other = db.node other := by
  rcases split_of_mem consistent.nodup member with ⟨before, after, rfl, -, -⟩
  have notLive := consistent.blocks.freshAddr_notMem
  have apart : addr ≠ db.freshAddr := by
    intro equal
    exact notLive (List.mem_append_left _ (equal ▸ member))
  have placed := consistent.place laid
  have key : (db.place ((db.node addr).grown capacity garbage)).key db.freshAddr =
      (db.place ((db.node addr).grown capacity garbage)).key addr := by
    unfold Db.key
    rw [node_place, if_pos rfl, node_place, if_neg apart]
    rfl
  have free : (db.place ((db.node addr).grown capacity garbage)).deadline db.freshAddr = none :=
    consistent.deadline_outside notLive
  rcases placed.relink key free with ⟨result, deadline, others⟩
  rw [regrow_eq]
  refine ⟨before, after, rfl, result, deadline, ?_, ?_⟩
  · rw [others _ (Ne.symm apart), node_place, if_pos rfl]
  · intro other notOld notNew
    rw [others other notOld, node_place, if_neg notNew]

end Db
end Reddish
