import Reddish.Database.Moves

namespace Reddish

open Library Numeral

/-!
# Removing due keys

Keys that nobody asks for are removed in rounds, by deadline or by age.  Where
nothing fails, these rounds come to an end by themselves.  The keys that
`remove_expired` takes are exactly the due ones, the earliest first, because
the heap knows the earliest deadline in every state.
-/

namespace Db

variable {db : Db} {space : Keyspace} {key : Bytes} {addr : Addr}

/-- The entries from the most recent one to the oldest one. -/
def entries (db : Db) : List Entry :=
  (db.lru.forward db.keyTotal).map db.entry

theorem Rep.entries (rep : Rep db [] space) : db.entries = space := by
  rcases rep with ⟨order, consistent, -, -, rfl⟩
  rw [Db.entries, consistent.keyTotal, consistent.recency.forward]

theorem Rep.short (rep : Rep db [] space) (found : db.findNode key = some addr) :
    key.length ≤ Node.maxKeyLength := by
  rcases rep with ⟨order, consistent, -, -, -⟩
  rcases consistent.findNode_some found with ⟨member, rfl⟩
  exact (consistent.blocks.laid addr (List.mem_append_left _ member)).key

end Db

/-! ## Rounds that come to an end -/

namespace Database

open World (Healthy)

variable {world : World} {space : Keyspace} {key : Bytes} {addr : Addr} {α : Type}

/-- The deletion of a key that is there can be logged. -/
theorem logDeletion_total (ready : Ready world space) (healthy : Healthy world)
    (found : world.db.findNode key = some addr) :
    (log .del [key]).wp
      (fun _ after => Healthy after ∧ Ready after space ∧ after.db = world.db)
      (fun _ _ => False) world := by
  have spec := @log_spec _ _ _ _ _ False ready.reached .del [key]
  refine Cmd.wp_mono (Cmd.wp_and spec (log_total healthy (accepted_key (ready.rep.short found))))
    ?_ (fun _ _ impossible => impossible.2)
  rintro _ after ⟨⟨reached, same, -, -⟩, healthy⟩
  exact ⟨healthy, reached.ready, same⟩

theorem reapDue_total (now : Int64) (limit : Nat) :
    forall {world : World} {space : Keyspace}, Ready world space -> Healthy world ->
      (reapDue now limit).wp (fun _ after => Healthy after) (fun _ _ => False) world := by
  induction limit with
  | zero => exact fun _ healthy => healthy
  | succ limit ih =>
      intro world space ready healthy
      unfold reapDue
      rw [Cmd.wp_bind, Cmd.wp_read]
      cases first : world.db.expiries.order.head? with
      | none => exact healthy
      | some addr =>
          rcases ready.rep.first_due first with ⟨-, -, found, -⟩
          refine Cmd.wp_ite (fun _ => healthy) fun _ => ?_
          refine Cmd.wp_step (logDeletion_total ready healthy found) ?_ (fun _ _ never => never)
          rintro _ logged ⟨healthy, ready, same⟩
          unfold modifyDb
          rw [Cmd.wp_bind, Cmd.wp_update]
          rw [<- same] at found
          have erased := ready.rep.expireNode found
          exact ih ⟨erased, ready.sound⟩ ⟨healthy.memory, healthy.log⟩

theorem evictOldest_total (target limit : Nat) :
    forall {world : World} {space : Keyspace}, Ready world space -> Healthy world ->
      (evictOldest target limit).wp (fun _ after => Healthy after) (fun _ _ => False) world := by
  induction limit with
  | zero => exact fun _ healthy => healthy
  | succ limit ih =>
      intro world space ready healthy
      unfold evictOldest
      rw [Cmd.wp_bind, Cmd.wp_read]
      refine Cmd.wp_ite (fun _ => healthy) fun _ => ?_
      cases tail : world.db.lru.tail with
      | none => exact healthy
      | some victim =>
          have found := (ready.rep.oldest.2 victim tail).1
          simp only [Cmd.wp_bind]
          refine Cmd.wp_mono (logDeletion_total ready healthy found) ?_ (fun _ _ never => never)
          rintro _ logged ⟨healthy, ready, same⟩
          unfold modifyDb
          rw [Cmd.wp_update]
          rw [<- same] at found
          have erased := ready.rep.evictNode found
          exact ih ⟨erased, ready.sound⟩ ⟨healthy.memory, healthy.log⟩

/-- A batch comes to its end if its body does. -/
theorem inWalBatch_total {body : Op α} (ready : Ready world space) (healthy : Healthy world)
    (returns : forall inside, Ready inside space -> Healthy inside ->
      body.wp (fun _ after => Healthy after) (fun _ _ => False) inside) :
    (inWalBatch body).wp (fun _ after => Healthy after) (fun _ _ => False) world := by
  have quiet : forall {body : Cmd Exn Wal Unit} {world : World}, Wal.Responds body False ->
      Healthy world -> (onWal body).wp (fun _ after => Healthy after) (fun _ _ => False) world :=
    fun responds healthy => (logFree_onWal responds).returns healthy trivial
  unfold inWalBatch beginWalBatch endWalBatch
  refine Cmd.wp_step (Cmd.wp_and (beginWalBatch_spec ready.reached)
    (quiet Wal.responds_beginBatch healthy)) ?_ (fun _ _ never => never.1.elim)
  rintro _ inside ⟨⟨reached, -, -⟩, healthy⟩
  rw [Cmd.wp_bind, Cmd.wp_handle]
  refine Cmd.wp_mono (returns inside reached.ready healthy) ?_ (fun _ _ never => never.elim)
  intro value after healthy
  rw [Cmd.wp_bind]
  exact quiet Wal.responds_endBatch healthy

theorem removeExpiredLocked_total (ready : Ready world space) (healthy : Healthy world)
    (limit : Nat) :
    (removeExpiredLocked limit).wp (fun _ after => Healthy after) (fun _ _ => False) world := by
  unfold removeExpiredLocked
  have reading : Healthy (nowMs world).2 := (@logFree_nowMs False world healthy).1
  refine Cmd.wp_step (Cmd.wp_and (nowMs_spec ready.reached)
    ((Cmd.wp_state (fun after => Healthy after)).mpr reading)) ?_ (fun _ _ never => never.1.elim)
  rintro now clocked ⟨⟨-, -, reached, -, -⟩, healthy⟩
  exact inWalBatch_total reached.ready healthy fun inside ready healthy =>
    reapDue_total now limit ready healthy

theorem removeExpired_total (ready : Ready world space) (healthy : Healthy world) (limit : Nat) :
    (removeExpired limit).wp (fun _ after => Healthy after) (fun _ _ => False) world := by
  unfold removeExpired
  rw [Cmd.wp_bind, Cmd.wp_read]
  exact Cmd.wp_onlyIf (fun _ => removeExpiredLocked_total ready healthy limit) (fun _ => healthy)

theorem evictTo_total (ready : Ready world space) (healthy : Healthy world) (target limit : Nat) :
    (evictTo target limit).wp (fun _ after => Healthy after) (fun _ _ => False) world :=
  inWalBatch_total ready healthy fun _ ready healthy => evictOldest_total target limit ready healthy

end Database

/-! ## The due keys -/

namespace Keyspace

variable {space : Keyspace} {key : Bytes} {entry : Entry} {condition : Entry -> Bool}

/-- Removing a key takes its entry away and nothing else. -/
theorem Distinct.perm_erase (distinct : Distinct space) (inside : entry ∈ space) :
    space.Perm (entry :: space.erase entry.key) := by
  unfold Distinct at distinct
  induction space with
  | nil => exact absurd inside List.not_mem_nil
  | cons head tail ih =>
      rw [List.map_cons, List.nodup_cons] at distinct
      unfold erase at ih ⊢
      rcases List.mem_cons.mp inside with rfl | later
      · rw [List.filter_cons_of_neg (by simp), List.filter_eq_self.mpr]
        intro other there
        refine decide_eq_true fun same => distinct.1 ?_
        rw [<- same]
        exact List.mem_map_of_mem there
      · have different : head.key ≠ entry.key := by
          intro same
          rw [same] at distinct
          exact distinct.1 (List.mem_map_of_mem later)
        rw [List.filter_cons_of_pos (by simpa using different)]
        exact ((ih distinct.2 later).cons head).trans (List.Perm.swap ..)

theorem Distinct.erase (distinct : Distinct space) : Distinct (space.erase key) :=
  List.Sublist.nodup (List.filter_sublist.map _) distinct

end Keyspace

namespace Spec

variable {now : Int64} {limit : Nat} {space rest : Keyspace} {keys : List Bytes}

/-- The entries whose deadline has passed. -/
def due (now : Int64) (space : List Entry) : List Entry :=
  space.filter (expired (some now))

theorem expired_iff {entry : Entry} : expired (some now) entry = true <->
    exists moment, entry.deadline = some moment ∧ moment ≤ now := by
  unfold expired
  cases entry.deadline with
  | none => simp
  | some moment => simp

theorem due_eq_nil : due now space = [] <->
    forall entry, entry ∈ space -> forall moment, entry.deadline = some moment -> now < moment := by
  unfold due
  rw [List.filter_eq_nil_iff]
  refine forall_congr' fun entry => forall_congr' fun _ => ?_
  rw [expired_iff]
  constructor
  · intro fresh moment deadline
    exact Int64.not_le.mp fun passed => fresh ⟨moment, deadline, passed⟩
  · rintro fresh ⟨moment, deadline, passed⟩
    exact Int64.not_lt.mpr passed (fresh moment deadline)

/-- What `remove_expired` has to achieve: as many keys as it may have gone,
all of them due, and the ones that are left are due no earlier. -/
structure RemovesDue (now : Int64) (limit : Nat) (space rest : List Entry) (keys : List Bytes) :
    Prop where
  distinct : keys.Nodup
  count : keys.length = min limit (due now space).length
  earliest : forall key, key ∈ keys -> exists entry moment, entry ∈ space ∧ entry.key = key ∧
    entry.deadline = some moment ∧ moment ≤ now ∧
    forall other, other ∈ rest -> forall later, other.deadline = some later -> moment ≤ later
  left : rest = space.filter fun entry => decide (entry.key ∉ keys)
  complete : (due now space).length ≤ limit -> due now rest = []

theorem RemovesDue.nothing (enough : limit = 0 ∨ due now space = []) :
    RemovesDue now limit space space [] where
  distinct := List.nodup_nil
  count := by
    rcases enough with rfl | nobody
    · rw [Nat.zero_min]
      rfl
    · rw [nobody]
      exact (Nat.min_zero limit).symm
  earliest := nofun
  left := by
    refine (List.filter_eq_self.mpr fun entry _ => ?_).symm
    exact decide_eq_true List.not_mem_nil
  complete := by
    intro few
    rcases enough with rfl | nobody
    · exact List.eq_nil_of_length_eq_zero (Nat.le_zero.mp few)
    · exact nobody

/-- One more round, for a key whose deadline is the earliest. -/
theorem RemovesDue.round {key : Bytes} {entry : Entry} {moment : Int64}
    (distinct : space.Distinct) (found : space.find key = some entry)
    (deadline : entry.deadline = some moment) (passed : moment ≤ now)
    (first : forall other, other ∈ space -> forall later, other.deadline = some later ->
      moment ≤ later)
    (removes : RemovesDue now limit (space.erase key) rest keys) :
    RemovesDue now (limit + 1) space rest (key :: keys) := by
  rcases distinct.find_iff.mp found with ⟨inside, rfl⟩
  have fewer : (due now space).length = (due now (space.erase entry.key)).length + 1 := by
    have perm := (distinct.perm_erase inside).filter (expired (some now))
    rw [List.filter_cons_of_pos (expired_iff.mpr ⟨moment, deadline, passed⟩)] at perm
    exact perm.length_eq
  have sub : forall other, other ∈ rest -> other ∈ space := by
    intro other there
    rw [removes.left] at there
    exact List.mem_of_mem_filter (List.mem_of_mem_filter there)
  refine ⟨List.nodup_cons.mpr ⟨?_, removes.distinct⟩, ?_, ?_, ?_, ?_⟩
  · intro again
    rcases removes.earliest _ again with ⟨other, -, there, same, -, -, -⟩
    have different := List.of_mem_filter there
    rw [same] at different
    simp at different
  · rw [List.length_cons, removes.count, fewer, Nat.add_min_add_right]
  · intro other listed
    rcases List.mem_cons.mp listed with rfl | listed
    · exact ⟨entry, moment, inside, rfl, deadline, passed, fun other there =>
        first other (sub other there)⟩
    · rcases removes.earliest other listed with ⟨removed, instant, there, isKey, isInstant, due, least⟩
      exact ⟨removed, instant, List.mem_of_mem_filter there, isKey, isInstant, due, least⟩
  · rw [removes.left, Keyspace.erase, List.filter_filter]
    refine List.filter_congr fun other _ => ?_
    simp only [List.mem_cons, not_or, Bool.decide_and, Bool.and_comm]
  · intro few
    exact removes.complete (by omega)

theorem Reaps.removesDue (reaps : Reaps now limit space keys rest) (distinct : space.Distinct) :
    RemovesDue now limit space rest keys := by
  induction reaps with
  | full space => exact RemovesDue.nothing (Or.inl rfl)
  | done limit space later => exact RemovesDue.nothing (Or.inr (due_eq_nil.mpr later))
  | next found deadline passed earliest more ih =>
      exact (ih distinct.erase).round distinct found deadline passed earliest

end Spec

/-! ## The heap -/

namespace Db

/-- What may happen to nodes and to their deadlines.  Scheduling covers keys
with and without a deadline, earlier and later ones. -/
inductive Reworked (db : Db) : Db -> Prop where
  | schedule (addr : Addr) (deadline : Int64) (live : addr ∈ db.buckets.flatten) :
      Reworked db (db.setDeadline addr deadline)
  | clear (addr : Addr) : Reworked db (db.clearExpiry addr)
  | grow (addr : Addr) (capacity : Nat) (garbage : Nat -> UInt8) (live : addr ∈ db.buckets.flatten)
      (fits : (Node.blockLayout (db.key addr).length capacity).2 < 2 ^ 32) :
      Reworked db (db.regrow addr capacity garbage)
  | replace (addr : Addr) (node : Node) (keepTtl : Bool) (live : addr ∈ db.buckets.flatten)
      (laid : node.Laid) (same : node.key = db.key addr) :
      Reworked db ((db.place node).commitNode (some addr) db.freshAddr keepTtl)
  | create (node : Node) (laid : node.Laid) (absent : db.findNode node.key = none) :
      Reworked db ((db.place node).commitNode none db.freshAddr false)
  | erase (addr : Addr) (live : addr ∈ db.buckets.flatten) : Reworked db (db.eraseNode addr)

variable {db later : Db} {order : List Addr} {addr : Addr} {node : Node}

theorem key_place (linked : Linked db order []) (member : addr ∈ order) :
    (db.place node).key addr = db.key addr := by
  unfold Db.key
  rw [node_place, if_neg]
  rintro rfl
  exact linked.blocks.freshAddr_notMem (List.mem_append_left _ member)

theorem key_place_fresh : (db.place node).key db.freshAddr = node.key := by
  unfold Db.key
  rw [node_place, if_pos rfl]

theorem Consistent.reworked (consistent : Consistent db order []) (step : Reworked db later) :
    exists nodes, Consistent later nodes [] := by
  have listed : forall {addr}, addr ∈ db.buckets.flatten -> addr ∈ order :=
    consistent.table.holds.perm.mem_iff.mp
  cases step with
  | schedule addr deadline live => exact ⟨order, consistent.setDeadline (listed live)⟩
  | clear addr => exact ⟨order, consistent.clearExpiry⟩
  | grow addr capacity garbage live fits =>
      have laid := consistent.blocks.laid addr (List.mem_append_left _ (listed live))
      have grown := @Node.grown_spec _ capacity garbage laid fits
      rcases consistent.regrow (listed live) grown.1 with ⟨before, after, -, regrown, -⟩
      exact ⟨_, regrown⟩
  | replace addr node keepTtl live laid same =>
      refine ⟨_, ((consistent.place laid).replaceNode (listed live) ?_ ?_).1⟩
      · rw [key_place_fresh, key_place consistent.toLinked (listed live), same]
      · exact consistent.deadline_outside consistent.blocks.freshAddr_notMem
  | create node laid absent =>
      refine ⟨_, (consistent.place laid).enter fun other inside => ?_⟩
      rw [key_place_fresh, key_place consistent.toLinked inside]
      exact consistent.findNode_none.mp absent other inside
  | erase addr live => exact ⟨_, (consistent.eraseNode (listed live)).1⟩

theorem Consistent.reworkedOften (consistent : Consistent db order [])
    (steps : Relation.ReflTransGen Reworked db later) : exists nodes, Consistent later nodes [] := by
  induction steps with
  | refl => exact ⟨order, consistent⟩
  | tail _ step ih =>
      rcases ih with ⟨nodes, consistent⟩
      exact consistent.reworked step

end Db

namespace Database

open World (Healthy)

/-- The heap is ordered and indexed whatever happens to the nodes, one changed
position is repaired by `heap_fix`, and `remove_expired` takes exactly the due
keys, as many as it may. -/
theorem expiry_heap_exact :
    (forall world, Reachable world -> forall db,
      Relation.ReflTransGen Db.Reworked world.db db -> db.expiries.Valid) ∧
    (forall (heap : IndexedHeap Addr Int64) (index : Nat) (before : Nat -> WithBot Int64),
      heap.Coherent -> index < heap.order.length -> HeapOrder.Ordered before heap.order.length ->
      (forall i, i < heap.order.length -> i ≠ index -> heap.priorityAt i = before i) ->
      (heap.fix index).Valid ∧ heap.Rearranged (heap.fix index)) ∧
    forall world, Reachable world -> forall limit,
      (removeExpired limit).wp
        (fun _ after => exists now keys, world.Reads now ∧
          Spec.RemovesDue now limit world.db.entries after.db.entries keys ∧
          after.records =
            world.records ++ if world.logging then Spec.deletions keys else [])
        (fun _ _ => ¬ Healthy world) world := by
  refine ⟨?_, ?_, ?_⟩
  · intro world reachable db steps
    rcases reachable.idle with ⟨space, ⟨order, consistent, -⟩, -⟩
    rcases consistent.reworkedOften steps with ⟨nodes, later⟩
    exact later.deadlines.valid
  · intro heap index before coherent inside ordered same
    exact IndexedHeap.fix_spec coherent inside (ordered.except same)
  · intro world reachable limit
    rcases reachable.idle with ⟨space, ready⟩
    have exactly : forall after, Reaped world after space limit -> exists now keys,
        world.Reads now ∧ Spec.RemovesDue now limit world.db.entries after.db.entries keys ∧
          after.records = world.records ++ if world.logging then Spec.deletions keys else [] := by
      rintro after ⟨now, keys, later, reads, reaps, reached⟩
      refine ⟨now, keys, reads, ?_, reached.logged⟩
      rw [ready.rep.entries, reached.rep.entries]
      exact reaps.removesDue ready.rep.distinct
    by_cases healthy : Healthy world
    · exact Cmd.wp_mono (Cmd.wp_and (removeExpired_spec ready limit)
        (removeExpired_total ready healthy limit)) (fun _ after reaped => exactly after reaped.1)
        (fun _ _ never => never.2.elim)
    · exact Cmd.wp_mono (removeExpired_spec ready limit) (fun _ => exactly) (fun _ _ _ => healthy)

def reaped : World :=
  (removeExpired 9 timed).2

/-- A deadline before the others, the first deadline put off beyond the second one,
and the removal of the one key that is due. -/
theorem expiry_heap_exact_timed :
    timed.db.expiries.order = [1, 0] ∧
      ((timed.db.setDeadline 2 500).expiries.order = [2, 0, 1] ∧
        (timed.db.setDeadline 2 500).expiries.Valid) ∧
      (((timed.db.expiries.assign 1 9999).fix 0).order = [0, 1] ∧
        ((timed.db.expiries.assign 1 9999).fix 0).Valid) ∧
      exists keys, keys.length = 1 ∧
        Spec.RemovesDue 5000 9 timed.db.entries reaped.db.entries keys := by
  have live : 2 ∈ timed.db.buckets.flatten := by decide +kernel
  have valid := expiry_heap_exact.1 timed reachable_timed _ .refl
  have removes := expiry_heap_exact.2.2 timed reachable_timed 9
  have returned : (removeExpired 9 timed).1 = .ok () := by decide +kernel
  rcases Cmd.of_wp_ok removes (Prod.ext returned rfl) with ⟨now, keys, ⟨n, rfl⟩, taken, -⟩
  rw [steady_timed] at taken
  refine ⟨by decide +kernel, ⟨by decide +kernel, ?_⟩, ⟨by decide +kernel, ?_⟩, keys, ?_, taken⟩
  · exact expiry_heap_exact.1 timed reachable_timed _
      (Relation.ReflTransGen.single (.schedule 2 500 live))
  · refine (expiry_heap_exact.2.1 _ 0 timed.db.expiries.priorityAt valid.coherent.assign
      (by decide +kernel) valid.ordered ?_).1
    decide +kernel
  · rw [taken.count]
    decide +kernel

end Database

end Reddish
