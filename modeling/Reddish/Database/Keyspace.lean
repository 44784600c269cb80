import Reddish.Database.Content
import Reddish.Database.Primitives

namespace Reddish

open Library Numeral

/-!
# The logical keyspace

What the database is for: a finite sequence of keys with their values and
deadlines, the most recently used key first.  `Db.Rep` relates the state of the
database to such a sequence, and the lemmas of this module say what each
internal operation does to it.  Everything above this module speaks about keys
only and never about addresses of other nodes.
-/

/-- A key with its value and, if it has one, its deadline. -/
structure Entry where
  key : Bytes
  value : Stored
  deadline : Option Int64

/-- The keys from the most to the least recently used one.  This is what users
of a database can tell apart, so the operations are specified on it. -/
abbrev Keyspace := List Entry

namespace Keyspace

def find (key : Bytes) (space : Keyspace) : Option Entry :=
  space.find? (fun entry => entry.key = key)

def erase (key : Bytes) (space : Keyspace) : Keyspace :=
  space.filter (fun entry => entry.key ≠ key)

/-- Set an entry and make it the most recent one. -/
def put (entry : Entry) (space : Keyspace) : Keyspace :=
  entry :: space.erase entry.key

/-- Make a key the most recent one. -/
def touch (key : Bytes) (space : Keyspace) : Keyspace :=
  match space.find key with
  | none => space
  | some entry => space.put entry

def modify (key : Bytes) (change : Entry -> Entry) (space : Keyspace) : Keyspace :=
  space.map (fun entry => if entry.key = key then change entry else entry)

def setValue (key : Bytes) (value : Stored) (space : Keyspace) : Keyspace :=
  space.modify key (fun entry => { entry with value := value })

def setDeadline (key : Bytes) (deadline : Option Int64) (space : Keyspace) : Keyspace :=
  space.modify key (fun entry => { entry with deadline := deadline })

variable {space : Keyspace} {key probe : Bytes} {entry : Entry}

theorem key_of_find (found : space.find key = some entry) : entry.key = key := by
  simpa using List.find?_some found

theorem find_erase : (space.erase key).find probe =
    if probe = key then none else space.find probe := by
  unfold erase find
  rw [List.find?_filter]
  split
  case isTrue same =>
    subst same
    rw [List.find?_eq_none]
    intro other _
    simp
  case isFalse different =>
    congr 1
    funext other
    by_cases isProbe : other.key = probe
    · simp [isProbe, different]
    · simp [isProbe]

theorem erase_of_find_none (absent : space.find key = none) : space.erase key = space := by
  unfold find at absent
  rw [List.find?_eq_none] at absent
  unfold erase
  rw [List.filter_eq_self]
  intro entry member
  simpa using absent entry member

theorem find_put : (space.put entry).find probe =
    if probe = entry.key then some entry else space.find probe := by
  unfold put
  by_cases same : probe = entry.key
  · simp [find, same]
  · have erased := @find_erase space entry.key probe
    rw [if_neg same] at erased ⊢
    rw [<- erased]
    simp [find, Ne.symm same]

theorem find_touch : (space.touch key).find probe = space.find probe := by
  unfold touch
  cases found : space.find key with
  | none => rfl
  | some entry =>
      simp only
      rw [find_put, key_of_find found]
      split
      case isTrue same => rw [same, found]
      case isFalse => rfl

theorem find_modify {change : Entry -> Entry} (same : forall entry, (change entry).key = entry.key) :
    (space.modify key change).find probe =
      if probe = key then (space.find probe).map change else space.find probe := by
  have kept : forall entry : Entry,
      (if entry.key = key then change entry else entry).key = entry.key := by
    intro entry
    split
    · exact same entry
    · rfl
  unfold modify find
  rw [List.find?_map]
  simp only [Function.comp_def, kept]
  cases found : space.find? (fun entry => decide (entry.key = probe)) with
  | none => simp
  | some entry =>
      have isProbe : entry.key = probe := by simpa using List.find?_some found
      rw [Option.map_some, Option.map_some, isProbe]
      split
      · rfl
      · rfl

end Keyspace

namespace Db

def entry (db : Db) (addr : Addr) : Entry :=
  ⟨db.key addr, (db.node addr).stored, db.deadline addr⟩

def lookup (db : Db) (key : Bytes) : Option Entry :=
  (db.findNode key).map db.entry

/-- The database represents the keyspace; the pending nodes wait to be entered
or dropped. -/
def Rep (db : Db) (pending : List Addr) (space : Keyspace) : Prop :=
  exists order, Consistent db order pending ∧
    (forall addr, addr ∈ order -> (db.node addr).Valid) ∧
    (forall addr, addr ∈ pending -> db.deadline addr = none) ∧
    space = order.map db.entry

variable {db later : Db} {pending order : List Addr} {space : Keyspace} {addr other fresh : Addr}
variable {key : Bytes} {value : Stored}

/-! ## Finding -/

/-- What is known about the node that `find_node` returned. -/
structure Found (db : Db) (pending : List Addr) (key : Bytes) (addr : Addr) : Prop where
  key : db.key addr = key
  laid : (db.node addr).Laid
  valid : (db.node addr).Valid
  notPending : addr ∉ pending

theorem Rep.found (rep : Rep db pending space) (found : db.findNode key = some addr) :
    Found db pending key addr := by
  rcases rep with ⟨order, consistent, valid, -, -⟩
  have located := consistent.findNode_some found
  exact
    { key := located.2
      laid := consistent.blocks.laid addr (List.mem_append_left _ located.1)
      valid := valid addr located.1
      notPending := fun waiting => consistent.notMem_of_pending waiting located.1 }

/-- The keyspace has the entry that the database reads.  With this, statements
about nodes become statements about keys. -/
theorem Rep.find_eq (rep : Rep db pending space) (key : Bytes) :
    space.find key = db.lookup key := by
  rcases rep with ⟨order, consistent, -, -, rfl⟩
  unfold lookup Keyspace.find
  rw [consistent.findNode_eq, List.find?_map]
  rfl

theorem Rep.find_some (rep : Rep db pending space) (found : db.findNode key = some addr) :
    space.find key = some (db.entry addr) := by
  rw [rep.find_eq, lookup, found]
  rfl

theorem Rep.find_none (rep : Rep db pending space) (absent : db.findNode key = none) :
    space.find key = none := by
  rw [rep.find_eq, lookup, absent]
  rfl

/-- The entries of the remaining nodes. -/
theorem map_erase (consistent : Consistent db order pending) (member : addr ∈ order)
    (same : forall other, other ∈ order -> other ≠ addr -> later.entry other = db.entry other) :
    (order.erase addr).map later.entry = Keyspace.erase (db.key addr) (order.map db.entry) := by
  unfold Keyspace.erase
  rw [List.filter_map, consistent.nodup.erase_eq_filter]
  have tests : order.filter ((fun entry : Entry => decide (entry.key ≠ db.key addr)) ∘ db.entry) =
      order.filter (fun other => other != addr) := by
    refine List.filter_congr ?_
    intro other inside
    change decide (db.key other ≠ db.key addr) = (other != addr)
    by_cases equal : other = addr
    · simp [equal]
    · have different : db.key other ≠ db.key addr := fun keys =>
        equal (consistent.key_injective inside member keys)
      simp [equal, different]
  rw [tests]
  refine List.map_congr_left ?_
  intro other inside
  rw [List.mem_filter] at inside
  exact same other inside.1 (by simpa using inside.2)

/-- The entries after one of them changed in its place. -/
theorem map_modify {change : Entry -> Entry} (consistent : Consistent db order pending)
    (member : addr ∈ order) (here : later.entry addr = change (db.entry addr))
    (same : forall other, other ∈ order -> other ≠ addr -> later.entry other = db.entry other) :
    order.map later.entry = Keyspace.modify (db.key addr) change (order.map db.entry) := by
  unfold Keyspace.modify
  rw [List.map_map]
  refine List.map_congr_left ?_
  intro other inside
  change later.entry other = if db.key other = db.key addr then change (db.entry other) else _
  by_cases equal : other = addr
  · rw [equal, if_pos rfl, here]
  · rw [if_neg fun keys => equal (consistent.key_injective inside member keys)]
    exact same other inside equal

/-! ## Operations on entered nodes -/

theorem Rep.touch (rep : Rep db pending space) (found : db.findNode key = some addr) :
    Rep (db.touch addr) pending (space.touch key) := by
  have entry := rep.find_some found
  rcases rep with ⟨order, consistent, valid, waiting, rfl⟩
  have located := consistent.findNode_some found
  refine ⟨addr :: order.erase addr, consistent.touch located.1, ?_, waiting, ?_⟩
  · intro other inside
    exact valid other ((List.perm_cons_erase located.1).mem_iff.mpr inside)
  · unfold Keyspace.touch
    rw [entry]
    simp only [Keyspace.put, List.map_cons]
    have rest : (order.erase addr).map (db.touch addr).entry = _ :=
      map_erase consistent located.1 fun _ _ _ => rfl
    rw [rest]
    rfl

theorem Rep.erase (rep : Rep db pending space) (found : db.findNode key = some addr) :
    Rep (db.eraseNode addr) pending (space.erase key) := by
  rcases rep with ⟨order, consistent, valid, waiting, rfl⟩
  have located := consistent.findNode_some found
  rcases consistent.eraseNode located.1 with ⟨erased, deadline, node⟩
  have different : forall other, other ∈ order.erase addr -> other ≠ addr := by
    rintro other inside rfl
    exact consistent.nodup.not_mem_erase inside
  refine ⟨order.erase addr, erased, ?_, ?_, ?_⟩
  · intro other inside
    rw [node other (different other inside)]
    exact valid other (List.mem_of_mem_erase inside)
  · intro other inside
    have apart : other ≠ addr := by
      rintro rfl
      exact consistent.notMem_of_pending inside located.1
    rw [deadline, Function.update_of_ne apart]
    exact waiting other inside
  · rw [<- located.2]
    refine (map_erase consistent located.1 ?_).symm
    intro other _ apart
    unfold Db.entry Db.key
    rw [node other apart, deadline, Function.update_of_ne apart]

theorem Rep.modify {change : Node -> Node} (rep : Rep db pending space)
    (found : db.findNode key = some addr) (laid : (change (db.node addr)).Laid)
    (size : (change (db.node addr)).blockSize = (db.node addr).blockSize)
    (sameKey : (change (db.node addr)).key = (db.node addr).key)
    (holds : (change (db.node addr)).Holds value) :
    Rep (db.modifyNode addr change) pending (space.setValue key value) ∧
      (db.modifyNode addr change).findNode key = some addr ∧
      (db.modifyNode addr change).node addr = change (db.node addr) := by
  rcases rep with ⟨order, consistent, valid, waiting, rfl⟩
  have located := consistent.findNode_some found
  have member : addr ∈ order ++ pending := List.mem_append_left _ located.1
  have known := (consistent.blocks.allocated addr).mpr member
  have modified := consistent.modifyNode member laid size sameKey
  have here : (db.modifyNode addr change).node addr = change (db.node addr) := by
    rw [node_modifyNode known, if_pos rfl]
  have elsewhere : forall other, other ≠ addr ->
      (db.modifyNode addr change).node other = db.node other := by
    intro other different
    rw [node_modifyNode known, if_neg different]
  refine ⟨⟨order, modified, ?_, waiting, ?_⟩, ?_, here⟩
  · intro other inside
    by_cases same : other = addr
    · rw [same, here]
      exact holds.valid
    · rw [elsewhere other same]
      exact valid other inside
  · rw [Keyspace.setValue, <- located.2]
    refine (map_modify consistent located.1 ?_ ?_).symm
    · unfold Db.entry Db.key
      rw [here, sameKey, holds.stored_eq]
      rfl
    · intro other _ different
      unfold Db.entry Db.key
      rw [elsewhere other different]
      rfl
  · have again := modified.findNode_of_mem located.1
    unfold Db.key at again
    rw [here, sameKey] at again
    rw [<- located.2]
    exact again

theorem Rep.node_modify {change : Node -> Node} (rep : Rep db pending space)
    (found : db.findNode key = some addr) :
    (db.modifyNode addr change).node addr = change (db.node addr) := by
  rcases rep with ⟨order, consistent, -, -, -⟩
  have member := List.mem_append_left pending (consistent.findNode_some found).1
  rw [node_modifyNode ((consistent.blocks.allocated addr).mpr member), if_pos rfl]

/-- A node that is going to be erased may be rewritten before. -/
theorem eraseNode_modifyNode {change : Node -> Node}
    (sameKey : (change (db.node addr)).key = (db.node addr).key)
    (size : (change (db.node addr)).blockSize = (db.node addr).blockSize) :
    (db.modifyNode addr change).eraseNode addr = db.eraseNode addr := by
  have frame : forall db : Db, (db.modifyNode addr change).clearExpiry addr =
      (db.clearExpiry addr).modifyNode addr change := by
    intro db
    unfold Db.clearExpiry Db.modifyNode
    split
    · rfl
    · rfl
  have node : (db.clearExpiry addr).node addr = db.node addr := by
    unfold Db.node
    rw [clearExpiry_frame.1]
  unfold Db.eraseNode
  rw [frame]
  rw [<- node] at sameKey size
  generalize db.clearExpiry addr = cleared at sameKey size ⊢
  have here : (cleared.modifyNode addr change).node addr =
      if (cleared.nodes addr).isSome then change (cleared.node addr) else cleared.node addr := by
    unfold Db.node Db.modifyNode
    simp only [Function.update_self]
    cases cleared.nodes addr with
    | none => rfl
    | some node => rfl
  have key : (cleared.modifyNode addr change).key addr = cleared.key addr := by
    unfold Db.key
    rw [here]
    split
    · exact sameKey
    · rfl
  have block : ((cleared.modifyNode addr change).node addr).blockSize =
      (cleared.node addr).blockSize := by
    rw [here]
    split
    · exact size
    · rfl
  have shape : forall other : Db, other.detach addr =
      { other with
        lru := other.lru.unlink addr
        buckets := Chains.unlink (chainOf other.buckets.length (other.key addr)) addr
          other.buckets
        keyTotal := other.keyTotal - 1
        keyHint := other.keyTotal - 1
        nodes := Function.update other.nodes addr none
        free := addr :: other.free
        trackedBytes := other.trackedBytes - (other.node addr).blockSize } := fun _ => rfl
  rw [shape, shape, key, block]
  unfold Db.modifyNode
  simp only [Function.update_idem]

/-- Writing the value that a key has changes nothing. -/
theorem Rep.setValue_self (rep : Rep db pending space) (found : db.findNode key = some addr) :
    space.setValue key (db.node addr).stored = space := by
  rcases rep with ⟨order, consistent, -, -, rfl⟩
  have located := consistent.findNode_some found
  unfold Keyspace.setValue Keyspace.modify
  rw [List.map_map]
  refine List.map_congr_left ?_
  intro other inside
  simp only [Function.comp_apply]
  split
  case isTrue same =>
    have equal : other = addr :=
      consistent.key_injective inside located.1 (same.trans located.2.symm)
    rw [equal]
    rfl
  case isFalse => rfl

/-- A change of one deadline. -/
theorem Rep.redate {later : Db} {deadline : Option Int64} (rep : Rep db pending space)
    (found : db.findNode key = some addr) (node : later.node = db.node)
    (after : later.deadline = Function.update db.deadline addr deadline)
    (keeps : forall order, addr ∈ order -> Consistent db order pending ->
      Consistent later order pending) :
    Rep later pending (space.setDeadline key deadline) := by
  rcases rep with ⟨order, consistent, valid, waiting, rfl⟩
  have located := consistent.findNode_some found
  refine ⟨order, keeps order located.1 consistent, ?_, ?_, ?_⟩
  · rw [node]
    exact valid
  · intro other inside
    rw [after, Function.update_of_ne]
    · exact waiting other inside
    · rintro rfl
      exact consistent.notMem_of_pending inside located.1
  · rw [Keyspace.setDeadline, <- located.2]
    refine (map_modify consistent located.1 ?_ ?_).symm
    · unfold Db.entry Db.key
      rw [node, after, Function.update_self]
    · intro other _ different
      unfold Db.entry Db.key
      rw [node, after, Function.update_of_ne different]

theorem Rep.setDeadline {deadline : Int64} (rep : Rep db pending space)
    (found : db.findNode key = some addr) :
    Rep (db.setDeadline addr deadline) pending (space.setDeadline key (some deadline)) := by
  rcases id rep with ⟨order, consistent, -⟩
  refine rep.redate found rfl ?_ fun _ inside known => known.setDeadline inside
  exact (Deadlines.setDeadline consistent.deadlines
    (List.mem_append_left _ (consistent.findNode_some found).1)).2

theorem Rep.clearExpiry (rep : Rep db pending space) (found : db.findNode key = some addr) :
    Rep (db.clearExpiry addr) pending (space.setDeadline key none) := by
  rcases id rep with ⟨order, consistent, -⟩
  refine rep.redate found ?_ (Deadlines.clearExpiry consistent.deadlines).2
    fun _ _ known => known.clearExpiry
  funext other
  unfold Db.node
  rw [clearExpiry_frame.1]

/-! ## Pending nodes -/

theorem findNode_congr {others : List Addr} (consistent : Consistent db order pending)
    (after : Consistent later order others)
    (keys : forall other, other ∈ order -> later.key other = db.key other) (key : Bytes) :
    later.findNode key = db.findNode key := by
  rw [consistent.findNode_eq, after.findNode_eq]
  have tests : forall part : List Addr,
      (forall other, other ∈ part -> later.key other = db.key other) ->
        part.find? (fun addr => later.key addr = key) =
          part.find? (fun addr => db.key addr = key) := by
    intro part same
    induction part with
    | nil => rfl
    | cons head tail ih =>
        rw [List.find?_cons, List.find?_cons, same head List.mem_cons_self,
          ih fun other inside => same other (List.mem_cons_of_mem _ inside)]
  exact tests order keys

theorem Rep.place {node : Node} (rep : Rep db pending space) (laid : node.Laid) :
    Rep (db.place node) (db.freshAddr :: pending) space ∧
      (forall key, (db.place node).findNode key = db.findNode key) ∧
      (db.place node).node db.freshAddr = node := by
  rcases rep with ⟨order, consistent, valid, waiting, rfl⟩
  have notLive := consistent.blocks.freshAddr_notMem
  have placed := consistent.place laid
  have elsewhere : forall other, other ∈ order -> (db.place node).node other = db.node other := by
    intro other inside
    rw [node_place, if_neg]
    rintro rfl
    exact notLive (List.mem_append_left _ inside)
  refine ⟨⟨order, placed, ?_, ?_, ?_⟩, ?_, ?_⟩
  · intro other inside
    rw [elsewhere other inside]
    exact valid other inside
  · intro other inside
    rcases List.mem_cons.mp inside with rfl | inside
    · exact consistent.deadline_outside notLive
    · exact waiting other inside
  · refine List.map_congr_left ?_
    intro other inside
    unfold Db.entry Db.key
    rw [elsewhere other inside]
    rfl
  · refine findNode_congr consistent placed ?_
    intro other inside
    unfold Db.key
    rw [elsewhere other inside]
  · rw [node_place, if_pos rfl]

theorem Rep.modifyPending {change : Node -> Node} (rep : Rep db pending space)
    (member : addr ∈ pending) (laid : (change (db.node addr)).Laid)
    (size : (change (db.node addr)).blockSize = (db.node addr).blockSize)
    (sameKey : (change (db.node addr)).key = (db.node addr).key) :
    Rep (db.modifyNode addr change) pending space ∧
      (forall key, (db.modifyNode addr change).findNode key = db.findNode key) ∧
      (db.modifyNode addr change).node addr = change (db.node addr) := by
  rcases rep with ⟨order, consistent, valid, waiting, rfl⟩
  have live : addr ∈ order ++ pending := List.mem_append_right _ member
  have known := (consistent.blocks.allocated addr).mpr live
  have modified := consistent.modifyNode live laid size sameKey
  have elsewhere : forall other, other ∈ order ->
      (db.modifyNode addr change).node other = db.node other := by
    intro other inside
    rw [node_modifyNode known, if_neg]
    rintro rfl
    exact consistent.notMem_of_pending member inside
  refine ⟨⟨order, modified, ?_, waiting, ?_⟩, ?_, ?_⟩
  · intro other inside
    rw [elsewhere other inside]
    exact valid other inside
  · refine List.map_congr_left ?_
    intro other inside
    unfold Db.entry Db.key
    rw [elsewhere other inside]
    rfl
  · refine findNode_congr consistent modified ?_
    intro other inside
    unfold Db.key
    rw [elsewhere other inside]
  · rw [node_modifyNode known, if_pos rfl]

theorem Rep.discard (rep : Rep db (addr :: pending) space) :
    Rep (db.destroy addr) pending space := by
  rcases rep with ⟨order, consistent, valid, waiting, rfl⟩
  have elsewhere : forall other, other ∈ order -> (db.destroy addr).node other = db.node other := by
    intro other inside
    rw [node_destroy]
    rintro rfl
    exact consistent.notMem_of_pending List.mem_cons_self inside
  refine ⟨order, consistent.discard (waiting addr List.mem_cons_self), ?_, ?_, ?_⟩
  · intro other inside
    rw [elsewhere other inside]
    exact valid other inside
  · intro other inside
    exact waiting other (List.mem_cons_of_mem _ inside)
  · refine List.map_congr_left ?_
    intro other inside
    unfold Db.entry Db.key
    rw [elsewhere other inside]
    rfl

theorem Rep.rehashTo {k : Nat} (rep : Rep db pending space) (large : 4 ≤ k) (small : k ≤ 31) :
    Rep (db.rehashTo (2 ^ k)) pending space ∧
      forall key, (db.rehashTo (2 ^ k)).findNode key = db.findNode key := by
  rcases rep with ⟨order, consistent, valid, waiting, rfl⟩
  have moved := consistent.rehashTo large small
  exact ⟨⟨order, moved, valid, waiting, rfl⟩,
    findNode_congr consistent moved fun _ _ => rfl⟩

/-- A node can be filled before or after it is entered. -/
theorem modifyNode_commitNode {change : Node -> Node} {keepTtl : Bool}
    (sameKey : (change (db.node fresh)).key = (db.node fresh).key) :
    (db.commitNode none fresh keepTtl).modifyNode fresh change =
      (db.modifyNode fresh change).commitNode none fresh keepTtl := by
  have key : (db.modifyNode fresh change).key fresh = db.key fresh := by
    unfold Db.key Db.node Db.modifyNode at *
    simp only [Function.update_self]
    cases block : db.nodes fresh with
    | none => rfl
    | some node =>
        rw [block] at sameKey
        exact sameKey
  unfold commitNode enter link
  simp only [key]
  rfl

theorem Rep.commitNew {keepTtl : Bool} (rep : Rep db (fresh :: pending) space)
    (absent : db.findNode (db.key fresh) = none) (holds : (db.node fresh).Holds value) :
    Rep (db.commitNode none fresh keepTtl) pending
        (space.put ⟨db.key fresh, value, none⟩) ∧
      (db.commitNode none fresh keepTtl).findNode (db.key fresh) = some fresh ∧
      (db.commitNode none fresh keepTtl).node fresh = db.node fresh := by
  have notThere := rep.find_none absent
  rcases rep with ⟨order, consistent, valid, waiting, rfl⟩
  have entered := consistent.enter (consistent.findNode_none.mp absent)
  refine ⟨⟨fresh :: order, entered, ?_, ?_, ?_⟩, entered.findNode_of_mem List.mem_cons_self, rfl⟩
  · intro other inside
    rcases List.mem_cons.mp inside with rfl | inside
    · exact holds.valid
    · exact valid other inside
  · intro other inside
    exact waiting other (List.mem_cons_of_mem _ inside)
  · rw [Keyspace.put, Keyspace.erase_of_find_none notThere, List.map_cons]
    have free : db.deadline fresh = none := waiting fresh List.mem_cons_self
    have first : (db.commitNode none fresh keepTtl).entry fresh = ⟨db.key fresh, value, none⟩ := by
      change db.entry fresh = _
      unfold Db.entry
      rw [holds.stored_eq, free]
    rw [first]
    rfl

theorem Rep.commitReplace {keepTtl : Bool} (rep : Rep db (fresh :: pending) space)
    (found : db.findNode (db.key fresh) = some addr) (holds : (db.node fresh).Holds value) :
    Rep (db.commitNode (some addr) fresh keepTtl) pending
        (space.put ⟨db.key fresh, value, if keepTtl then db.deadline addr else none⟩) ∧
      (db.commitNode (some addr) fresh keepTtl).findNode (db.key fresh) = some fresh ∧
      (db.commitNode (some addr) fresh keepTtl).node fresh = db.node fresh := by
  rcases rep with ⟨order, consistent, valid, waiting, rfl⟩
  have located := consistent.findNode_some found
  have free : db.deadline fresh = none := waiting fresh List.mem_cons_self
  have apart : fresh ≠ addr := by
    rintro rfl
    exact consistent.notMem_of_pending List.mem_cons_self located.1
  rcases @Consistent.replaceNode db order pending addr fresh keepTtl consistent located.1
    located.2.symm free with ⟨result, deadline, node⟩
  have nodeFresh := node fresh apart
  have different : forall other, other ∈ order.erase addr -> other ≠ addr ∧ other ≠ fresh := by
    intro other inside
    refine ⟨?_, ?_⟩
    · rintro rfl
      exact consistent.nodup.not_mem_erase inside
    · rintro rfl
      exact consistent.notMem_of_pending List.mem_cons_self (List.mem_of_mem_erase inside)
  refine ⟨⟨fresh :: order.erase addr, result, ?_, ?_, ?_⟩, ?_, nodeFresh⟩
  · intro other inside
    rcases List.mem_cons.mp inside with rfl | inside
    · rw [nodeFresh]
      exact holds.valid
    · rw [node other (different other inside).1]
      exact valid other (List.mem_of_mem_erase inside)
  · intro other inside
    have notFresh : other ≠ fresh := by
      rintro rfl
      exact (List.nodup_cons.mp (List.nodup_append.mp consistent.blocks.nodup).2.1).1 inside
    have notOld : other ≠ addr := by
      rintro rfl
      exact consistent.notMem_of_pending (List.mem_cons_of_mem _ inside) located.1
    rw [deadline, Function.update_of_ne notFresh, Function.update_of_ne notOld]
    exact waiting other (List.mem_cons_of_mem _ inside)
  · rw [Keyspace.put, List.map_cons]
    have first : (db.commitNode (some addr) fresh keepTtl).entry fresh =
        ⟨db.key fresh, value, if keepTtl then db.deadline addr else none⟩ := by
      unfold Db.entry Db.key
      rw [nodeFresh, deadline, Function.update_self, holds.stored_eq]
    rw [first]
    congr 1
    rw [<- located.2]
    refine (map_erase consistent located.1 ?_).symm
    intro other inside notOld
    have notFresh : other ≠ fresh := by
      rintro rfl
      exact consistent.notMem_of_pending List.mem_cons_self inside
    unfold Db.entry Db.key
    rw [node other notOld, deadline, Function.update_of_ne notFresh, Function.update_of_ne notOld]
  · have again := result.findNode_of_mem List.mem_cons_self
    unfold Db.key at again
    rw [nodeFresh] at again
    exact again

/-- `grow_node` changes the address, not the entry. -/
theorem Rep.regrow {capacity : Nat} {garbage : Nat -> UInt8} (rep : Rep db pending space)
    (found : db.findNode key = some addr)
    (laid : ((db.node addr).grown capacity garbage).Laid)
    (holds : ((db.node addr).grown capacity garbage).Holds (db.node addr).stored) :
    Rep (db.regrow addr capacity garbage) pending space ∧
      (db.regrow addr capacity garbage).findNode key = some db.freshAddr ∧
      (db.regrow addr capacity garbage).node db.freshAddr =
        (db.node addr).grown capacity garbage := by
  rcases rep with ⟨order, consistent, valid, waiting, rfl⟩
  have located := consistent.findNode_some found
  have notLive := consistent.blocks.freshAddr_notMem
  rcases consistent.regrow located.1 laid with
    ⟨before, after, rfl, result, deadline, nodeFresh, node⟩
  have distinct := consistent.nodup
  rw [List.nodup_append, List.nodup_cons] at distinct
  have others : forall other, other ∈ before ∨ other ∈ after ->
      other ≠ addr ∧ other ≠ db.freshAddr := by
    intro other inside
    refine ⟨?_, ?_⟩
    · rintro rfl
      rcases inside with front | back
      · exact distinct.2.2 other front other List.mem_cons_self rfl
      · exact distinct.2.1.1 back
    · rintro rfl
      refine notLive (List.mem_append_left _ ?_)
      rcases inside with front | back
      · exact List.mem_append_left _ front
      · exact List.mem_append_right _ (List.mem_cons_of_mem _ back)
  have entryEq : forall other, other ∈ before ∨ other ∈ after ->
      (db.regrow addr capacity garbage).entry other = db.entry other := by
    intro other inside
    have apart := others other inside
    unfold Db.entry Db.key
    rw [node other apart.1 apart.2, deadline, Function.update_of_ne apart.2,
      Function.update_of_ne apart.1]
  have entryFresh : (db.regrow addr capacity garbage).entry db.freshAddr = db.entry addr := by
    unfold Db.entry Db.key
    rw [nodeFresh, holds.stored_eq, deadline, Function.update_self]
    rfl
  refine ⟨⟨before ++ db.freshAddr :: after, result, ?_, ?_, ?_⟩, ?_, nodeFresh⟩
  · intro other inside
    rw [List.mem_append, List.mem_cons] at inside
    rcases inside with front | rfl | back
    · have apart := others other (Or.inl front)
      rw [node other apart.1 apart.2]
      exact valid other (List.mem_append_left _ front)
    · rw [nodeFresh]
      exact holds.valid
    · have apart := others other (Or.inr back)
      rw [node other apart.1 apart.2]
      exact valid other (List.mem_append_right _ (List.mem_cons_of_mem _ back))
  · intro other inside
    have notFresh : other ≠ db.freshAddr := by
      rintro rfl
      exact notLive (List.mem_append_right _ inside)
    have notOld : other ≠ addr := by
      rintro rfl
      exact consistent.notMem_of_pending inside located.1
    rw [deadline, Function.update_of_ne notFresh, Function.update_of_ne notOld]
    exact waiting other inside
  · rw [List.map_append, List.map_cons, List.map_append, List.map_cons, entryFresh,
      List.map_congr_left fun other inside => entryEq other (Or.inl inside),
      List.map_congr_left fun other inside => entryEq other (Or.inr inside)]
  · have again := result.findNode_of_mem (show db.freshAddr ∈ before ++ db.freshAddr :: after by
      simp)
    unfold Db.key at again
    rw [nodeFresh] at again
    rw [<- located.2]
    exact again

end Db

end Reddish
