import Reddish.Library.Recency
import Reddish.Database.Maintenance
import Reddish.Database.Replay

namespace Reddish

open Library Numeral

/-!
# Keys in the order of their last access

The recency list holds the keys in the order of their last access, and
`evict_to` takes keys from its end.  An access is a lookup that finds its key,
or the creation of a key.  Everything else that moves nodes about leaves the
order alone.
-/

namespace Keyspace

variable {space : Keyspace} {key : Bytes} {entry : Entry}

/-- The keys, the most recent one first. -/
def keys (space : Keyspace) : List Bytes :=
  space.map Entry.key

theorem keys_erase :
    (space.erase key).keys = space.keys.filter fun other => decide (other ≠ key) := by
  unfold keys erase
  rw [List.filter_map]
  rfl

theorem keys_put : (space.put entry).keys = moveToFront entry.key space.keys := by
  unfold moveToFront
  rw [<- keys_erase]
  rfl

theorem keys_modify {change : Entry -> Entry} (same : forall entry, (change entry).key = entry.key) :
    (space.modify key change).keys = space.keys := by
  unfold keys modify
  rw [List.map_map]
  refine List.map_congr_left fun entry _ => ?_
  simp only [Function.comp_apply]
  split
  · exact same entry
  · rfl

theorem keys_touch (present : key ∈ space.keys) :
    (space.touch key).keys = moveToFront key space.keys := by
  unfold touch
  cases found : space.find key with
  | none =>
      rcases List.mem_map.mp present with ⟨entry, inside, rfl⟩
      have missing := List.find?_eq_none.mp found entry inside
      simp at missing
  | some entry =>
      have same := key_of_find found
      simp only
      rw [keys_put, same]

theorem mem_keys_of_find (found : space.find key = some entry) : key ∈ space.keys := by
  rw [<- key_of_find found]
  exact List.mem_map_of_mem (List.mem_of_find?_eq_some found)

theorem notMem_keys_of_find (missing : space.find key = none) : key ∉ space.keys := by
  intro present
  rcases List.mem_map.mp present with ⟨entry, inside, rfl⟩
  have other := List.find?_eq_none.mp missing entry inside
  simp at other

/-- The key is the first one, or there is no such key. -/
def Leading (key : Bytes) (space : Keyspace) : Prop :=
  space.keys.Sublist (moveToFront key space.keys)

theorem leading_of_missing (missing : space.find key = none) : Leading key space := by
  have same : space.keys.filter (fun other => decide (other ≠ key)) = space.keys := by
    refine List.filter_eq_self.mpr fun other inside => decide_eq_true ?_
    rintro rfl
    exact notMem_keys_of_find missing inside
  unfold Leading moveToFront
  rw [same]
  exact List.sublist_cons_self _ _

end Keyspace

namespace Db

/-- The keys from the most recent one to the oldest one. -/
def keys (db : Db) : List Bytes :=
  db.entries.map Entry.key

theorem Rep.keys {db : Db} {space : Keyspace} (rep : Rep db [] space) : db.keys = space.keys := by
  rw [Db.keys, rep.entries]
  rfl

end Db

namespace Spec

variable {time : Option Int64} {key : Bytes} {space : Keyspace} {effect : Effect}

theorem keys_writable :
    (writable time key space).space.keys.Sublist (moveToFront key space.keys) := by
  unfold writable
  cases found : space.find key with
  | none => exact Keyspace.leading_of_missing found
  | some entry =>
      simp only
      split
      · rw [Keyspace.keys_erase]
        exact List.sublist_cons_self _ _
      · rw [Keyspace.keys_touch (Keyspace.mem_keys_of_find found)]

theorem active_none (missing : (active time key space).result = none) :
    (active time key space).space = space := by
  unfold active at missing ⊢
  cases found : space.find key with
  | none => rfl
  | some entry =>
      rw [found] at missing
      simp only at missing ⊢
      split at missing
      case isTrue expired => rw [if_pos expired]
      case isFalse => cases missing

theorem active_some {entry : Entry} (result : (active time key space).result = some entry) :
    (active time key space).space.keys = moveToFront key space.keys := by
  unfold active at result ⊢
  cases found : space.find key with
  | none =>
      rw [found] at result
      cases result
  | some known =>
      rw [found] at result
      simp only at result ⊢
      split at result
      case isTrue => cases result
      case isFalse fresh =>
        rw [if_neg fresh]
        exact Keyspace.keys_touch (Keyspace.mem_keys_of_find found)

/-- An effect leaves its key in front, or removes it. -/
theorem keys_apply : (effect.apply key (writable time key space)).keys.Sublist
    (moveToFront key space.keys) := by
  cases effect with
  | keep => exact keys_writable
  | remove =>
      rw [Effect.apply, Keyspace.keys_erase]
      exact List.filter_sublist.trans keys_writable
  | store value keepTtl =>
      rw [Effect.apply, store, Keyspace.keys_put]
      exact moveToFront_mono keys_writable
  | schedule deadline =>
      rw [Effect.apply, Keyspace.setDeadline, Keyspace.keys_modify]
      · exact keys_writable
      · exact fun _ => rfl

/-- A lookup that finds nothing leaves the order alone. -/
theorem keys_writable_none (missing : (writable time key space).result = none) :
    (writable time key space).space.keys.Sublist space.keys := by
  unfold writable at missing ⊢
  cases found : space.find key with
  | none => exact List.Sublist.refl _
  | some entry =>
      rw [found] at missing
      simp only at missing ⊢
      split at missing
      case isTrue expired =>
        rw [if_pos expired, Keyspace.keys_erase]
        exact List.filter_sublist
      case isFalse => cases missing

end Spec

namespace Database

variable {α β : Type} {world after : World} {space : Keyspace} {key : Bytes} {addr : Addr}
variable {call : Call} {op : Op α} {wrap : α -> Answer}

/-! ## Accesses -/

inductive Lookup where
  | active (key : Bytes)
  | writable (key : Bytes)

/-- Some requests are turned away before anything is looked up. -/
def Call.lookup : Call -> Option Lookup
  | set key val => if maxValueLength < val.length then none else some (.writable key)
  | get key => some (.active key)
  | valueView key => some (.active key)
  | increment key => some (.writable key)
  | pushLeft key _ => some (.writable key)
  | pushRight key _ => some (.writable key)
  | pushTexts key _ _ => some (.writable key)
  | popLeft key => some (.writable key)
  | popRight key => some (.writable key)
  | listLength key => some (.active key)
  | hashSet key _ _ => some (.writable key)
  | hashSetTexts key fields => if fields.length % 2 ≠ 0 then none else some (.writable key)
  | hashGet key _ => some (.active key)
  | hashField key _ => some (.active key)
  | hashDel key _ => some (.writable key)
  | hashLength key => some (.active key)
  | expire key _ => some (.writable key)
  | ttl key => some (.active key)
  | del key => some (.writable key)
  | _ => none

/-- A key is accessed when `find_active` or `find_writable` finds it, and when
it is there in the end although the latter did not find it. -/
def Lookup.accesses (before after : World) : Lookup -> List Bytes
  | active key =>
      match (findActive key before).1 with
      | .ok (some _) => [key]
      | _ => []
  | writable key =>
      match (findWritable key before).1 with
      | .ok (some _) => [key]
      | .ok none => if (after.db.findNode key).isSome then [key] else []
      | .error _ => []

def Call.accesses (call : Call) (world : World) : List Bytes :=
  match call.lookup with
  | none => []
  | some lookup => lookup.accesses world (call.perform world).2

/-! ## Lookups for reading -/

/-- Code that does not change the database any more after its lookup. -/
def OnlyLooks (key : Bytes) (op : Op α) : Prop :=
  forall world, (op world).2.db = (findActive key world).2.db

/-- Code that looks a key up, reads the database and answers. -/
theorem onlyLooks_findActive {rest : Option Addr -> Op α} {answer : Addr -> World -> Op α}
    (absent : forall world, (rest none world).2.db = world.db)
    (present : forall addr, rest (some addr) = Cmd.read >>= answer addr)
    (quiet : forall addr world, (answer addr world world).2.db = world.db) :
    OnlyLooks key (findActive key >>= rest) := by
  intro world
  change (Cmd.bind (findActive key) rest world).2.db = _
  unfold Cmd.bind
  rcases ran : findActive key world with ⟨thrown | _ | addr, after⟩
  · rfl
  · exact absent after
  · simp only [present]
    exact quiet addr after

theorem OnlyLooks.bind {rest : α -> Op β} (looks : OnlyLooks key op)
    (quiet : forall value world, (rest value world).2.db = world.db) :
    OnlyLooks key (op >>= rest) := by
  intro world
  rw [<- looks world]
  change (Cmd.bind op rest world).2.db = _
  unfold Cmd.bind
  rcases ran : op world with ⟨thrown | value, after⟩
  · rfl
  · exact quiet value after

theorem db_taken (world : World) : (Cmd.bind allocate (fun _ => pure ()) world).2.db = world.db := by
  unfold Cmd.bind allocate
  cases world.allocations 0 with
  | none => rfl
  | some garbage => rfl

theorem OnlyLooks.copied {copy : α -> Op Unit} {view : Op (Except ErrorCode (Option α))}
    (looks : OnlyLooks key view) (quiet : forall value world, (copy value world).2.db = world.db) :
    OnlyLooks key (copied copy view) := by
  refine looks.bind fun result world => ?_
  have copies : (copyFound copy result world).2.db = world.db := by
    unfold copyFound
    split
    · exact quiet _ world
    · rfl
  change (Cmd.bind (copyFound copy result) _ world).2.db = _
  unfold Cmd.bind
  rcases ran : copyFound copy result world with ⟨thrown | _, after⟩
  · rw [ran] at copies
    exact copies
  · rw [ran] at copies
    exact copies

theorem onlyLooks_valueView : OnlyLooks key (valueView key) := by
  refine onlyLooks_findActive (fun _ => rfl) (fun _ => rfl) fun addr world => ?_
  cases (world.db.node addr).type <;> rfl

theorem onlyLooks_listLength : OnlyLooks key (listLength key) := by
  refine onlyLooks_findActive (fun _ => rfl) (fun _ => rfl) fun addr world => ?_
  split <;> rfl

theorem onlyLooks_hashField {field : Bytes} : OnlyLooks key (hashField key field) := by
  refine onlyLooks_findActive (fun _ => rfl) (fun _ => rfl) fun addr world => ?_
  split <;> rfl

theorem onlyLooks_hashLength : OnlyLooks key (hashLength key) := by
  refine onlyLooks_findActive (fun _ => rfl) (fun _ => rfl) fun addr world => ?_
  split <;> rfl

theorem onlyLooks_ttl : OnlyLooks key (ttl key) := by
  refine onlyLooks_findActive (fun _ => rfl) (fun _ => rfl) fun addr world => ?_
  cases world.db.deadline addr <;> rfl

theorem Call.onlyLooks (looks : call.lookup = some (.active key)) : OnlyLooks key call.run := by
  cases call with
  | get name =>
      cases looks
      exact ((onlyLooks_valueView.bind fun _ _ => rfl).copied fun _ => db_taken).bind fun _ _ => rfl
  | valueView name =>
      cases looks
      exact onlyLooks_valueView.bind fun _ _ => rfl
  | listLength name =>
      cases looks
      exact onlyLooks_listLength.bind fun _ _ => rfl
  | hashGet name field =>
      cases looks
      refine (onlyLooks_hashField.copied fun value world => ?_).bind fun _ _ => rfl
      cases value with
      | integer n => rfl
      | text bytes => exact db_taken world
  | hashField name field =>
      cases looks
      exact onlyLooks_hashField.bind fun _ _ => rfl
  | hashLength name =>
      cases looks
      exact onlyLooks_hashLength.bind fun _ _ => rfl
  | ttl name =>
      cases looks
      exact onlyLooks_ttl.bind fun _ _ => rfl
  | set | hashSetTexts =>
      simp only [Call.lookup] at looks
      split at looks
      · cases looks
      · cases looks
  | _ => cases looks

/-- A reader puts its key in front if it finds it, and does nothing else. -/
theorem Call.reads (looks : call.lookup = some (.active key)) (ready : Ready world space) :
    (call.perform world).2.db.keys.Sublist
      ((call.accesses world).foldr moveToFront space.keys) := by
  have same : (call.perform world).2.db = (findActive key world).2.db := by
    rw [call.perform_eq world]
    exact Call.onlyLooks looks world
  have looked := findActive_spec ready.reached key
  unfold Cmd.wp at looked
  unfold Call.accesses
  rw [looks]
  unfold Lookup.accesses
  simp only
  rw [same]
  rcases ran : findActive key world with ⟨thrown | found, after⟩
  · rw [ran] at looked
    exact looked.elim
  · rw [ran] at looked
    rcases looked with ⟨now, -, reached, result, -⟩
    rw [reached.rep.keys]
    cases found with
    | none =>
        rw [Spec.active_none result]
        exact List.Sublist.refl _
    | some addr =>
        rw [Spec.active_some result]
        rfl

/-! ## Lookups for writing -/

/-- Calls whose lookups end alike end alike. -/
theorem answering_congr {left right : World} {rest : Option Addr -> Op α}
    (starts : op = findWritable key >>= rest)
    (same : findWritable key left = findWritable key right) :
    answering wrap op left = answering wrap op right := by
  have alike : op left = op right := by
    rw [starts]
    change Cmd.bind (findWritable key) rest left = Cmd.bind (findWritable key) rest right
    unfold Cmd.bind
    rw [same]
  change Cmd.bind op _ left = Cmd.bind op _ right
  unfold Cmd.bind
  rw [alike]

/-- A call whose lookup throws ends there. -/
theorem answering_throws {rest : Option Addr -> Op α} {thrown : Exn}
    (starts : op = findWritable key >>= rest)
    (failed : findWritable key world = (.error thrown, after)) :
    answering wrap op world = (.error thrown, after) := by
  refine answering_error ?_
  rw [starts]
  change Cmd.bind (findWritable key) rest world = _
  rw [Cmd.bind, failed]

/-- A call that looks its key up for writing. -/
def Starts (key : Bytes) (run : Op Answer) : Prop :=
  exists (α : Type) (wrap : α -> Answer) (rest : Option Addr -> Op α),
    run = answering wrap (findWritable key >>= rest)

theorem touch_touch (db : Db) : (db.touch addr).touch addr = db.touch addr := by
  have head : (Db.touchLinks addr db.lru).head = some addr := by
    unfold Db.touchLinks
    split
    case isTrue first => exact first
    case isFalse =>
      split
      · rfl
      · rfl
  have again : Db.touchLinks addr (Db.touchLinks addr db.lru) = Db.touchLinks addr db.lru :=
    if_pos head
  unfold Db.touch
  simp only
  rw [again]

/-- The test for the deadline does not depend on the recency list. -/
theorem mustDrop_touched (other : Addr) (world : World) : exists passed clocked,
    mustDrop other world = (.ok passed, clocked) ∧ clocked.db = world.db ∧
      mustDrop other { world with db := world.db.touch addr } =
        (.ok passed, { clocked with db := world.db.touch addr }) := by
  unfold mustDrop
  change exists passed clocked, Cmd.bind Cmd.read _ world = _ ∧ _ ∧ Cmd.bind Cmd.read _ _ = _
  simp only [Cmd.bind, Cmd.read]
  have replays : (world.db.touch addr).replaying = world.db.replaying := rfl
  rw [replays]
  cases world.db.replaying with
  | true => exact ⟨false, world, rfl, rfl, rfl⟩
  | false =>
      have flag : (world.db.touch addr).ttlFlag other = world.db.ttlFlag other := rfl
      have deadline : (world.db.touch addr).deadline other = world.db.deadline other := rfl
      simp only [Bool.false_eq_true, if_false]
      unfold deadlinePassed
      change exists passed clocked, Cmd.bind Cmd.read _ world = _ ∧ _ ∧ Cmd.bind Cmd.read _ _ = _
      simp only [Cmd.bind, Cmd.read]
      rw [flag, deadline]
      cases world.db.ttlFlag other with
      | false => exact ⟨false, world, rfl, rfl, rfl⟩
      | true =>
          cases world.db.deadline other with
          | none => exact ⟨false, world, rfl, rfl, rfl⟩
          | some moment => exact ⟨_, _, rfl, rfl, rfl⟩

/-- A lookup that found its key finds it again after it was put in front. -/
theorem findWritable_touched (ran : findWritable key world = (.ok (some addr), after)) :
    world.db.findNode key = some addr ∧
      findWritable key { world with db := world.db.touch addr } = (.ok (some addr), after) := by
  unfold findWritable at ran ⊢
  by_cases long : key.length > Node.maxKeyLength
  · rw [if_pos long] at ran
    cases ran
  · rw [if_neg long] at ran ⊢
    change Cmd.bind Cmd.read _ _ = _ at ran
    change _ ∧ Cmd.bind Cmd.read _ _ = _
    have located : (world.db.touch addr).findNode key = world.db.findNode key := rfl
    simp only [Cmd.bind, Cmd.read] at ran ⊢
    rw [located]
    cases found : world.db.findNode key with
    | none =>
        rw [found] at ran
        cases ran
    | some other =>
        rw [found] at ran
        rcases @mustDrop_touched addr other world with ⟨passed, clocked, tested, same, again⟩
        change Cmd.bind (mustDrop other) _ _ = _ at ran
        change _ ∧ Cmd.bind (mustDrop other) _ _ = _
        simp only [Cmd.bind, tested, again] at ran ⊢
        cases passed with
        | true =>
            change Cmd.bind (dropExpired key other) (fun _ => pure none) clocked = _ at ran
            unfold Cmd.bind at ran
            rcases dropped : dropExpired key other clocked with ⟨thrown | _, last⟩
            · rw [dropped] at ran
              cases ran
            · rw [dropped] at ran
              cases ran
        | false =>
            change (Except.ok (some other), { clocked with db := clocked.db.touch other }) = _ at ran
            cases ran
            refine ⟨rfl, ?_⟩
            change (Except.ok (some addr), { clocked with db := (world.db.touch addr).touch addr }) = _
            rw [touch_touch, same]

/-- A key that was not found is not found again. -/
theorem findWritable_missing (short : key.length ≤ Node.maxKeyLength)
    (absent : world.db.findNode key = none) : findWritable key world = (.ok none, world) := by
  unfold findWritable
  rw [if_neg (Nat.not_lt.mpr short)]
  change Cmd.bind Cmd.read _ world = _
  simp only [Cmd.bind, Cmd.read, absent]
  rfl

/-- A form that writes to a key, or does nothing at all. -/
def Form.Writes (key : Bytes) : Form -> Prop
  | .answers _ => True
  | .reads _ _ => False
  | .writes other _ _ => other = key

theorem Form.writes_writing (wrap : α -> Answer) (plan : Option Entry -> Spec.Plan α)
    (tooLarge : Bool) : (Form.writing wrap key plan tooLarge).Writes key := by
  unfold Form.writing
  split
  · exact trivial
  · exact rfl

/-- What the calls have in common that look their key up for writing. -/
theorem Call.writing (looks : call.lookup = some (.writable key)) :
    call.key = some key ∧ Starts key call.run ∧
      forall moment form, call.form moment = some form -> form.Writes key := by
  cases call with
  | set name val =>
      simp only [Call.lookup] at looks
      split at looks
      case isTrue => cases looks
      case isFalse small =>
        cases looks
        rcases @set_starts key val small with ⟨rest, starts⟩
        refine ⟨rfl, ⟨_, _, rest, by rw [Call.run, starts]⟩, fun moment form formed => ?_⟩
        simp only [Call.form, if_neg small] at formed
        cases formed
        exact Form.writes_writing _ _ _
  | hashSetTexts name fields =>
      simp only [Call.lookup] at looks
      split at looks
      case isTrue => cases looks
      case isFalse even =>
        cases looks
        rcases @hashSetTexts_starts key fields even with ⟨rest, starts⟩
        refine ⟨rfl, ⟨_, _, rest, by rw [Call.run, starts]⟩, fun moment form formed => ?_⟩
        simp only [Call.form, if_neg even] at formed
        cases formed
        exact Form.writes_writing _ _ _
  | expire name seconds =>
      cases looks
      refine ⟨rfl, ⟨_, _, _, rfl⟩, fun moment form formed => ?_⟩
      cases formed
      split
      · exact trivial
      · exact rfl
  | increment | pushLeft | pushRight | pushTexts | popLeft | popRight | hashSet | hashDel | del =>
      cases looks
      refine ⟨rfl, ⟨_, _, _, rfl⟩, fun moment form formed => ?_⟩
      cases formed
      exact Form.writes_writing _ _ _
  | _ => cases looks

/-- From a state in which its key leads, a call keeps all others in order. -/
theorem Call.writes_leading (looks : call.lookup = some (.writable key)) (ready : Ready world space)
    (live : world.db.replaying = false) (leading : space.Leading key) :
    (call.run world).2.db.keys.Sublist (moveToFront key space.keys) := by
  rcases Call.writing looks with ⟨named, -, isWriting⟩
  rcases Call.moves named with ⟨form, formed, moves⟩
  have writes : forall moment, (form moment).Writes key :=
    fun moment => isWriting moment _ (formed moment)
  rw [<- Cmd.wp_state (fun after : World => after.db.keys.Sublist (moveToFront key space.keys))]
  refine Cmd.wp_mono (moves world space ready live) ?_ ?_
  · rintro answer after ⟨now, moment, -, -, -, done⟩
    rw [done.rep.keys]
    have isWriting := writes moment
    cases shape : form moment with
    | answers result => exact leading
    | reads name answer =>
        rw [shape] at isWriting
        exact isWriting.elim
    | writes name plan tooLarge =>
        rw [shape] at isWriting
        cases isWriting
        rw [Spec.perform, if_neg (fun impossible => by cases impossible.1)]
        exact Spec.keys_apply
  · rintro thrown after (same | ⟨now, moment, -, -, looked⟩)
    · rw [same.rep.keys]
      exact leading
    · rw [looked.rep.keys]
      have isWriting := writes moment
      cases shape : form moment with
      | answers result => exact leading
      | reads name answer =>
          rw [shape] at isWriting
          exact isWriting.elim
      | writes name plan tooLarge =>
          rw [shape] at isWriting
          cases isWriting
          exact Spec.keys_writable

/-- A writer puts its key in front if it finds or creates it. -/
theorem Call.writes (looks : call.lookup = some (.writable key)) (ready : Ready world space)
    (live : world.db.replaying = false) :
    (call.perform world).2.db.keys.Sublist
      ((call.accesses world).foldr moveToFront space.keys) := by
  have looked := findWritable_spec ready.reached key
  unfold Cmd.wp at looked
  rcases Call.writing looks with ⟨named, ⟨α, wrap, rest, starts⟩, -⟩
  have same : (call.perform world).2 = (call.run world).2 := by rw [call.perform_eq world]
  unfold Call.accesses
  rw [looks]
  unfold Lookup.accesses
  simp only
  rw [same]
  rcases ran : findWritable key world with ⟨thrown | found, after⟩
  · rw [ran] at looked
    have ended : call.run world = (.error thrown, after) := by
      rw [starts]
      exact answering_throws rfl ran
    rw [ended, looked.rep.keys]
    exact List.Sublist.refl _
  · rw [ran] at looked
    rcases looked with ⟨⟨now, reads, reached, result⟩, short, located, -⟩
    cases found with
    | some addr =>
        rcases findWritable_touched ran with ⟨found, retold⟩
        have again : call.run world = call.run { world with db := world.db.touch addr } := by
          rw [starts]
          exact answering_congr rfl (ran.trans retold.symm)
        have touched : Ready { world with db := world.db.touch addr } (space.touch key) :=
          ⟨ready.rep.touch found, ready.sound⟩
        have keys := Keyspace.keys_touch (Keyspace.mem_keys_of_find (ready.rep.find_some found))
        have leading : (space.touch key).Leading key := by
          unfold Keyspace.Leading
          rw [keys, moveToFront_again]
        have led := Call.writes_leading looks touched live leading
        rw [keys, moveToFront_again, <- again] at led
        exact led
    | none =>
        have missing := Spec.find_writable.trans result
        have again : call.run world = call.run after := by
          rw [starts]
          exact answering_congr rfl (ran.trans (findWritable_missing short located).symm)
        have shorter := Spec.keys_writable_none result
        have live' : after.db.replaying = false := by
          rw [reached.evolves.replaying]
          exact live
        have led := Call.writes_leading looks reached.ready live'
          (Keyspace.leading_of_missing missing)
        rw [<- again] at led
        simp only
        split
        · exact led.trans (moveToFront_sublist shorter)
        case isFalse gone =>
          refine (sublist_of_moveToFront led ?_).trans shorter
          rcases Cmd.wp_final (Call.keeps named world space ready) (call.perform_eq world) with
            ⟨later, done, -⟩
          rw [Bool.not_eq_true, Option.isSome_eq_false_iff, Option.isNone_iff_eq_none] at gone
          rw [done.rep.keys]
          exact Keyspace.notMem_keys_of_find (done.rep.find_none gone)

/-! ## Runs -/

/-- A request that is turned away changes nothing. -/
theorem Call.turnedAway (looks : call.lookup = none) (named : call.key = some key) :
    (call.perform world).2 = world := by
  cases call with
  | set name val =>
      simp only [Call.lookup] at looks
      split at looks
      case isTrue large =>
        rw [Call.perform, Database.set, if_pos large]
        rfl
      case isFalse => cases looks
  | hashSetTexts name fields =>
      simp only [Call.lookup] at looks
      split at looks
      case isTrue odd =>
        rw [Call.perform, Database.hashSetTexts, if_pos odd]
        rfl
      case isFalse => cases looks
  | removeExpired | evictTo | openWal | flushWal | compactWal | beginWalBatch | endWalBatch =>
      cases named
  | _ => cases looks

/-- Every call but `open_wal` keeps the keys in order, apart from those it
accesses. -/
theorem Call.reorders (ready : Ready world space) (live : world.db.replaying = false)
    (other : forall opening, call ≠ .openWal opening) :
    (call.perform world).2.db.keys.Sublist
      ((call.accesses world).foldr moveToFront space.keys) := by
  cases looks : call.lookup with
  | some lookup =>
      cases lookup with
      | active key => exact Call.reads looks ready
      | writable key => exact Call.writes looks ready live
  | none =>
      have untouched : call.accesses world = [] := by rw [Call.accesses, looks]
      rw [untouched]
      cases named : call.key with
      | none =>
          have shrunk := Cmd.wp_final (Call.shrinks named ready
            fun opening isOpening => absurd isOpening (other opening)) (call.perform_eq world)
          rcases shrunk with ⟨later, done, sub⟩
          rw [call.perform_eq world, done.rep.keys]
          exact sub.map Entry.key
      | some key =>
          have same : (call.perform world).2 = world := Call.turnedAway looks named
          rw [same, ready.rep.keys]
          exact List.Sublist.refl _

end Database

end Reddish
