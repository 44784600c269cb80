import Reddish.Database.Locality
import Reddish.Wal.Compaction

namespace Reddish

open Library Numeral

/-!
# Replay, opening and compaction

`replay` applies one record of a log to the database; `open_wal` replays a whole
file and empties the database again if that fails; `compact_wal` writes the
database into a new log.
-/

/-! ## Emptying the database -/

namespace Db

def clearKeyspace (db : Db) : Db :=
  { db.buckets.flatten.foldl (fun db addr => db.destroy addr) db with
    buckets := List.replicate db.buckets.length []
    lru := { db.lru with head := none, tail := none }
    keyTotal := 0
    keyHint := 0
    ttlKeyCount := 0
    ttlHint := false
    expiries := IndexedHeap.empty }

variable {db : Db} {live : List Addr} {space : Keyspace}

/-- Destroying nodes one after another leaves the others. -/
theorem Blocks.destroyAll (nodes : List Addr) : forall {db : Db},
    Blocks db (nodes ++ live) -> Blocks (nodes.foldl (fun db addr => db.destroy addr) db) live := by
  induction nodes with
  | nil => exact fun blocks => blocks
  | cons addr others ih =>
      intro db blocks
      exact ih blocks.destroy

/-- The database is empty, and all of its memory is returned. -/
theorem Rep.clearKeyspace (rep : Rep db [] space) :
    Rep db.clearKeyspace [] [] ∧ db.clearKeyspace.trackedBytes = 0 := by
  rcases rep with ⟨order, consistent, -, -, -⟩
  have listed : Blocks db (db.buckets.flatten ++ []) := by
    refine consistent.blocks.of_perm ?_
    rw [List.append_nil, List.append_nil]
    exact consistent.table.holds.perm.symm
  have emptied := Blocks.destroyAll _ listed
  have blocks : Blocks db.clearKeyspace [] := emptied.transfer rfl rfl rfl rfl
  have linked : Linked db.clearKeyspace [] [] :=
    { blocks := blocks
      table := ⟨by simpa [Db.clearKeyspace] using consistent.table.size,
        Chains.holds_empty _, List.nodup_nil⟩
      recency :=
        { nodup := List.nodup_nil
          head := rfl
          tail := rfl
          around := by
            intro before cell after split
            simp at split }
      unlinked := nofun
      keyTotal := rfl
      keyHint := rfl }
  have deadlines : Deadlines db.clearKeyspace [] :=
    { valid := IndexedHeap.valid_empty
      member := fun _ known => absurd rfl known
      flags := nofun
      count := rfl
      hint := rfl }
  refine ⟨⟨[], ⟨linked, deadlines⟩, ?_, ?_, rfl⟩, blocks.tracked⟩
  · exact nofun
  · exact nofun

end Db

/-! ## Records -/

namespace WalOp

def ofCode (code : UInt8) : Option WalOp :=
  [set, increment, pushLeft, pushRight, popLeft, popRight, hashSet, hashDel, expireAt, del,
    integerSet].find? (fun op => op.code = code)

/-- The number of arguments `replay` expects. -/
def expected : Option WalOp -> Nat
  | some .hashSet => 4
  | some .pushLeft => 3
  | some .pushRight => 3
  | some .set => 2
  | some .integerSet => 2
  | some .hashDel => 2
  | some .expireAt => 2
  | _ => 1

theorem ofCode_code (op : WalOp) : ofCode op.code = some op := by
  cases op <;> rfl

end WalOp

namespace Database

/-- `throw Error{ErrorCode::disk_read_failed}`. -/
def unreadable {α : Type} : Op α :=
  Cmd.raise (.error .diskReadFailed)

def replayInteger (text : Bytes) : Op Int64 :=
  match parseInt64 text with
  | some n => pure n
  | none => unreadable

/-- The lambda `value` of `replay`; a text is copied. -/
def replayValue (kind text : Bytes) : Op Value := do
  if kind = ascii "i" then do
    let n <- replayInteger text
    pure (.integer n)
  else if kind ≠ ascii "s" then unreadable
  else do
    let _ <- allocate
    pure (.text text)

def succeed {α : Type} (op : Op (Except ErrorCode α)) : Op Unit := do
  match <- op with
  | .ok _ => pure ()
  | .error _ => unreadable

def insertNode (key : Bytes) (type : NodeType) (bodyCapacity : Nat) : Op Addr := do
  maybeRehash
  let addr <- createNode key type bodyCapacity
  modifyDb (Db.enter addr)
  pure addr

/-- Erase the node of a key, if there is one. -/
def eraseFound (key : Bytes) : Op Unit := do
  let world <- Cmd.read
  match world.db.findNode key with
  | none => pure ()
  | some addr => modifyDb (Db.eraseNode addr)

/-- Add an integer under a new key. -/
def insertInteger (key : Bytes) (n : Int64) : Op Unit := do
  let addr <- insertNode key .integer 8
  modifyDb (Db.modifyNode addr (Node.setIntegerValue · n))

/-- The deadline of a stamp: the time left on the wall clock, counted on the
steady clock. -/
def replayExpiry (addr : Addr) (wall : Int64) : Op Unit := do
  let current <- currentUnixMs
  if wall < 0 then unreadable
  else do
    let now <- nowMs
    scheduleExpiry addr (now + if wall > current then wall - current else 0)

def replayExpireAt (key stamp : Bytes) : Op Unit := do
  let world <- Cmd.read
  match world.db.findNode key with
  | none => unreadable
  | some addr =>
      match parseInt64 stamp with
      | none => unreadable
      | some wall => replayExpiry addr wall

/-- The switch of `replay`, on the arguments that were counted before.  It calls
the public operations, which log nothing and ignore deadlines meanwhile. -/
def applyRecord (op : Option WalOp) (arg : Nat -> Bytes) : Op Unit :=
  match op with
  | some .set => set (arg 0) (arg 1)
  | some .integerSet => do
      let n <- replayInteger (arg 1)
      eraseFound (arg 0)
      insertInteger (arg 0) n
  | some .increment => succeed (increment (arg 0))
  | some .pushLeft => do
      let value <- replayValue (arg 1) (arg 2)
      succeed (pushLeft (arg 0) value)
  | some .pushRight => do
      let value <- replayValue (arg 1) (arg 2)
      succeed (pushRight (arg 0) value)
  | some .popLeft => succeed (popLeft (arg 0))
  | some .popRight => succeed (popRight (arg 0))
  | some .hashSet => do
      let value <- replayValue (arg 2) (arg 3)
      succeed (hashAssign (arg 0) (arg 1) value)
  | some .hashDel => succeed (hashDel (arg 0) (arg 1))
  | some .expireAt => replayExpireAt (arg 0) (arg 1)
  | some .del => do
      let _ <- del (arg 0)
      pure ()
  | none => unreadable

def replay (record : Wal.Record) : Op Unit := do
  let op := WalOp.ofCode record.op
  let arg := fun i => record.args.getD i []
  Cmd.require (record.args.length = WalOp.expected op ∧ record.args ≠ [] ∧
    (arg 0).length ≤ Node.maxKeyLength) (.error .diskReadFailed)
  applyRecord op arg

/-- One round of `recover`: the payload and its arguments take memory. -/
def replayFrame (record : Wal.Record) : Op Unit := do
  let _ <- allocate
  replay record

def setReplaying (replaying : Bool) : Op Unit :=
  modifyDb (fun db => { db with replaying := replaying })

/-- The log that `open_wal` makes, or an exception with an empty database. -/
def constructWal (opening : Wal.Opening) : Op Wal :=
  (do
    let _ <- allocate
    Wal.construct opening replayFrame).handle (fun thrown => do
      setReplaying false
      modifyDb Db.clearKeyspace
      Cmd.raise thrown)

def openWal (opening : Wal.Opening) : Op Unit := do
  let world <- Cmd.read
  if world.wal.isSome = true ∨ world.db.keyTotal ≠ 0 then Cmd.raise (.error .diskReadFailed)
  else do
    setReplaying true
    let wal <- constructWal opening
    Cmd.update (fun world => { world with wal := some wal })
    setReplaying false
    removeExpiredLocked noExpiryLimit

/-! ## Compaction -/

/-- The record of a deadline, on the wall clock. -/
def stampEntry (db : Db) (steady wall : Int64) (addr : Addr) : List (Except Exn Wal.Record) :=
  if db.ttlFlag addr then
    let remaining := max 0 ((db.deadline addr).getD 0 - steady)
    if remaining > Int64.maxValue - wall then [.error (.error .valueNotInteger)]
    else [.ok ⟨WalOp.expireAt.code, [db.key addr, decimalInt (wall + remaining).toInt]⟩]
  else []

def valueRecords (db : Db) (addr : Addr) : List Wal.Record :=
  let node := db.node addr
  let key := db.key addr
  match node.type with
  | .string => [⟨WalOp.set.code, [key, node.stringValue]⟩]
  | .integer => [⟨WalOp.integerSet.code, [key, decimalInt node.integerValue.toInt]⟩]
  | .list => node.items.map fun item => ⟨WalOp.pushRight.code, key :: item.logged⟩
  | .hash => node.pairs.map fun pair => ⟨WalOp.hashSet.code, key :: pair.1 :: pair.2.logged⟩

/-- The lambda that writes the new log: the oldest key comes first. -/
def snapshot (db : Db) (steady wall : Int64) : List (Except Exn Wal.Record) :=
  (db.lru.backward db.keyTotal).flatMap fun addr =>
    (valueRecords db addr).map .ok ++ stampEntry db steady wall addr

/-- A writer that runs out of memory before one of its records. -/
def interrupted (memory : Option Nat) (entries : List (Except Exn Wal.Record)) :
    List (Except Exn Wal.Record) :=
  match memory with
  | none => entries
  | some count => entries.take count ++ [.error .badAlloc]

/-- `wal_->compact`. -/
def compactLog (environment : Wal.Compacting) (entries : List (Except Exn Wal.Record)) :
    Cmd Exn Wal Unit :=
  fun wal =>
    match Wal.compact environment entries (Wal.Site.idle wal) with
    | (outcome, site) => (outcome, site.wal)

def compactWal (environment : Wal.Compacting) (memory : Option Nat) : Op Unit := do
  let world <- Cmd.read
  Cmd.require (world.wal.isSome = true) (.error .diskWriteFailed)
  removeExpiredLocked noExpiryLimit
  let steady <- nowMs
  let wall <- currentUnixMs
  let world <- Cmd.read
  onWal (compactLog environment (interrupted memory (snapshot world.db steady wall)))

def flushWal : Op Unit :=
  onWal Wal.flush

/-! ## What the cases of `replay` achieve -/

variable {origin world : World} {space : Keyspace} {records : List Wal.Record} {oversize : Prop}
variable {key : Bytes} {addr : Addr} {fixed : Bytes -> Prop}

/-- The node of a new key is linked before its value is written. -/
theorem insertInteger_spec (reached : Reached origin world [] space records)
    (short : key.length ≤ Node.maxKeyLength) (absent : world.db.findNode key = none) (n : Int64) :
    (insertInteger key n).wp
      (fun _ after => Reached origin after [] (space.put ⟨key, .integer n, none⟩) records)
      (fun thrown after => Thrown origin after [] space records oversize thrown) world := by
  unfold insertInteger insertNode
  simp only [Cmd.wp_bind]
  refine Cmd.wp_mono (maybeRehash_spec reached) ?_ (fun _ _ failed => failed)
  rintro _ rehashed ⟨reached, sameNodes, -⟩
  refine Cmd.wp_mono (createNode_spec reached short (by decide)) ?_ (fun _ _ failed => failed)
  rintro fresh created ⟨reached, ⟨garbage, node⟩, laid, room, same, -⟩
  unfold modifyDb
  rw [Cmd.wp_update, Cmd.wp_pure, Cmd.wp_update]
  rcases fills_setIntegerValue (n := n) garbage (node ▸ laid) (node ▸ room) with
    ⟨fillLaid, fillSize, fillKey, fillHolds⟩
  rw [<- node] at fillLaid fillSize fillKey fillHolds
  have nodeKey : (created.db.node fresh).key = key := by rw [node]; rfl
  have sameKey := fillKey.trans nodeKey.symm
  have modified : Db.Rep (created.db.modifyNode fresh (Node.setIntegerValue · n)) [fresh] space ∧
      _ ∧ _ := reached.rep.modifyPending List.mem_cons_self fillLaid fillSize sameKey
  have freshKey : (created.db.modifyNode fresh (Node.setIntegerValue · n)).key fresh = key := by
    unfold Db.key
    rw [modified.2.2]
    exact fillKey
  have missing : (created.db.modifyNode fresh (Node.setIntegerValue · n)).findNode
      ((created.db.modifyNode fresh (Node.setIntegerValue · n)).key fresh) = none := by
    rw [freshKey, modified.2.1, same, sameNodes]
    exact absent
  have holds : ((created.db.modifyNode fresh (Node.setIntegerValue · n)).node fresh).Holds
      (.integer n) := by
    rw [modified.2.2]
    exact fillHolds
  have committed := (@Db.Rep.commitNew _ _ _ _ _ false modified.1 missing holds).1
  rw [freshKey, <- Db.modifyNode_commitNode sameKey] at committed
  exact @Reached.modifyDb _ _ _ _ _ _ _
    (fun db => (db.enter fresh).modifyNode fresh (Node.setIntegerValue · n)) reached committed
    ⟨rfl, rfl⟩

theorem replaceInteger_spec (reached : Reached origin world [] space records)
    (short : key.length ≤ Node.maxKeyLength) (n : Int64) :
    (eraseFound key >>= fun _ => insertInteger key n).wp
      (fun _ after => Reached origin after [] (space.put ⟨key, .integer n, none⟩) records)
      (fun thrown after => Thrown origin after [] space records oversize thrown ∨
        Thrown origin after [] (space.erase key) records oversize thrown) world := by
  unfold eraseFound
  simp only [Cmd.wp_bind, Cmd.wp_read]
  cases found : world.db.findNode key with
  | none =>
      rw [Cmd.wp_pure]
      exact Cmd.wp_mono (insertInteger_spec reached short found n) (fun _ _ done => done)
        (fun _ _ failed => Or.inl failed)
  | some addr =>
      unfold modifyDb
      rw [Cmd.wp_update]
      have erased := reached.modifyDb (reached.rep.erase found) Db.settings_eraseNode
      have gone := erased.rep.findNode_none (by rw [Keyspace.find_erase, if_pos rfl])
      refine Cmd.wp_mono (insertInteger_spec erased short gone n) ?_
        (fun _ _ failed => Or.inr failed)
      intro _ after done
      have same : (space.erase key).put ⟨key, .integer n, none⟩ =
          space.put ⟨key, .integer n, none⟩ := by
        unfold Keyspace.put
        rw [Keyspace.erase_erase]
      rw [<- same]
      exact done

theorem replayExpireAt_spec (reached : Reached origin world [] space records) (key stamp : Bytes) :
    (replayExpireAt key stamp).wp
      (fun _ after => exists now current wall, origin.Reads now ∧
        current = world.wall.reading 0 ∧ parseInt64 stamp = some wall ∧ 0 ≤ wall ∧
        Reached origin after []
          (space.setDeadline key (some (now + if wall > current then wall - current else 0)))
          records)
      (fun _ after => Kept fixed origin space after) world := by
  unfold replayExpireAt
  rw [Cmd.wp_bind, Cmd.wp_read]
  cases found : world.db.findNode key with
  | none => exact reached.kept Spec.agree_refl
  | some addr =>
      cases parsed : parseInt64 stamp with
      | none => exact reached.kept Spec.agree_refl
      | some wall =>
          simp only [replayExpiry, Cmd.wp_bind]
          refine Cmd.wp_mono (currentUnixMs_spec reached) ?_ (fun _ _ never => never.elim)
          rintro current clocked ⟨isCurrent, reached, same, -⟩
          refine Cmd.wp_ite (fun _ => reached.kept Spec.agree_refl) ?_
          intro positive
          refine Cmd.wp_step (nowMs_spec reached) ?_ (fun _ _ never => never.elim)
          rintro now ready ⟨reads, -, reached, sameReady, -⟩
          have there : ready.db.findNode key = some addr := by
            rw [sameReady, same]
            exact found
          refine Cmd.wp_mono (@scheduleExpiry_spec _ _ _ _ _ False _ _ _ reached there) ?_
            (fun _ _ failed => failed.1.kept Spec.agree_refl)
          rintro _ after ⟨reached, -, -⟩
          exact ⟨now, current, wall, reads, isCurrent, rfl, Int64.not_lt.mp positive, reached⟩

/-! ## What the rest of the code keeps -/

theorem keeps_unreadable {α : Type} : Keeps fixed (unreadable : Op α) :=
  keeps_raise _

theorem keeps_replayInteger (text : Bytes) : Keeps fixed (replayInteger text) := by
  unfold replayInteger
  split
  · exact keeps_pure _
  · exact keeps_unreadable

theorem keeps_replayValue (kind text : Bytes) : Keeps fixed (replayValue kind text) := by
  unfold replayValue
  split
  · exact (keeps_replayInteger text).bind fun _ => keeps_pure _
  · split
    · exact keeps_unreadable
    · exact keeps_allocate.bind fun _ => keeps_pure _

theorem Keeps.succeed {α : Type} {op : Op (Except ErrorCode α)} (keeps : Keeps fixed op) :
    Keeps fixed (succeed op) := by
  refine keeps.bind ?_
  intro outcome
  cases outcome with
  | error code => exact keeps_unreadable
  | ok value => exact keeps_pure _

/-- A record changes no other key than the one it names. -/
theorem keeps_applyRecord (op : Option WalOp) (arg : Nat -> Bytes)
    (short : (arg 0).length ≤ Node.maxKeyLength) : Keeps (· ≠ arg 0) (applyRecord op arg) := by
  cases op with
  | none => exact keeps_unreadable
  | some op =>
      cases op with
      | set => exact (set_spec _ _).keeps (Spec.local_set _)
      | increment => exact ((increment_spec _).keeps Spec.local_increment).succeed
      | pushLeft =>
          refine (keeps_replayValue _ _).bind fun value => ?_
          exact ((listPush_spec _ value true).keeps (Spec.local_listPush value true)).succeed
      | pushRight =>
          refine (keeps_replayValue _ _).bind fun value => ?_
          exact ((listPush_spec _ value false).keeps (Spec.local_listPush value false)).succeed
      | popLeft => exact ((listPop_spec _ true).keeps (Spec.local_listPop true)).succeed
      | popRight => exact ((listPop_spec _ false).keeps (Spec.local_listPop false)).succeed
      | hashSet =>
          refine (keeps_replayValue _ _).bind fun value => ?_
          exact ((hashAssign_spec _ _ value).keeps (Spec.local_hashAssign _ value)).succeed
      | hashDel => exact ((hashDel_spec _ _).keeps (Spec.local_hashDel _)).succeed
      | del => exact ((del_spec _).keeps Spec.local_del).bind fun _ => keeps_pure _
      | expireAt =>
          intro world space ready
          refine Cmd.wp_mono (replayExpireAt_spec ready.reached (arg 0) (arg 1)) ?_
            (fun _ _ kept => kept)
          rintro _ after ⟨now, current, wall, -, -, -, -, reached⟩
          exact reached.kept (Spec.agree_setDeadline Spec.agree_refl)
      | integerSet =>
          refine (keeps_replayInteger _).bind fun n => ?_
          intro world space ready
          refine Cmd.wp_mono (@replaceInteger_spec _ _ _ _ False _ ready.reached short n) ?_ ?_
          · intro _ after reached
            exact reached.kept (Spec.agree_put rfl Spec.agree_refl)
          · rintro thrown after (failed | failed)
            · exact failed.kept Spec.agree_refl
            · exact failed.kept (Spec.agree_erase Spec.agree_refl)

theorem keeps_replay (record : Wal.Record) :
    Keeps (· ≠ record.args.getD 0 []) (replay record) := by
  intro world space ready
  unfold replay
  rw [Cmd.wp_bind]
  refine Cmd.wp_require ?_ (fun _ => ready.kept)
  rintro ⟨-, -, short⟩
  exact keeps_applyRecord _ (fun i => record.args.getD i []) short world space ready

theorem keeps_replayFrame (record : Wal.Record) :
    Keeps (· ≠ record.args.getD 0 []) (replayFrame record) :=
  keeps_allocate.bind fun _ => keeps_replay record

/-- Between two operations, whatever the keyspace is. -/
def Idle (world : World) : Prop :=
  exists space, Ready world space

theorem Kept.idle {after : World} (kept : Kept fixed world space after) : Idle after := by
  rcases kept with ⟨later, ready, -⟩
  exact ⟨later, ready⟩

theorem Keeps.idle {α : Type} {op : Op α} (keeps : Keeps fixed op) {world : World}
    (idle : Idle world) :
    op.wp (fun _ after => Idle after) (fun _ after => Idle after) world := by
  rcases idle with ⟨space, ready⟩
  exact Cmd.wp_mono (keeps world space ready) (fun _ _ kept => kept.idle)
    (fun _ _ kept => kept.idle)

theorem Ready.setReplaying {replaying : Bool} (ready : Ready world space) :
    Ready { world with db := { world.db with replaying := replaying } } space := by
  rcases ready with ⟨⟨order, consistent, valid, waiting, entries⟩, sound⟩
  exact ⟨⟨order, ⟨consistent.toLinked.transfer rfl rfl rfl rfl rfl rfl rfl rfl,
    consistent.deadlines.transfer rfl rfl rfl rfl⟩, valid, waiting, entries⟩, sound⟩

theorem Idle.setReplaying {replaying : Bool} (idle : Idle world) :
    Idle { world with db := { world.db with replaying := replaying } } := by
  rcases idle with ⟨space, ready⟩
  exact ⟨space, ready.setReplaying⟩

theorem replaying_clearKeyspace (db : Db) : db.clearKeyspace.replaying = db.replaying := by
  have destroyed : forall (nodes : List Addr) (db : Db),
      (nodes.foldl (fun db addr => db.destroy addr) db).replaying = db.replaying := by
    intro nodes
    induction nodes with
    | nil => exact fun _ => rfl
    | cons addr rest ih => exact fun db => ih (db.destroy addr)
  exact destroyed _ db

theorem constructWal_spec (opening : Wal.Opening) (idle : Idle world) :
    (constructWal opening).wp (fun wal after => Idle after ∧ Wal.Sound wal)
      (fun _ after => Ready after [] ∧ after.db.replaying = false) world := by
  unfold constructWal
  rw [Cmd.wp_handle]
  have body : (do
      let _ <- allocate
      Wal.construct opening replayFrame : Op Wal).wp
      (fun wal after => Idle after ∧ Wal.Sound wal) (fun _ after => Idle after) world := by
    refine Cmd.wp_step ((@keeps_allocate (fun _ => False)).idle idle) ?_ (fun _ _ kept => kept)
    intro _ later idle
    refine Cmd.wp_mono (Wal.construct_spec (fun _ kept => kept)
      (fun record _ => (keeps_replayFrame record).idle) opening idle) ?_ (fun _ _ kept => kept)
    rintro wal after ⟨idle, started⟩
    exact ⟨idle, started.sound⟩
  refine Cmd.wp_mono body (fun _ _ done => done) ?_
  intro thrown after failed
  unfold Database.setReplaying modifyDb
  rw [Cmd.wp_bind, Cmd.wp_update, Cmd.wp_bind, Cmd.wp_update, Cmd.wp_raise]
  have stopped : Idle { after with db := { after.db with replaying := false } } :=
    failed.setReplaying
  rcases stopped with ⟨space, ready⟩
  exact ⟨⟨ready.rep.clearKeyspace.1, ready.sound⟩, replaying_clearKeyspace _⟩

/-! ## Between two calls -/

/-- The states between two calls: no operation is under way, and no replay. -/
structure Resting (world : World) : Prop where
  idle : Idle world
  live : world.db.replaying = false

/-- Code that leads from such a state to another one, however it ends. -/
def Rests {α : Type} (op : Op α) : Prop :=
  forall world, Resting world -> op.wp (fun _ => Resting) (fun _ => Resting) world

theorem Keeps.rests {α : Type} {op : Op α} (keeps : Keeps (fun _ => False) op) : Rests op := by
  rintro world ⟨⟨space, ready⟩, live⟩
  have kept : forall after, Kept (fun _ => False) world space after -> Resting after := by
    rintro after ⟨later, ready, -, evolves⟩
    exact ⟨⟨later, ready⟩, evolves.replaying.trans live⟩
  exact Cmd.wp_mono (keeps world space ready) (fun _ => kept) (fun _ => kept)

theorem Rests.bind {α β : Type} {op : Op α} {rest : α -> Op β} (first : Rests op)
    (second : forall value, Rests (rest value)) : Rests (op >>= rest) :=
  fun world resting => Cmd.wp_step (first world resting)
    (fun value middle => second value middle) (fun _ _ kept => kept)

theorem Rests.read {α : Type} {rest : World -> Op α} (each : forall world, Rests (rest world)) :
    Rests (Cmd.read >>= rest) :=
  fun world resting => each world world resting

theorem Ready.attach {wal : Wal} (ready : Ready world space) (sound : Wal.Sound wal) :
    Ready { world with wal := some wal } space := by
  refine ⟨ready.rep, ?_⟩
  rintro other equal
  cases equal
  exact sound

theorem rests_openWal (opening : Wal.Opening) : Rests (openWal opening) := by
  intro world resting
  unfold openWal
  rw [Cmd.wp_bind, Cmd.wp_read]
  refine Cmd.wp_ite (fun _ => resting) fun _ => ?_
  unfold setReplaying modifyDb
  rw [Cmd.wp_bind, Cmd.wp_update, Cmd.wp_bind]
  have started : Idle { world with db := { world.db with replaying := true } } :=
    resting.idle.setReplaying
  refine Cmd.wp_mono (constructWal_spec opening started) ?_
    (fun _ _ emptied => ⟨⟨[], emptied.1⟩, emptied.2⟩)
  rintro wal after ⟨⟨later, replayed⟩, sound⟩
  rw [Cmd.wp_bind, Cmd.wp_update, Cmd.wp_bind, Cmd.wp_update]
  have attached : Idle { after with wal := some wal } := ⟨later, replayed.attach sound⟩
  exact (keeps_removeExpiredLocked noExpiryLimit).rests _ ⟨attached.setReplaying, rfl⟩

theorem keeps_nowMs : Keeps fixed nowMs := by
  intro world space ready
  refine Cmd.wp_mono (nowMs_spec ready.reached) ?_ (fun _ _ never => never.elim)
  rintro _ after ⟨-, -, reached, -, -⟩
  exact reached.kept Spec.agree_refl

theorem keeps_currentUnixMs : Keeps fixed currentUnixMs := by
  intro world space ready
  refine Cmd.wp_mono (currentUnixMs_spec ready.reached) ?_ (fun _ _ never => never.elim)
  rintro _ after ⟨-, reached, -, -⟩
  exact reached.kept Spec.agree_refl

/-- A compaction leaves a sound log behind. -/
theorem compactLog_sound (environment : Wal.Compacting) (entries : List (Except Exn Wal.Record))
    {wal : Wal} (sound : Wal.Sound wal) :
    (compactLog environment entries).wp (fun _ after => Wal.Sound after)
      (fun _ after => Wal.Sound after) wal := by
  have spec := @Wal.compact_spec environment entries wal sound
  unfold Cmd.wp at spec
  unfold compactLog Cmd.wp
  rcases ran : Wal.compact environment entries (Wal.Site.idle wal) with ⟨thrown | _, site⟩
  · rw [ran] at spec
    simp only [ran]
    exact spec
  · rw [ran] at spec
    simp only [ran]
    exact spec.2

theorem rests_compactWal (environment : Wal.Compacting) (memory : Option Nat) :
    Rests (compactWal environment memory) := by
  refine Rests.read fun world => (keeps_require _ _).rests.bind fun _ => ?_
  refine (keeps_removeExpiredLocked _).rests.bind fun _ => ?_
  refine keeps_nowMs.rests.bind fun steady => keeps_currentUnixMs.rests.bind fun wall => ?_
  refine Rests.read fun _ last resting => wp_onWal (fun _ => resting) fun wal here => ?_
  rcases resting with ⟨⟨space, ready⟩, live⟩
  exact Cmd.wp_mono (compactLog_sound environment _ (ready.sound wal here))
    (fun _ _ sound => ⟨⟨space, ready.attach sound⟩, live⟩)
    (fun _ _ sound => ⟨⟨space, ready.attach sound⟩, live⟩)

/-- Calls on the log do not touch the keyspace. -/
theorem keeps_onWal {body : Cmd Exn Wal Unit}
    (keeps : forall wal, Wal.Sound wal ->
      body.wp (fun _ after => Wal.Sound after ∧ Wal.Evolves wal after)
      (fun _ after => Wal.Sound after ∧ Wal.Evolves wal after) wal) : Keeps fixed (onWal body) := by
  intro world space ready
  refine wp_onWal (fun _ => ready.kept) fun wal here => ?_
  have kept : forall last, Wal.Sound last ∧ Wal.Evolves wal last ->
      Kept fixed world space { world with wal := some last } := by
    rintro last ⟨sound, evolves⟩
    refine ⟨space, ready.attach sound, Spec.agree_refl, { World.Evolves.refl world with wal := ?_ }⟩
    rw [here]
    exact Option.Rel.some evolves
  exact Cmd.wp_mono (keeps wal (ready.sound wal here)) (fun _ => kept) (fun _ => kept)

theorem keeps_flushWal : Keeps fixed flushWal :=
  keeps_onWal fun _ sound => Cmd.wp_mono (Wal.flush_spec sound)
    (fun _ _ done => ⟨done.1, done.2.1.toEvolves⟩)
    (fun _ _ failed => ⟨failed.1, failed.2.1.toEvolves⟩)

theorem keeps_beginWalBatch : Keeps fixed beginWalBatch :=
  keeps_onWal fun _ sound => Cmd.wp_mono (Wal.beginBatch_spec sound)
    (fun _ _ done => ⟨done.1, done.2.1⟩) (fun _ _ never => never.elim)

theorem keeps_endWalBatch : Keeps fixed endWalBatch :=
  keeps_onWal fun _ sound => Cmd.wp_mono (Wal.endBatch_spec sound)
    (fun _ _ done => ⟨done.1, done.2.1⟩) (fun _ _ failed => ⟨failed.1, failed.2.1⟩)

end Database

end Reddish
