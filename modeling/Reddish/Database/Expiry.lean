import Reddish.Database.Calls

namespace Reddish

open Library Numeral

/-!
# Deletion, deadlines and eviction

`del`, `expire` and `ttl` name a key; `remove_expired` and `evict_to` choose
their keys themselves.  The latter two run as one batch of the log and may stop
half way when the log fails, so their specifications say which keys have gone
after any number of rounds.
-/

namespace Database

open Cmd (onlyIf)

/-! ## Operations on one key -/

/-- Log a deletion and erase the node. -/
def eraseLogged (addr : Addr) (key : Bytes) : Op Bool := do
  log .del [key]
  modifyDb (Db.eraseNode addr)
  pure true

def del (key : Bytes) : Op Bool := do
  match <- findWritable key with
  | none => pure false
  | some addr => eraseLogged addr key

/-- `max_seconds` of `expire`. -/
def maxSeconds (now wall : Int64) : Int64 :=
  (Int64.maxValue - max now wall) / 1000

/-- The catch block of `expire`: a negative number stands for no deadline. -/
def restoreDeadline (addr : Addr) (previous : Int64) : Op Unit :=
  if previous < 0 then modifyDb (Db.clearExpiry addr) else scheduleExpiry addr previous

/-- The end of `expire`: set the deadline, log it, and take it back if that
fails. -/
def expireAt (addr : Addr) (key : Bytes) (deadline : Int64) (stamp : Bytes) : Op Bool := do
  let world <- Cmd.read
  let previous := (world.db.deadline addr).getD (-1)
  scheduleExpiry addr deadline
  (log .expireAt [key, stamp]).handle (fun thrown => do
    restoreDeadline addr previous
    Cmd.raise thrown)
  pure true

/-- The branch of `expire` for a positive number of seconds.  The wall clock is
read twice, and the text of the stamp may need memory. -/
def expireLater (addr : Addr) (key : Bytes) (seconds : Int64) : Op Bool := do
  let now <- nowMs
  let wall <- currentUnixMs
  if seconds > maxSeconds now wall then Cmd.raise (.error .valueNotInteger)
  else do
    let wall <- currentUnixMs
    let _ <- allocate
    expireAt addr key (now + seconds * 1000) (decimalInt (wall + seconds * 1000).toInt)

def expire (key : Bytes) (seconds : Int64) : Op Bool := do
  match <- findWritable key with
  | none => pure false
  | some addr => if seconds ≤ 0 then eraseLogged addr key else expireLater addr key seconds

/-- The answer of `ttl` for a deadline. -/
def remainingSeconds (deadline now : Int64) : Int64 :=
  if deadline - now ≤ 0 then -2 else (deadline - now) / 1000

def ttl (key : Bytes) : Op Int64 := do
  match <- findActive key with
  | none => pure (-2)
  | some addr => do
      let world <- Cmd.read
      match world.db.deadline addr with
      | none => pure (-1)
      | some deadline => do
          let now <- nowMs
          pure (remainingSeconds deadline now)

/-! ## Operations that choose their keys -/

def beginWalBatch : Op Unit :=
  onWal Wal.beginBatch

def endWalBatch : Op Unit :=
  onWal Wal.endBatch

/-- Run code as one batch of the log, which also ends after an exception. -/
def inWalBatch {α : Type} (body : Op α) : Op α := do
  beginWalBatch
  let result <- body.handle (fun thrown => do
    endWalBatch
    Cmd.raise thrown)
  endWalBatch
  pure result

def noExpiryLimit : Nat := 2 ^ 64 - 1

/-- The loop of `remove_expired_locked`: the first node of the heap is erased as
long as it is due, and its deletion is logged before. -/
def reapDue (now : Int64) : Nat -> Op Unit
  | 0 => pure ()
  | limit + 1 => do
      let world <- Cmd.read
      match world.db.expiries.order.head? with
      | none => pure ()
      | some addr =>
          if (world.db.deadline addr).getD 0 > now then pure ()
          else do
            log .del [world.db.key addr]
            modifyDb (Db.expireNode addr)
            reapDue now limit

def removeExpiredLocked (limit : Nat) : Op Unit := do
  let now <- nowMs
  inWalBatch (reapDue now limit)

def removeExpired (limit : Nat) : Op Unit := do
  let world <- Cmd.read
  onlyIf (world.db.ttlHint = true) (removeExpiredLocked limit)

/-- The loop of `evict_to`; the result counts the evicted keys. -/
def evictOldest (target : Nat) : Nat -> Op Nat
  | 0 => pure 0
  | limit + 1 => do
      let world <- Cmd.read
      if world.db.keyTotal ≤ target then pure 0
      else
        match world.db.lru.tail with
        | none => pure 0
        | some victim => do
            log .del [world.db.key victim]
            modifyDb (Db.evictNode victim)
            let evicted <- evictOldest target limit
            pure (evicted + 1)

def evictTo (target limit : Nat) : Op Nat :=
  inWalBatch (evictOldest target limit)

end Database

/-! ## Specifications -/

namespace Spec

def del (key : Bytes) (time : Option Int64) (space : Keyspace) : Outcome Bool :=
  let start := writable time key space
  match start.result with
  | none => ⟨false, start.space, start.records⟩
  | some _ => ⟨true, start.space.erase key, start.records ++ [record .del [key]]⟩

/-- `expire` gives the key a deadline on the steady clock and logs the same
moment on the wall clock; without time left the key is removed. -/
def expire (key : Bytes) (seconds now wall : Int64) (time : Option Int64) (space : Keyspace) :
    Outcome Bool :=
  let start := writable time key space
  match start.result with
  | none => ⟨false, start.space, start.records⟩
  | some _ =>
      if seconds ≤ 0 then ⟨true, start.space.erase key, start.records ++ [record .del [key]]⟩
      else ⟨true, start.space.setDeadline key (some (now + seconds * 1000)), start.records ++
        [record .expireAt [key, decimalInt (wall + seconds * 1000).toInt]]⟩

def ttl (now : Int64) : Option Entry -> Int64
  | none => -2
  | some entry =>
      match entry.deadline with
      | none => -1
      | some deadline => Database.remainingSeconds deadline now

/-- Up to `limit` due keys have been removed, one with the earliest deadline
each time; fewer only if no other key is due. -/
inductive Reaps (now : Int64) : Nat -> Keyspace -> List Bytes -> Keyspace -> Prop where
  | full (space : Keyspace) : Reaps now 0 space [] space
  | done (limit : Nat) (space : Keyspace)
      (later : forall entry, entry ∈ space -> forall moment, entry.deadline = some moment ->
        now < moment) : Reaps now limit space [] space
  | next {limit : Nat} {space rest : Keyspace} {keys : List Bytes} {key : Bytes} {entry : Entry}
      {moment : Int64} (found : space.find key = some entry)
      (deadline : entry.deadline = some moment) (due : moment ≤ now)
      (earliest : forall other, other ∈ space -> forall later, other.deadline = some later ->
        moment ≤ later)
      (more : Reaps now limit (space.erase key) keys rest) :
      Reaps now (limit + 1) space (key :: keys) rest

def deletions (keys : List Bytes) : List Wal.Record :=
  keys.map fun key => record .del [key]

/-- `evict_to` removes the keys that were not used for the longest time, until
`target` of them are left or `limit` of them have gone. -/
def evict (target : Nat) : Nat -> Keyspace -> Outcome Nat
  | 0, space => ⟨0, space, []⟩
  | limit + 1, space =>
      if space.length ≤ target then ⟨0, space, []⟩
      else
        match space.getLast? with
        | none => ⟨0, space, []⟩
        | some oldest =>
            let rest := evict target limit space.dropLast
            ⟨rest.result + 1, rest.space, record .del [oldest.key] :: rest.records⟩

end Spec

variable {origin world : World} {pending : List Addr} {space later : Keyspace}
variable {records : List Wal.Record} {oversize : Prop} {thrown : Exn}
variable {addr : Addr} {key : Bytes} {now : Int64}

/-! ## Calls on the log that append nothing -/

/-- A call that appends nothing keeps what was reached. -/
theorem Reached.quietWal {wal last : Wal} (reached : Reached origin world pending space records)
    (here : world.wal = some wal) (sound : Wal.Sound last) (evolves : Wal.Evolves wal last)
    (same : last.appended = wal.appended) :
    Reached origin { world with wal := some last } pending space records where
  rep := reached.rep
  sound := by
    rintro other equal
    cases equal
    exact sound
  evolves := by
    refine reached.evolves.trans { World.Evolves.refl world with wal := ?_ }
    rw [here]
    exact Option.Rel.some evolves
  logged := by
    rw [<- reached.logged, World.records, World.records, here]
    exact same

/-- The same after an exception, which may be replaced by that of the call. -/
theorem Thrown.quietWal {wal last : Wal} {other : Exn}
    (failed : Thrown origin world pending space records oversize thrown)
    (here : world.wal = some wal) (sound : Wal.Sound last) (evolves : Wal.Evolves wal last)
    (same : last.appended = wal.appended)
    (either : other = thrown ∨ other = .error .diskWriteFailed) :
    Thrown origin { world with wal := some last } pending space records oversize other where
  rep := failed.rep
  sound := by
    rintro other equal
    cases equal
    exact sound
  evolves := by
    refine failed.evolves.trans { World.Evolves.refl world with wal := ?_ }
    rw [here]
    exact Option.Rel.some evolves
  logged := by
    rcases failed.logged with kept | ⟨disk, broken, there, down⟩
    · refine Or.inl ?_
      rw [<- kept, World.records, World.records, here]
      exact same
    · rw [here] at there
      cases there
      refine Or.inr ⟨?_, last, rfl, (evolves.sticky down).1⟩
      rcases either with rfl | equal
      · exact disk
      · exact equal
  cause := failed.cause

namespace Database

theorem beginWalBatch_spec (reached : Reached origin world pending space records) :
    beginWalBatch.wp
      (fun _ after => Reached origin after pending space records ∧ after.db = world.db ∧
        after.wall = world.wall) (fun _ _ => False) world := by
  unfold beginWalBatch
  refine wp_onWal (fun _ => ⟨reached, rfl, rfl⟩) ?_
  intro wal here
  refine Cmd.wp_mono (Wal.beginBatch_spec (reached.sound wal here)) ?_ (fun _ _ never => never)
  rintro _ last ⟨sound, evolves, same⟩
  exact ⟨reached.quietWal here sound evolves same, rfl, rfl⟩

theorem endWalBatch_spec (reached : Reached origin world pending space records) :
    endWalBatch.wp
      (fun _ after => Reached origin after pending space records)
      (fun thrown after =>
        Thrown origin after pending space records (origin.wal.isSome = true) thrown) world := by
  unfold endWalBatch
  refine wp_onWal (fun _ => reached) ?_
  intro wal here
  refine Cmd.wp_mono (Wal.endBatch_spec (reached.sound wal here)) ?_ ?_
  · rintro _ last ⟨sound, evolves, same, -⟩
    exact reached.quietWal here sound evolves same
  · rintro thrown last ⟨sound, evolves, same, -, -⟩
    refine (reached.quietWal here sound evolves same).toThrown (Or.inr (Or.inr ?_))
    have wal := reached.evolves.wal
    rw [here] at wal
    cases before : origin.wal with
    | none =>
        rw [before] at wal
        cases wal
    | some first => rfl

theorem endWalBatch_thrown {α : Type}
    (failed : Thrown origin world pending space records oversize thrown) :
    (endWalBatch >>= fun _ => (Cmd.raise thrown : Op α)).wp (fun _ _ => False)
      (fun thrown after => Thrown origin after pending space records oversize thrown) world := by
  unfold endWalBatch
  rw [Cmd.wp_bind]
  refine wp_onWal (fun _ => failed) ?_
  intro wal here
  refine Cmd.wp_mono (Wal.endBatch_spec (failed.sound wal here)) ?_ ?_
  · rintro _ last ⟨sound, evolves, same, -⟩
    exact failed.quietWal here sound evolves same (Or.inl rfl)
  · rintro other last ⟨sound, evolves, same, disk, -⟩
    exact failed.quietWal here sound evolves same (Or.inr disk)

/-- A batch does what its body does; it may fail at its end as well. -/
theorem inWalBatch_spec {α : Type} {body : Op α} {done : α -> Keyspace -> List Wal.Record -> Prop}
    {broken : Keyspace -> List Wal.Record -> Prop}
    (reached : Reached origin world [] space records)
    (implies : forall value later more, done value later more -> broken later more)
    (holds : forall inside, Reached origin inside [] space records ->
      body.wp
        (fun value after => exists later more, done value later more ∧
          Reached origin after [] later more)
        (fun thrown after => exists later more, broken later more ∧
          Thrown origin after [] later more (origin.wal.isSome = true) thrown) inside) :
    (inWalBatch body).wp
      (fun value after => exists later more, done value later more ∧
        Reached origin after [] later more)
      (fun thrown after => exists later more, broken later more ∧
        Thrown origin after [] later more (origin.wal.isSome = true) thrown) world := by
  unfold inWalBatch
  refine Cmd.wp_step (beginWalBatch_spec reached) ?_ (fun _ _ never => never.elim)
  rintro _ inside ⟨begun, -, -⟩
  rw [Cmd.wp_bind, Cmd.wp_handle]
  refine Cmd.wp_mono (holds inside begun) ?_ ?_
  · rintro value after ⟨later, more, finished, reached⟩
    refine Cmd.wp_step (endWalBatch_spec reached) ?_ ?_
    · intro _ last ended
      exact ⟨later, more, finished, ended⟩
    · intro thrown last failed
      exact ⟨later, more, implies value later more finished, failed⟩
  · rintro thrown after ⟨later, more, partly, failed⟩
    refine Cmd.wp_mono (endWalBatch_thrown failed) (fun _ _ never => never.elim) ?_
    intro other last ended
    exact ⟨later, more, partly, ended⟩

end Database

/-! ## The earliest deadline and the oldest key -/

namespace Db

variable {db : Db}

/-- The first node of the heap has a deadline, and none is earlier. -/
theorem Rep.first_due (rep : Rep db [] space) (first : db.expiries.order.head? = some addr) :
    exists moment, db.deadline addr = some moment ∧
      db.findNode (db.key addr) = some addr ∧
      forall entry, entry ∈ space -> forall later, entry.deadline = some later ->
        moment ≤ later := by
  rcases rep with ⟨order, consistent, -, -, rfl⟩
  have valid := consistent.deadlines.valid
  have known : db.deadline addr ≠ none :=
    valid.coherent.mem_iff.mp (List.mem_of_mem_head? (by rw [first]; rfl))
  rcases Option.ne_none_iff_exists'.mp known with ⟨moment, deadline⟩
  have member : addr ∈ order := by
    simpa using consistent.deadlines.member addr known
  refine ⟨moment, deadline, consistent.findNode_of_mem member, ?_⟩
  intro entry inside later isLater
  rcases List.mem_map.mp inside with ⟨other, -, rfl⟩
  exact Int64.le_iff_toInt_le.mpr (valid.first_le first deadline isLater)

theorem Rep.no_deadline (rep : Rep db [] space) (empty : db.expiries.order.head? = none) :
    forall entry, entry ∈ space -> entry.deadline = none := by
  rcases rep with ⟨order, consistent, -, -, rfl⟩
  intro entry inside
  rcases List.mem_map.mp inside with ⟨other, -, rfl⟩
  have nobody : other ∉ db.expiries.order := by
    rw [List.head?_eq_none_iff.mp empty]
    exact List.not_mem_nil
  by_contra known
  exact nobody (consistent.deadlines.valid.coherent.mem_iff.mpr known)

theorem Rep.length (rep : Rep db [] space) : db.keyTotal = space.length := by
  rcases rep with ⟨order, consistent, -, -, rfl⟩
  rw [consistent.keyTotal, List.length_map]

/-- The last node of the recency list belongs to the last entry. -/
theorem Rep.oldest (rep : Rep db [] space) :
    space.getLast? = db.lru.tail.map db.entry ∧
      forall addr, db.lru.tail = some addr -> db.findNode (db.key addr) = some addr ∧
        space.erase (db.key addr) = space.dropLast := by
  rcases rep with ⟨order, consistent, -, -, rfl⟩
  refine ⟨?_, ?_⟩
  · rw [List.getLast?_map, consistent.recency.tail]
  · intro addr last
    rw [consistent.recency.tail] at last
    have member : addr ∈ order := List.mem_of_getLast? last
    refine ⟨consistent.findNode_of_mem member, ?_⟩
    have keys := consistent.table.keys
    rcases List.getLast?_eq_some_iff.mp last with ⟨front, rfl⟩
    rw [List.map_append, List.map_singleton, List.dropLast_concat]
    rw [List.map_append, List.nodup_append] at keys
    unfold Keyspace.erase
    rw [List.filter_append]
    have kept : (front.map db.entry).filter (fun entry => decide (entry.key ≠ db.key addr)) =
        front.map db.entry := by
      refine List.filter_eq_self.mpr ?_
      intro entry inside
      rcases List.mem_map.mp inside with ⟨other, there, rfl⟩
      have different := keys.2.2 (db.key other) (List.mem_map_of_mem there) (db.key addr)
        (by simp)
      exact decide_eq_true different
    rw [kept]
    simp [Db.entry]

end Db

namespace Database

/-! ## The loops -/

/-- Each round of the loop removes a key with the earliest deadline. -/
theorem reapDue_spec (now : Int64) (limit : Nat) :
    forall {world : World} {space : Keyspace} {records : List Wal.Record},
      Reached origin world [] space records ->
      (reapDue now limit).wp
        (fun _ after => exists keys later, Spec.Reaps now limit space keys later ∧
          Reached origin after [] later (records ++ Spec.deletions keys))
        (fun thrown after => exists rounds keys later, rounds ≤ limit ∧
          Spec.Reaps now rounds space keys later ∧
          Thrown origin after [] later (records ++ Spec.deletions keys) oversize thrown) world := by
  induction limit with
  | zero =>
      intro world space records reached
      exact ⟨[], space, .full space, by simpa [Spec.deletions] using reached⟩
  | succ limit ih =>
      intro world space records reached
      unfold reapDue
      rw [Cmd.wp_bind, Cmd.wp_read]
      cases first : world.db.expiries.order.head? with
      | none =>
          refine ⟨[], space, .done _ space ?_, by simpa [Spec.deletions] using reached⟩
          intro entry inside moment deadline
          rw [reached.rep.no_deadline first entry inside] at deadline
          cases deadline
      | some addr =>
          rcases reached.rep.first_due first with ⟨moment, deadline, found, earliest⟩
          dsimp only
          rw [deadline, Option.getD_some]
          refine Cmd.wp_ite ?_ ?_
          · intro early
            refine ⟨[], space, .done _ space ?_, by simpa [Spec.deletions] using reached⟩
            intro entry inside other isOther
            exact Int64.lt_of_lt_of_le early (earliest entry inside other isOther)
          · intro late
            have due : moment ≤ now := Int64.not_lt.mp late
            have located : space.find (world.db.key addr) = some (world.db.entry addr) :=
              reached.rep.find_some found
            have round : forall {rounds keys rest},
                Spec.Reaps now rounds (space.erase (world.db.key addr)) keys rest ->
                Spec.Reaps now (rounds + 1) space (world.db.key addr :: keys) rest :=
              fun more => .next located deadline due earliest more
            refine Cmd.wp_step (@log_spec _ _ _ _ _ oversize reached .del [world.db.key addr])
              ?_ ?_
            · rintro _ logged ⟨reached, same, -, -⟩
              unfold modifyDb
              rw [Cmd.wp_bind, Cmd.wp_update]
              have there : logged.db.findNode (world.db.key addr) = some addr := by
                rw [same]
                exact found
              have erased := reached.modifyDb (reached.rep.expireNode there) Db.settings_eraseNode
              refine Cmd.wp_mono (ih erased) ?_ ?_
              · rintro _ after ⟨keys, later, reaps, reached⟩
                refine ⟨world.db.key addr :: keys, later, round reaps, ?_⟩
                simpa [Spec.deletions] using reached
              · rintro thrown after ⟨rounds, keys, later, bound, reaps, failed⟩
                refine ⟨rounds + 1, world.db.key addr :: keys, later, Nat.succ_le_succ bound,
                  round reaps, ?_⟩
                simpa [Spec.deletions] using failed
            · rintro thrown after ⟨failed, -, -⟩
              refine ⟨0, [], space, Nat.zero_le _, .full space, ?_⟩
              simpa [Spec.deletions] using failed

/-- Each round of the loop removes the oldest key. -/
theorem evictOldest_spec (target limit : Nat) :
    forall {world : World} {space : Keyspace} {records : List Wal.Record},
      Reached origin world [] space records ->
      (evictOldest target limit).wp
        (fun evicted after => evicted = (Spec.evict target limit space).result ∧
          Reached origin after [] (Spec.evict target limit space).space
            (records ++ (Spec.evict target limit space).records))
        (fun thrown after => exists rounds, rounds ≤ limit ∧
          Thrown origin after [] (Spec.evict target rounds space).space
            (records ++ (Spec.evict target rounds space).records) oversize thrown) world := by
  induction limit with
  | zero =>
      intro world space records reached
      exact ⟨rfl, by simpa [Spec.evict] using reached⟩
  | succ limit ih =>
      intro world space records reached
      have oldest := reached.rep.oldest
      unfold evictOldest
      rw [Cmd.wp_bind, Cmd.wp_read, reached.rep.length]
      refine Cmd.wp_ite ?_ ?_
      · intro few
        unfold Spec.evict
        rw [if_pos few]
        exact ⟨rfl, by simpa using reached⟩
      · intro many
        cases tail : world.db.lru.tail with
        | none =>
            rw [tail] at oldest
            unfold Spec.evict
            rw [if_neg many, oldest.1]
            exact ⟨rfl, by simpa using reached⟩
        | some victim =>
            rw [tail] at oldest
            rcases oldest.2 victim rfl with ⟨found, shorter⟩
            have round : forall rounds, Spec.evict target (rounds + 1) space =
                ⟨(Spec.evict target rounds space.dropLast).result + 1,
                  (Spec.evict target rounds space.dropLast).space,
                  Spec.record .del [world.db.key victim] ::
                    (Spec.evict target rounds space.dropLast).records⟩ := by
              intro rounds
              conv_lhs => unfold Spec.evict
              rw [if_neg many, oldest.1]
              rfl
            simp only [Cmd.wp_bind]
            refine Cmd.wp_mono (@log_spec _ _ _ _ _ oversize reached .del [world.db.key victim])
              ?_ ?_
            · rintro _ logged ⟨reached, same, -, -⟩
              unfold modifyDb
              rw [Cmd.wp_update]
              have there : logged.db.findNode (world.db.key victim) = some victim := by
                rw [same]
                exact found
              have erased := reached.modifyDb (reached.rep.evictNode there) Db.settings_eraseNode
              rw [shorter] at erased
              refine Cmd.wp_mono (ih erased) ?_ ?_
              · rintro evicted after ⟨rfl, reached⟩
                rw [round limit]
                exact ⟨rfl, by simpa using reached⟩
              · rintro thrown after ⟨rounds, bound, failed⟩
                refine ⟨rounds + 1, Nat.succ_le_succ bound, ?_⟩
                rw [round rounds]
                simpa using failed
            · rintro thrown after ⟨failed, -, -⟩
              refine ⟨0, Nat.zero_le _, ?_⟩
              simpa [Spec.evict] using failed

/-- What `remove_expired` achieves: due keys are removed, the earliest first,
until the limit is reached or none is left, and each deletion is logged. -/
def Reaped (world after : World) (space : Keyspace) (limit : Nat) : Prop :=
  exists now keys later, world.Reads now ∧ Spec.Reaps now limit space keys later ∧
    Reached world after [] later (Spec.deletions keys)

/-- What an interrupted `remove_expired` leaves behind. -/
def ReapedPartly (world after : World) (space : Keyspace) (limit : Nat) (thrown : Exn) : Prop :=
  exists now rounds keys later, world.Reads now ∧ rounds ≤ limit ∧
    Spec.Reaps now rounds space keys later ∧
    Thrown world after [] later (Spec.deletions keys) (world.wal.isSome = true) thrown

/-- The batch of `remove_expired_locked`, once the clock was read. -/
theorem reapBatch_spec (reached : Reached origin world [] space []) (now : Int64) (limit : Nat) :
    (inWalBatch (reapDue now limit)).wp
      (fun _ after => exists keys later, Spec.Reaps now limit space keys later ∧
        Reached origin after [] later (Spec.deletions keys))
      (fun thrown after => exists rounds keys later, rounds ≤ limit ∧
        Spec.Reaps now rounds space keys later ∧
        Thrown origin after [] later (Spec.deletions keys) (origin.wal.isSome = true) thrown)
      world := by
  have batch := @inWalBatch_spec origin world space [] Unit (reapDue now limit)
    (fun _ later more => exists keys, Spec.Reaps now limit space keys later ∧
      more = Spec.deletions keys)
    (fun later more => exists rounds keys, rounds ≤ limit ∧
      Spec.Reaps now rounds space keys later ∧ more = Spec.deletions keys) reached ?_ ?_
  · refine Cmd.wp_mono batch ?_ ?_
    · rintro _ after ⟨later, _, ⟨keys, reaps, rfl⟩, reached⟩
      exact ⟨keys, later, reaps, reached⟩
    · rintro thrown after ⟨later, _, ⟨rounds, keys, bound, reaps, rfl⟩, failed⟩
      exact ⟨rounds, keys, later, bound, reaps, failed⟩
  · rintro _ later more ⟨keys, reaps, equal⟩
    exact ⟨limit, keys, Nat.le_refl _, reaps, equal⟩
  · intro inside reached
    refine Cmd.wp_mono (@reapDue_spec _ (origin.wal.isSome = true) now limit _ _ _ reached) ?_ ?_
    · rintro _ after ⟨keys, later, reaps, reached⟩
      exact ⟨later, _, ⟨keys, reaps, rfl⟩, reached⟩
    · rintro thrown after ⟨rounds, keys, later, bound, reaps, failed⟩
      exact ⟨later, _, ⟨rounds, keys, bound, reaps, rfl⟩, failed⟩

theorem removeExpiredLocked_spec (ready : Ready world space) (limit : Nat) :
    (removeExpiredLocked limit).wp (fun _ after => Reaped world after space limit)
      (fun thrown after => ReapedPartly world after space limit thrown) world := by
  unfold removeExpiredLocked
  refine Cmd.wp_step (nowMs_spec ready.reached) ?_ (fun _ _ never => never.elim)
  rintro now clocked ⟨reads, -, reached, -, -⟩
  refine Cmd.wp_mono (reapBatch_spec reached now limit) ?_ ?_
  · rintro _ after ⟨keys, later, reaps, reached⟩
    exact ⟨now, keys, later, reads, reaps, reached⟩
  · rintro thrown after ⟨rounds, keys, later, bound, reaps, failed⟩
    exact ⟨now, rounds, keys, later, reads, bound, reaps, failed⟩

/-- `remove_expired` removes due keys, the earliest first. -/
theorem removeExpired_spec (ready : Ready world space) (limit : Nat) :
    (removeExpired limit).wp (fun _ after => Reaped world after space limit)
      (fun thrown after => ReapedPartly world after space limit thrown) world := by
  unfold removeExpired
  rw [Cmd.wp_bind, Cmd.wp_read]
  refine Cmd.wp_onlyIf (fun _ => removeExpiredLocked_spec ready limit) ?_
  intro unhinted
  refine ⟨_, [], space, ⟨0, rfl⟩, .done limit space ?_, ready.reached⟩
  intro entry inside moment deadline
  have nobody : world.db.expiries.order.head? = none := by
    rcases ready.rep with ⟨order, consistent, -, -, -⟩
    rw [consistent.deadlines.hint, decide_eq_true_eq, not_not] at unhinted
    rw [List.eq_nil_of_length_eq_zero unhinted]
    rfl
  rw [ready.rep.no_deadline nobody entry inside] at deadline
  cases deadline

/-- `evict_to` removes the oldest keys. -/
theorem evictTo_spec (ready : Ready world space) (target limit : Nat) :
    (evictTo target limit).wp
      (fun evicted after => evicted = (Spec.evict target limit space).result ∧
        Reached world after [] (Spec.evict target limit space).space
          (Spec.evict target limit space).records)
      (fun thrown after => exists rounds, rounds ≤ limit ∧
        Thrown world after [] (Spec.evict target rounds space).space
          (Spec.evict target rounds space).records (world.wal.isSome = true) thrown) world := by
  have batch := @inWalBatch_spec world world space [] Nat (evictOldest target limit)
    (fun evicted later more => Spec.evict target limit space = ⟨evicted, later, more⟩)
    (fun later more => exists rounds evicted, rounds ≤ limit ∧
      Spec.evict target rounds space = ⟨evicted, later, more⟩) ready.reached ?_ ?_
  · refine Cmd.wp_mono batch ?_ ?_
    · rintro evicted after ⟨later, more, equal, reached⟩
      rw [equal]
      exact ⟨rfl, reached⟩
    · rintro thrown after ⟨later, more, ⟨rounds, evicted, bound, equal⟩, failed⟩
      refine ⟨rounds, bound, ?_⟩
      rw [equal]
      exact failed
  · intro evicted later more equal
    exact ⟨limit, evicted, Nat.le_refl _, equal⟩
  · intro inside reached
    refine Cmd.wp_mono (@evictOldest_spec _ (world.wal.isSome = true) target limit _ _ _ reached)
      ?_ ?_
    · rintro evicted after ⟨rfl, reached⟩
      exact ⟨_, _, rfl, reached⟩
    · rintro thrown after ⟨rounds, bound, failed⟩
      exact ⟨_, _, ⟨rounds, _, bound, rfl⟩, failed⟩

/-! ## The operations on one key -/

theorem eraseLogged_spec (opened : Opened origin world key space now (some addr)) :
    (eraseLogged addr key).wp
      (fun result after => result = true ∧
        Reached origin after [] ((Spec.writable (origin.time now) key space).space.erase key)
          ((Spec.writable (origin.time now) key space).records ++ [Spec.record .del [key]]))
      (fun thrown after => Aborted origin after key space oversize thrown) world := by
  unfold eraseLogged
  refine Cmd.wp_step (log_spec opened.reached .del [key]) ?_ (fun _ _ failed =>
    opened.aborted failed.1)
  rintro _ logged ⟨reached, same, -, -⟩
  unfold modifyDb
  rw [Cmd.wp_bind, Cmd.wp_update, Cmd.wp_pure]
  have there : logged.db.findNode key = some addr := by
    rw [same]
    exact opened.located
  exact ⟨rfl, reached.modifyDb (reached.rep.erase there) Db.settings_eraseNode⟩

theorem del_spec (key : Bytes) :
    Implements (del key) key (Node.maxKeyLength < key.length) (Spec.del key) := by
  intro world space ready
  refine wp_findWritable ready id ?_
  intro now found after opened
  cases found with
  | none =>
      refine opened.returns ?_ opened.reached
      simp only [Spec.del, opened.result, Option.map_none]
  | some addr =>
      refine Cmd.wp_mono (eraseLogged_spec opened) ?_ (fun _ _ failed => failed)
      rintro _ last ⟨rfl, reached⟩
      refine opened.returns ?_ reached
      simp only [Spec.del, opened.result, Option.map_some]

end Database

theorem Spec.setDeadline_writable {time : Option Int64} {entry : Entry} {deadline : Option Int64}
    (result : (writable time key space).result = some entry) :
    (writable time key space).space.setDeadline key deadline =
      space.put { entry with deadline := deadline } := by
  have sameKey := key_of_writable result
  rw [writable_some result, Keyspace.setDeadline, <- sameKey, Keyspace.modify_put]
  rfl

namespace Database

/-- What a failing `expire` may leave behind.  The catch block takes a negative
deadline for none, so that it would be lost. -/
def ExpireAborted (world after : World) (key : Bytes) (space : Keyspace) (oversize : Prop)
    (thrown : Exn) : Prop :=
  Aborted world after key space oversize thrown ∨
    exists now moment, world.Reads now ∧ moment < 0 ∧
      (Spec.writable (world.time now) key space).result.bind Entry.deadline = some moment ∧
      Thrown world after [] ((Spec.writable (world.time now) key space).space.setDeadline key none)
        (Spec.writable (world.time now) key space).records oversize thrown

/-- A node that has a deadline gets another one without memory. -/
theorem scheduleExpiry_again {deadline : Int64} {E : Exn -> World -> Prop}
    {Q : Unit -> World -> Prop} (known : world.db.deadline addr ≠ none)
    (holds : Q () { world with db := world.db.setDeadline addr deadline }) :
    (scheduleExpiry addr deadline).wp Q E world := by
  unfold scheduleExpiry modifyDb
  rw [Cmd.wp_bind, Cmd.wp_read, Cmd.wp_bind]
  refine Cmd.wp_onlyIf ?_ ?_
  · intro absent
    refine absurd ?_ known
    rw [Option.isNone_iff_eq_none] at absent
    simp [Db.deadline, IndexedHeap.priority, absent]
  · intro _
    rw [Cmd.wp_update]
    exact holds

theorem restoreDeadline_spec {deadline : Int64} {entry : Entry} {after : World}
    (reads : origin.Reads now)
    (result : (Spec.writable (origin.time now) key space).result = some entry)
    (found : after.db.findNode key = some addr)
    (failed : Thrown origin after []
      ((Spec.writable (origin.time now) key space).space.setDeadline key (some deadline))
      (Spec.writable (origin.time now) key space).records oversize thrown) :
    (restoreDeadline addr (entry.deadline.getD (-1)) >>= fun _ => (Cmd.raise thrown : Op Unit)).wp
      (fun _ _ => False)
      (fun thrown after => ExpireAborted origin after key space oversize thrown) after := by
  have sameKey := Spec.key_of_writable result
  have whole : (Spec.writable (origin.time now) key space).space = space.put entry := by
    rw [Spec.writable_some result]
  have again : forall other,
      ((Spec.writable (origin.time now) key space).space.setDeadline key (some deadline)).setDeadline
        key other = space.put { entry with deadline := other } := by
    intro other
    rw [Spec.setDeadline_writable result, <- sameKey]
    exact @Keyspace.modify_put space { entry with deadline := some deadline } _ rfl
  unfold restoreDeadline
  rw [Cmd.wp_bind]
  refine Cmd.wp_ite ?_ ?_
  · intro negative
    unfold modifyDb
    rw [Cmd.wp_update, Cmd.wp_raise]
    have cleared := failed.modifyDb (failed.rep.clearExpiry found) Db.settings_clearExpiry
    rw [again] at cleared
    cases before : entry.deadline with
    | none =>
        have same : { entry with deadline := none } = entry := by rw [<- before]
        rw [same, <- whole] at cleared
        exact Or.inl (Or.inr ⟨now, reads, cleared⟩)
    | some moment =>
        rw [before, Option.getD_some] at negative
        refine Or.inr ⟨now, moment, reads, negative, ?_, ?_⟩
        · rw [result]
          exact before
        · rw [Spec.setDeadline_writable result]
          exact cleared
  · intro positive
    cases before : entry.deadline with
    | none =>
        rw [before] at positive
        exact absurd (by decide) positive
    | some moment =>
        have known : after.db.deadline addr ≠ none := by
          have entered := failed.rep.find_some found
          rw [Spec.setDeadline_writable result, <- sameKey, Keyspace.find_put, if_pos rfl] at entered
          have equal : after.db.deadline addr = some deadline :=
            (congrArg Entry.deadline (Option.some.inj entered)).symm
          rw [equal]
          exact Option.some_ne_none deadline
        refine scheduleExpiry_again known ?_
        rw [Cmd.wp_raise]
        have rep : Db.Rep (after.db.setDeadline addr moment) [] _ := failed.rep.setDeadline found
        have restored := failed.modifyDb rep ⟨rfl, rfl⟩
        have same : { entry with deadline := some moment } = entry := by rw [<- before]
        rw [again, same, <- whole] at restored
        exact Or.inl (Or.inr ⟨now, reads, restored⟩)

theorem Aborted.weaken {other : Prop} (aborted : Aborted origin world key space oversize thrown)
    (implies : oversize -> other) : Aborted origin world key space other thrown := by
  rcases aborted with failed | ⟨now, reads, failed⟩
  · exact Or.inl (failed.weaken implies)
  · exact Or.inr ⟨now, reads, failed.weaken implies⟩

theorem ExpireAborted.weaken {other : Prop}
    (aborted : ExpireAborted origin world key space oversize thrown)
    (implies : oversize -> other) : ExpireAborted origin world key space other thrown := by
  rcases aborted with aborted | ⟨now, moment, reads, negative, lost, failed⟩
  · exact Or.inl (aborted.weaken implies)
  · exact Or.inr ⟨now, moment, reads, negative, lost, failed.weaken implies⟩

theorem expireAt_spec {deadline : Int64} {stamp : Bytes} {entry : Entry}
    (reads : origin.Reads now)
    (reached : Reached origin world [] (Spec.writable (origin.time now) key space).space
      (Spec.writable (origin.time now) key space).records)
    (result : (Spec.writable (origin.time now) key space).result = some entry)
    (found : world.db.findNode key = some addr) :
    (expireAt addr key deadline stamp).wp
      (fun result after => result = true ∧
        Reached origin after []
          ((Spec.writable (origin.time now) key space).space.setDeadline key (some deadline))
          ((Spec.writable (origin.time now) key space).records ++
            [Spec.record .expireAt [key, stamp]]))
      (fun thrown after => ExpireAborted origin after key space oversize thrown) world := by
  have previous : world.db.deadline addr = entry.deadline := by
    have equal := reached.rep.find_some found
    rw [Spec.find_writable, result] at equal
    exact (congrArg Entry.deadline (Option.some.inj equal)).symm
  unfold expireAt
  rw [Cmd.wp_bind, Cmd.wp_read, Cmd.wp_bind, previous]
  refine Cmd.wp_mono (scheduleExpiry_spec reached found) ?_
    (fun _ _ failed => Or.inl (Or.inr ⟨now, reads, failed.1⟩))
  rintro _ scheduled ⟨reached, found, -⟩
  rw [Cmd.wp_bind, Cmd.wp_handle]
  refine Cmd.wp_mono (@log_spec _ _ _ _ _ oversize reached .expireAt [key, stamp]) ?_ ?_
  · rintro _ logged ⟨later, -, -, -⟩
    exact ⟨rfl, later⟩
  · rintro thrown failing ⟨failed, same, -⟩
    rw [<- same] at found
    exact Cmd.wp_mono (restoreDeadline_spec reads result found failed)
      (fun _ _ never => never.elim) (fun _ _ aborted => aborted)

theorem expireLater_spec {seconds : Int64} {entry : Entry}
    (opened : Opened origin world key space now (some addr))
    (result : (Spec.writable (origin.time now) key space).result = some entry) :
    (expireLater addr key seconds).wp
      (fun result after => exists moment, origin.Reads moment ∧
        seconds ≤ maxSeconds moment (origin.wall.reading 0) ∧ result = true ∧
        Reached origin after []
          ((Spec.writable (origin.time now) key space).space.setDeadline key
            (some (moment + seconds * 1000)))
          ((Spec.writable (origin.time now) key space).records ++ [Spec.record .expireAt
            [key, decimalInt (origin.wall.reading 1 + seconds * 1000).toInt]]))
      (fun thrown after => ExpireAborted origin after key space
        (thrown = .error .valueNotInteger ∧ exists moment, origin.Reads moment ∧
          maxSeconds moment (origin.wall.reading 0) < seconds) thrown) world := by
  have located := opened.located
  unfold expireLater
  refine Cmd.wp_step (nowMs_spec opened.reached) ?_ (fun _ _ never => never.elim)
  rintro moment clocked ⟨readsMoment, -, reached, same, wall⟩
  refine Cmd.wp_step (currentUnixMs_spec reached) ?_ (fun _ _ never => never.elim)
  rintro first once ⟨isFirst, reached, sameOnce, wallOnce⟩
  rw [wall, opened.wall] at isFirst wallOnce
  refine Cmd.wp_ite ?_ ?_
  · intro many
    rw [isFirst] at many
    exact Or.inl (Or.inr ⟨now, opened.reads,
      reached.toThrown (Or.inr (Or.inr ⟨rfl, moment, readsMoment, many⟩))⟩)
  · intro few
    rw [isFirst] at few
    refine Cmd.wp_step (currentUnixMs_spec reached) ?_ (fun _ _ never => never.elim)
    rintro second twice ⟨isSecond, reached, sameTwice, -⟩
    rw [wallOnce] at isSecond
    refine Cmd.wp_step (@allocate_spec _ _ _ _ _ False reached) ?_ ?_
    · rintro _ ready ⟨reached, sameReady, -⟩
      have found : ready.db.findNode key = some addr := by
        rw [sameReady, sameTwice, sameOnce, same]
        exact located
      refine Cmd.wp_mono (@expireAt_spec _ _ _ False _ _ _ _ _ _ opened.reads reached result found)
        ?_ (fun _ _ aborted => aborted.weaken False.elim)
      rintro _ after ⟨rfl, reached⟩
      refine ⟨moment, readsMoment, Int64.not_lt.mp few, rfl, ?_⟩
      rw [isSecond] at reached
      exact reached
    · rintro thrown failing ⟨failed, -⟩
      exact Or.inl (Or.inr ⟨now, opened.reads, failed.weaken False.elim⟩)

/-- `expire` sets the deadline it logs, or fails without an effect. -/
theorem expire_spec (ready : Ready world space) (key : Bytes) (seconds : Int64) :
    (expire key seconds).wp
      (fun result after => exists now moment, world.Reads now ∧ world.Reads moment ∧
        (result = true -> 0 < seconds ->
          seconds ≤ maxSeconds moment (world.wall.reading 0)) ∧
        (Spec.expire key seconds moment (world.wall.reading 1) (world.time now) space).result =
          result ∧
        Reached world after []
          (Spec.expire key seconds moment (world.wall.reading 1) (world.time now) space).space
          (Spec.expire key seconds moment (world.wall.reading 1) (world.time now) space).records)
      (fun thrown after => ExpireAborted world after key space
        (Node.maxKeyLength < key.length ∨ thrown = .error .valueNotInteger ∧
          exists moment, world.Reads moment ∧
            maxSeconds moment (world.wall.reading 0) < seconds) thrown) world := by
  unfold expire
  refine Cmd.wp_step (findWritable_spec ready.reached key) ?_
    (fun _ _ failed => Or.inl (Or.inl (failed.weaken Or.inl)))
  rintro found after ⟨⟨now, reads, reached, result⟩, short, located, wall⟩
  have opened : Opened world after key space now found :=
    ⟨reads, reached, result, short, located, wall⟩
  cases found with
  | none =>
      refine ⟨now, now, reads, reads, fun impossible => absurd impossible Bool.false_ne_true, ?_⟩
      simp only [Spec.expire, result, Option.map_none]
      exact ⟨trivial, reached⟩
  | some addr =>
      refine Cmd.wp_ite ?_ ?_
      · intro past
        refine Cmd.wp_mono (@eraseLogged_spec _ _ _ False _ _ _ opened) ?_
          (fun _ _ aborted => Or.inl (aborted.weaken False.elim))
        rintro _ last ⟨rfl, reached⟩
        refine ⟨now, now, reads, reads, fun _ positive => ?_, ?_⟩
        · exact absurd positive (Int64.not_lt.mpr past)
        · simp only [Spec.expire, result, Option.map_some, if_pos past]
          exact ⟨trivial, reached⟩
      · intro ahead
        refine Cmd.wp_mono (expireLater_spec opened result) ?_
          (fun _ _ aborted => aborted.weaken Or.inr)
        rintro _ last ⟨moment, readsMoment, bound, rfl, reached⟩
        refine ⟨now, moment, reads, readsMoment, fun _ _ => bound, ?_⟩
        simp only [Spec.expire, result, Option.map_some, if_neg ahead]
        exact ⟨trivial, reached⟩

/-- `ttl` reads the clock once more for a key with a deadline. -/
theorem ttl_spec (ready : Ready world space) (key : Bytes) :
    (ttl key).wp
      (fun result after => exists now moment, world.Reads now ∧ world.Reads moment ∧
        result = Spec.ttl moment (Spec.active (world.time now) key space).result ∧
        Reached world after [] (Spec.active (world.time now) key space).space [])
      (fun _ _ => False) world := by
  unfold ttl
  refine Cmd.wp_step (findActive_spec ready.reached key) ?_ (fun _ _ never => never.elim)
  rintro found after ⟨now, reads, reached, result, -⟩
  cases found with
  | none =>
      refine ⟨now, now, reads, reads, ?_, reached⟩
      rw [result]
      rfl
  | some addr =>
      rw [Cmd.wp_bind, Cmd.wp_read]
      cases deadline : after.db.deadline addr with
      | none =>
          refine ⟨now, now, reads, reads, ?_, reached⟩
          simp only [result, Option.map_some, Spec.ttl, Db.entry, deadline]
      | some moment =>
          simp only [Cmd.wp_bind]
          refine Cmd.wp_mono (nowMs_spec reached) ?_ (fun _ _ never => never.elim)
          rintro later last ⟨readsLater, -, reached, -, -⟩
          refine ⟨now, later, reads, readsLater, ?_, reached⟩
          simp only [result, Option.map_some, Spec.ttl, Db.entry, deadline]

end Database

end Reddish
