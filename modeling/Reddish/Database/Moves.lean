import Reddish.Database.Requests

namespace Reddish

open Library Numeral

/-!
# What calls do in any environment

Memory may run out, the log may fail and the clocks may advance during a call.
A call on a key that returns has done what its form says at a reading of the
clock; one that throws has at most looked its key up.  All other calls remove
entries and change none.
-/

namespace Keyspace

variable {space later : Keyspace} {key : Bytes} {entry : Entry}

/-- Every key has at most one entry. -/
def Distinct (space : Keyspace) : Prop :=
  (space.map Entry.key).Nodup

theorem Distinct.find_iff (distinct : Distinct space) :
    space.find key = some entry <-> entry ∈ space ∧ entry.key = key := by
  refine ⟨fun found => ⟨List.mem_of_find?_eq_some found, key_of_find found⟩, ?_⟩
  rintro ⟨inside, rfl⟩
  unfold Distinct at distinct
  induction space with
  | nil => exact absurd inside List.not_mem_nil
  | cons head tail ih =>
      rw [List.map_cons, List.nodup_cons] at distinct
      rcases List.mem_cons.mp inside with rfl | later
      · simp [find]
      · have other : head.key ≠ entry.key := by
          intro same
          rw [same] at distinct
          exact distinct.1 (List.mem_map_of_mem later)
        have found := ih distinct.2 later
        unfold find at found ⊢
        rw [List.find?_cons_of_neg (by simpa using other)]
        exact found

/-- A smaller keyspace has no new entries. -/
theorem Distinct.sublist (distinct : Distinct space) (sub : later.Sublist space)
    (found : later.find key = some entry) : space.find key = some entry :=
  distinct.find_iff.mpr ⟨sub.subset (List.mem_of_find?_eq_some found), key_of_find found⟩

end Keyspace

namespace Db

theorem Rep.distinct {db : Db} {pending : List Addr} {space : Keyspace}
    (rep : Rep db pending space) : space.Distinct := by
  rcases rep with ⟨order, consistent, -, -, rfl⟩
  unfold Keyspace.Distinct
  rw [List.map_map]
  exact consistent.table.keys

end Db

namespace Database

def Form.lookup (now : Int64) (space : Keyspace) : Form -> Keyspace
  | .answers _ => space
  | .reads key _ => (Spec.active (some now) key space).space
  | .writes key _ _ => (Spec.writable (some now) key space).space

def Done (world : World) (space : Keyspace) (form : Moment -> Form) (answer : Answer)
    (after : World) : Prop :=
  exists now moment, world.Reads now ∧ world.Reads moment.steady ∧
    (Spec.perform false now space (form moment)).result = .ok answer ∧
    Ready after (Spec.perform false now space (form moment)).space

/-- A moment of the clocks during a call. -/
structure Dated (world : World) (moment : Moment) : Prop where
  steady : world.Reads moment.steady
  wall : moment.wall = world.wall.reading 0
  stamp : moment.stamp = world.wall.reading 1

/-- The moment of a reading of the steady clock. -/
def momentOf (world : World) (now : Int64) : Moment :=
  ⟨now, world.wall.reading 0, world.wall.reading 1⟩

theorem dated_momentOf {world : World} {now : Int64} (seen : world.Reads now) :
    Dated world (momentOf world now) :=
  ⟨seen, rfl, rfl⟩

/-- The form was carried out and its records were logged. -/
def Carried (world : World) (space : Keyspace) (form : Moment -> Form) (answer : Answer)
    (after : World) : Prop :=
  exists now moment, world.Reads now ∧ Dated world moment ∧
    (Spec.perform false now space (form moment)).result = .ok answer ∧
    Reached world after [] (Spec.perform false now space (form moment)).space
      (Spec.perform false now space (form moment)).records

theorem Carried.done {world after : World} {space : Keyspace} {form : Moment -> Form}
    {answer : Answer} (carried : Carried world space form answer after) :
    Done world space form answer after := by
  rcases carried with ⟨now, moment, seen, dated, result, reached⟩
  exact ⟨now, moment, seen, dated.steady, result, reached.ready⟩

def Form.lookupRecords (now : Int64) (space : Keyspace) : Form -> List Wal.Record
  | .writes key _ _ => (Spec.writable (some now) key space).records
  | _ => []

/-- What was logged before an exception; a log that could not be written says
nothing. -/
def LoggedBefore (world after : World) (records : List Wal.Record) (thrown : Exn) : Prop :=
  after.records = world.records ++ (if world.logging then records else []) ∨
    thrown = .error .diskWriteFailed

/-- The form was given up, with what was logged until then. -/
def Abandoned (world : World) (space : Keyspace) (form : Moment -> Form) (thrown : Exn)
    (after : World) : Prop :=
  Ready after space ∧ LoggedBefore world after [] thrown ∨
    exists now moment, world.Reads now ∧ Dated world moment ∧
      Ready after ((form moment).lookup now space) ∧
      LoggedBefore world after ((form moment).lookupRecords now space) thrown

def GivenUp (world : World) (space : Keyspace) (form : Moment -> Form) (after : World) : Prop :=
  Ready after space ∨
    exists now moment, world.Reads now ∧ world.Reads moment.steady ∧
      Ready after ((form moment).lookup now space)

theorem Abandoned.givenUp {world after : World} {space : Keyspace} {form : Moment -> Form}
    {thrown : Exn} (abandoned : Abandoned world space form thrown after) :
    GivenUp world space form after := by
  rcases abandoned with ⟨ready, -⟩ | ⟨now, moment, seen, dated, ready, -⟩
  · exact Or.inl ready
  · exact Or.inr ⟨now, moment, seen, dated.steady, ready⟩

theorem Thrown.loggedBefore {world after : World} {space : Keyspace} {records : List Wal.Record}
    {oversize : Prop} {thrown : Exn} (failed : Thrown world after [] space records oversize thrown) :
    LoggedBefore world after records thrown := by
  rcases failed.logged with logged | ⟨disk, -⟩
  · exact Or.inl logged
  · exact Or.inr disk

/-- Code either carries a form out or gives it up.  In between there is nothing:
an exception leaves no part of an operation behind. -/
def Moves (op : Op Answer) (form : Moment -> Form) : Prop :=
  forall world space, Ready world space -> world.db.replaying = false ->
    op.wp (Done world space form) (fun _ => GivenUp world space form) world

/-- The same, with what the code logs when it carries a form out. -/
def Carries (op : Op Answer) (form : Moment -> Form) : Prop :=
  forall world space, Ready world space -> world.db.replaying = false ->
    op.wp (Carried world space form) (Abandoned world space form) world

theorem Carries.moves {op : Op Answer} {form : Moment -> Form} (carries : Carries op form) :
    Moves op form :=
  fun world space ready live =>
    Cmd.wp_mono (carries world space ready live) (fun _ _ carried => carried.done)
      (fun _ _ abandoned => abandoned.givenUp)

variable {α : Type} {op : Op α} {key : Bytes} {world after : World} {space : Keyspace}
variable {oversize : Prop} {spec : Option Int64 -> Keyspace -> Spec.Outcome α}
variable {plan : Option Entry -> Spec.Plan α} {wrap : α -> Answer} {thrown : Exn}

theorem carries_answers {form : Moment -> Form} (result : Except Exn α)
    (early : forall moment, form moment = .answers (result.map wrap))
    (ran : forall world, op world = (result, world)) : Carries (answering wrap op) form := by
  intro world space ready live
  unfold Cmd.wp
  cases result with
  | error thrown =>
      rw [answering_error (ran world)]
      exact Or.inl ⟨ready, Or.inl (by simp)⟩
  | ok value =>
      rw [answering_ok (ran world)]
      refine ⟨_, _, ⟨0, rfl⟩, dated_momentOf ⟨0, rfl⟩, ?_, ?_⟩
      · rw [early]
        rfl
      · rw [early]
        exact ready.reached

/-! ## Reading -/

theorem carries_reads {answer : Option Entry -> α} (peeks : Peeks op spec)
    (reads : spec = Spec.reading answer key) :
    Carries (answering wrap op) (fun _ => .reads key fun found => wrap (answer found)) := by
  intro world space ready live
  unfold answering
  refine Cmd.wp_step (peeks world space ready) ?_ (fun _ _ never => never.elim)
  rintro value after ⟨now, seen, rfl, reached⟩
  rw [reads, time_of_live live] at reached ⊢
  exact ⟨now, _, seen, dated_momentOf seen, rfl, reached⟩

/-- A reader that found no memory for its copy has looked the key up. -/
theorem carries_copied {copy : α -> Op Unit} {view : Op (Except ErrorCode (Option α))}
    {answer : Option Entry -> Except ErrorCode (Option α)}
    {wrap : Except ErrorCode (Option α) -> Answer} (peeks : Peeks view (Spec.reading answer key))
    (absent : answer none = .ok none)
    (prepares : forall value, Prepares (copy value) fun _ => True) :
    Carries (answering wrap (copied copy view))
      (fun _ => .reads key fun found => wrap (answer found)) := by
  intro world space ready live
  unfold answering
  refine Cmd.wp_step (copied_spec peeks absent prepares ready) ?_ ?_
  · rintro value after ⟨now, seen, rfl, reached⟩
    rw [time_of_live live] at reached ⊢
    exact ⟨now, _, seen, dated_momentOf seen, rfl, reached⟩
  · rintro thrown after ⟨now, seen, -, -, failed⟩
    rw [time_of_live live] at failed
    exact Or.inr ⟨now, _, seen, dated_momentOf seen, failed.ready, Thrown.loggedBefore failed⟩

theorem carries_ttl : Carries (answering .seconds (ttl key))
    (fun moment => .reads key fun found => .seconds (Spec.ttl moment.steady found)) := by
  intro world space ready live
  unfold answering
  refine Cmd.wp_step (ttl_spec ready key) ?_ (fun _ _ never => never.elim)
  rintro value after ⟨now, instant, seen, again, rfl, reached⟩
  rw [time_of_live live] at reached ⊢
  exact ⟨now, momentOf world instant, seen, dated_momentOf again, rfl, reached⟩

/-! ## Writing -/

theorem reads_nonneg {now : Int64} (seen : world.Reads now) : 0 ≤ now := by
  rcases seen with ⟨n, rfl⟩
  exact world.steady.nonneg n

theorem carries_writes {tooLarge : Bool} {rest : Option Addr -> Op α}
    (starts : op = findWritable key >>= rest) (implements : Implements op key oversize spec)
    (follows : forall time space, spec time space =
      (plan (Spec.writable time key space).result).outcome key (Spec.writable time key space)) :
    Carries (answering wrap op) (fun _ => .writing wrap key plan tooLarge) := by
  intro world space ready live
  unfold Form.writing
  by_cases long : Node.maxKeyLength < key.length
  · have ran : answering wrap op world = (.error (.error .requestTooLarge), world) := by
      refine answering_error ?_
      rw [starts]
      exact findWritable_long long
    unfold Cmd.wp
    rw [ran]
    exact Or.inl ⟨ready, Or.inl (by simp)⟩
  · simp only [if_neg long]
    unfold answering
    refine Cmd.wp_step (implements world space ready) ?_ ?_
    · rintro value after ⟨now, seen, rfl, reached⟩
      rw [follows, time_of_live live] at reached ⊢
      refine ⟨now, _, seen, dated_momentOf seen, ?_⟩
      simp only [Spec.perform]
      rw [if_neg (fun impossible => by cases impossible.1)]
      exact ⟨rfl, reached⟩
    · rintro thrown after (failed | ⟨now, seen, failed⟩)
      · exact Or.inl ⟨failed.ready, Thrown.loggedBefore failed⟩
      · rw [time_of_live live] at failed
        exact Or.inr ⟨now, _, seen, dated_momentOf seen, failed.ready, Thrown.loggedBefore failed⟩

def Form.expire (key : Bytes) (seconds : Int64) (moment : Moment) : Form :=
  if Node.maxKeyLength < key.length then .answers (.error (.error .requestTooLarge))
  else .writes key (Form.expiring moment key seconds) false

theorem carries_expire {seconds : Int64} :
    Carries (answering .flag (expire key seconds)) (Form.expire key seconds) := by
  intro world space ready live
  by_cases long : Node.maxKeyLength < key.length
  · have ran : answering .flag (expire key seconds) world =
        (.error (.error .requestTooLarge), world) := answering_error (findWritable_long long)
    unfold Cmd.wp
    rw [ran]
    exact Or.inl ⟨ready, Or.inl (by simp)⟩
  unfold answering
  refine Cmd.wp_step (expire_spec ready key seconds) ?_ ?_
  · rintro value after ⟨now, instant, seen, again, limit, rfl, reached⟩
    rw [time_of_live live] at reached limit ⊢
    refine ⟨now, momentOf world instant, seen, dated_momentOf again, ?_⟩
    have fine : ¬ ((Spec.writable (some now) key space).result.isSome = true ∧ 0 < seconds ∧
        maxSeconds instant (world.wall.reading 0) < seconds) := by
      rintro ⟨present, positive, far⟩
      exact Int64.not_lt.mpr (limit (expire_found present) positive) far
    unfold Form.expire Form.expiring Spec.perform momentOf
    simp only [if_neg long]
    rw [if_neg (fun impossible => by cases impossible.2.1), if_neg fine]
    rw [Spec.follows_expire] at reached ⊢
    exact ⟨rfl, reached⟩
  · rintro thrown after ((failed | ⟨now, seen, failed⟩) |
      ⟨now, instant, seen, negative, deadline, -⟩)
    · exact Or.inl ⟨failed.ready, Thrown.loggedBefore failed⟩
    · rw [time_of_live live] at failed
      refine Or.inr ⟨now, _, seen, dated_momentOf seen, ?_⟩
      unfold Form.expire
      rw [if_neg long]
      exact ⟨failed.ready, Thrown.loggedBefore failed⟩
    · rw [time_of_live live] at deadline
      exact absurd (deadline_nonneg (reads_nonneg seen) deadline) (Int64.not_le.mpr negative)

/-- Every call on a key carries its form out or gives it up, in any
environment.  What it has logged until then is part of the statement. -/
theorem Call.carries {call : Call} (named : call.key = some key) :
    exists form, (forall moment, call.form moment = some (form moment)) ∧ Carries call.run form := by
  cases call with
  | set key val =>
      refine ⟨_, fun moment => rfl, ?_⟩
      by_cases long : maxValueLength < val.length
      · refine carries_answers (.error (.error .requestTooLarge))
          (fun _ => if_pos long) fun world => ?_
        rw [Database.set, if_pos long]
        rfl
      · rcases @set_starts key val long with ⟨rest, starts⟩
        simp only [if_neg long]
        exact carries_writes starts (set_spec key val) (Spec.follows_set val)
  | get key => exact ⟨_, fun _ => rfl, carries_copied (textOfView_peeks key) rfl prepares_copyText⟩
  | valueView key =>
      exact ⟨_, fun _ => rfl, carries_reads (valueView_peeks key) rfl⟩
  | increment key =>
      exact ⟨_, fun _ => rfl, carries_writes rfl (increment_spec key) Spec.follows_increment⟩
  | pushLeft key value =>
      exact ⟨_, fun _ => rfl, carries_writes rfl (listPush_spec key value true)
        (Spec.follows_listPush value true)⟩
  | pushRight key value =>
      exact ⟨_, fun _ => rfl, carries_writes rfl (listPush_spec key value false)
        (Spec.follows_listPush value false)⟩
  | pushTexts key values front =>
      exact ⟨_, fun _ => rfl, carries_writes rfl (pushTexts_spec key values front)
        (Spec.follows_pushTexts values front)⟩
  | popLeft key =>
      exact ⟨_, fun _ => rfl, carries_writes rfl (listPop_spec key true) (Spec.follows_listPop true)⟩
  | popRight key =>
      exact ⟨_, fun _ => rfl, carries_writes rfl (listPop_spec key false)
        (Spec.follows_listPop false)⟩
  | listLength key =>
      exact ⟨_, fun _ => rfl, carries_reads (listLength_peeks key) Spec.listLength_eq⟩
  | hashSet key field value =>
      exact ⟨_, fun _ => rfl, carries_writes rfl (hashAssign_spec key field value)
        (Spec.follows_hashAssign field value)⟩
  | hashSetTexts key fields =>
      refine ⟨_, fun moment => rfl, ?_⟩
      by_cases odd : fields.length % 2 ≠ 0
      · refine carries_answers (.ok (Except.error ErrorCode.wrongArgumentCount))
          (fun _ => if_pos odd) fun world => ?_
        rw [Database.hashSetTexts, if_pos odd]
        rfl
      · rcases @hashSetTexts_starts key fields odd with ⟨rest, starts⟩
        simp only [if_neg odd]
        refine carries_writes starts (hashSetTexts_spec key fields) fun time space => ?_
        rw [Spec.hashSetTexts_eq, if_neg odd]
  | hashGet key field =>
      refine ⟨_, fun _ => rfl, carries_copied ?_ rfl fun _ => prepares_copyOut⟩
      rw [<- Spec.hashField_eq]
      exact hashField_peeks key field
  | hashField key field =>
      exact ⟨_, fun _ => rfl, carries_reads (hashField_peeks key field) Spec.hashField_eq⟩
  | hashDel key field =>
      exact ⟨_, fun _ => rfl, carries_writes rfl (hashDel_spec key field)
        (Spec.follows_hashDel field)⟩
  | hashLength key =>
      exact ⟨_, fun _ => rfl, carries_reads (hashLength_peeks key) Spec.hashLength_eq⟩
  | expire key seconds => exact ⟨Form.expire key seconds, fun _ => rfl, carries_expire⟩
  | ttl key => exact ⟨_, fun _ => rfl, carries_ttl⟩
  | del key => exact ⟨_, fun _ => rfl, carries_writes rfl (del_spec key) Spec.follows_del⟩
  | _ => cases named

/-- What a call on a key leaves in the keyspace. -/
theorem Call.moves {call : Call} (named : call.key = some key) :
    exists form, (forall moment, call.form moment = some (form moment)) ∧ Moves call.run form := by
  rcases Call.carries named with ⟨form, formed, carries⟩
  exact ⟨form, formed, carries.moves⟩

/-! ## Removing -/

theorem sublist_erase : (space.erase key).Sublist space :=
  List.filter_sublist

theorem sublist_reaps {now : Int64} {limit : Nat} {keys : List Bytes} {later : Keyspace}
    (reaps : Spec.Reaps now limit space keys later) : later.Sublist space := by
  induction reaps with
  | full space => exact List.Sublist.refl _
  | done limit space _ => exact List.Sublist.refl _
  | next found deadline due earliest more ih =>
      exact ih.trans sublist_erase

theorem sublist_evict (target limit : Nat) (space : Keyspace) :
    (Spec.evict target limit space).space.Sublist space := by
  induction limit generalizing space with
  | zero => exact List.Sublist.refl _
  | succ limit ih =>
      unfold Spec.evict
      split
      · exact List.Sublist.refl _
      · split
        · exact List.Sublist.refl _
        · exact (ih space.dropLast).trans (List.dropLast_sublist space)

/-- The database lost some entries at most. -/
def Shrunk (space : Keyspace) (after : World) : Prop :=
  exists later, Ready after later ∧ later.Sublist space

/-- Code that only removes entries, however it ends. -/
def Shrinks (op : Op α) : Prop :=
  forall world space, Ready world space ->
    op.wp (fun _ after => Shrunk space after) (fun _ after => Shrunk space after) world

theorem shrinks_removeExpiredLocked (limit : Nat) : Shrinks (removeExpiredLocked limit) := by
  intro world space ready
  refine Cmd.wp_mono (removeExpiredLocked_spec ready limit) ?_ ?_
  · rintro _ after ⟨now, keys, later, -, reaps, reached⟩
    exact ⟨later, reached.ready, sublist_reaps reaps⟩
  · rintro thrown after ⟨now, rounds, keys, later, -, -, reaps, failed⟩
    exact ⟨later, failed.ready, sublist_reaps reaps⟩

theorem shrinks_removeExpired (limit : Nat) : Shrinks (removeExpired limit) := by
  intro world space ready
  unfold removeExpired
  rw [Cmd.wp_bind, Cmd.wp_read]
  exact Cmd.wp_onlyIf (fun _ => shrinks_removeExpiredLocked limit world space ready)
    (fun _ => ⟨space, ready, List.Sublist.refl _⟩)

theorem shrinks_evictTo (target limit : Nat) : Shrinks (evictTo target limit) := by
  intro world space ready
  refine Cmd.wp_mono (evictTo_spec ready target limit) ?_ ?_
  · rintro _ after ⟨-, reached⟩
    exact ⟨_, reached.ready, sublist_evict target limit space⟩
  · rintro thrown after ⟨rounds, -, failed⟩
    exact ⟨_, failed.ready, sublist_evict target rounds space⟩

/-- What keeps all keys keeps the keyspace apart from its order. -/
theorem shrinks_onWal {body : Cmd Exn Wal Unit}
    (sound : forall wal, Wal.Sound wal ->
      body.wp (fun _ after => Wal.Sound after) (fun _ after => Wal.Sound after) wal) :
    Shrinks (onWal body) := by
  intro world space ready
  refine wp_onWal (fun _ => ⟨space, ready, List.Sublist.refl _⟩) ?_
  intro wal here
  have kept : forall later, Wal.Sound later -> Shrunk space { world with wal := some later } := by
    intro later sound
    refine ⟨space, ⟨ready.rep, ?_⟩, List.Sublist.refl _⟩
    rintro other equal
    cases equal
    exact sound
  exact Cmd.wp_mono (sound wal (ready.sound wal here)) (fun _ => kept) (fun _ => kept)

theorem Shrinks.bind {β : Type} {rest : α -> Op β} (first : Shrinks op)
    (second : forall value, Shrinks (rest value)) : Shrinks (op >>= rest) := by
  intro world space ready
  refine Cmd.wp_step (first world space ready) ?_ (fun _ _ shrunk => shrunk)
  rintro value middle ⟨later, ready, sub⟩
  have rest : forall last, Shrunk later last -> Shrunk space last := by
    rintro last ⟨final, ready, more⟩
    exact ⟨final, ready, more.trans sub⟩
  exact Cmd.wp_mono (second value middle later ready) (fun _ => rest) (fun _ => rest)

theorem shrinks_pure (value : α) : Shrinks (pure value : Op α) :=
  fun _ space ready => ⟨space, ready, List.Sublist.refl _⟩

theorem shrinks_read {rest : World -> Op α} (each : forall world, Shrinks (rest world)) :
    Shrinks (Cmd.read >>= rest) :=
  fun world space ready => each world world space ready

theorem shrinks_compactWal (environment : Wal.Compacting) (memory : Option Nat) :
    Shrinks (compactWal environment memory) := by
  refine shrinks_read fun world => Shrinks.bind ?_ fun _ =>
    (shrinks_removeExpiredLocked _).bind fun _ => Shrinks.bind ?_ fun steady =>
      Shrinks.bind ?_ fun wall => shrinks_read fun last =>
        shrinks_onWal fun _ => compactLog_sound environment _
  · exact fun _ space ready => Cmd.wp_require (fun _ => ⟨space, ready, List.Sublist.refl _⟩)
      (fun _ => ⟨space, ready, List.Sublist.refl _⟩)
  · intro world space ready
    refine Cmd.wp_mono (nowMs_spec ready.reached) ?_ (fun _ _ never => never.elim)
    rintro _ after ⟨-, -, reached, -, -⟩
    exact ⟨space, reached.ready, List.Sublist.refl _⟩
  · intro world space ready
    refine Cmd.wp_mono (currentUnixMs_spec ready.reached) ?_ (fun _ _ never => never.elim)
    rintro _ after ⟨-, reached, -, -⟩
    exact ⟨space, reached.ready, List.Sublist.refl _⟩

/-- A log can be opened only while there are no keys. -/
theorem openWal_refused {opening : Wal.Opening} (ready : Ready world space) (nonempty : space ≠ []) :
    openWal opening world = (.error (.error .diskReadFailed), world) := by
  have keys : world.db.keyTotal ≠ 0 := by
    rw [ready.rep.length]
    exact fun zero => nonempty (List.eq_nil_of_length_eq_zero zero)
  change (if world.wal.isSome = true ∨ world.db.keyTotal ≠ 0 then
    Cmd.raise (.error .diskReadFailed) else _ : Op Unit) world = _
  rw [if_pos (Or.inr keys)]
  rfl

/-- Calls that name no key remove entries at most; a log is only opened for an
empty database. -/
theorem Call.shrinks {call : Call} (nameless : call.key = none) (ready : Ready world space)
    (nonempty : forall opening, call = .openWal opening -> space ≠ []) :
    call.perform.wp (fun _ after => Shrunk space after) (fun _ after => Shrunk space after)
      world := by
  cases call with
  | removeExpired limit => exact shrinks_removeExpired limit world space ready
  | evictTo target limit =>
      exact ((shrinks_evictTo target limit).bind fun _ => shrinks_pure ()) world space ready
  | openWal opening =>
      change (Database.openWal opening).wp _ _ world
      unfold Cmd.wp
      rw [openWal_refused ready (nonempty opening rfl)]
      exact ⟨space, ready, List.Sublist.refl _⟩
  | flushWal =>
      refine shrinks_onWal (fun wal sound => ?_) world space ready
      exact Cmd.wp_mono (Wal.flush_spec sound) (fun _ _ done => done.1) (fun _ _ failed => failed.1)
  | compactWal environment memory =>
      exact shrinks_compactWal environment memory world space ready
  | beginWalBatch =>
      refine shrinks_onWal (fun wal sound => ?_) world space ready
      exact Cmd.wp_mono (Wal.beginBatch_spec sound) (fun _ _ done => done.1)
        (fun _ _ never => never.elim)
  | endWalBatch =>
      refine shrinks_onWal (fun wal sound => ?_) world space ready
      exact Cmd.wp_mono (Wal.endBatch_spec sound) (fun _ _ done => done.1)
        (fun _ _ failed => failed.1)
  | _ => cases nameless

end Database

end Reddish
