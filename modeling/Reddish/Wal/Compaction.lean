import Reddish.Wal.Opening

namespace Reddish
namespace Wal

open Library Numeral

/-!
# Compaction

`Wal::compact` writes a second log next to the first one, reads it back, and
then puts it in the place of the first one.  The steps are kept apart, so that
one can ask what the two paths hold between any two of them.
-/

/-- The log together with what lies at the two paths.  `parked` is the file at
the log's own path while `file_` is closed, `replacement` the object that writes
to the temporary path, and `temporary` the file there once it is closed.
`written` is what the replacement holds and is never read by the code. -/
structure Site where
  wal : Wal
  parked : Option LogFile
  replacement : Option Wal
  temporary : Option LogFile
  written : List Record
  bytes : Nat
  switching : Bool

/-- The outcomes of the calls that `compact` makes itself. -/
structure Compacting where
  occupied : Bool
  opening : Opening
  readLimit : Option Nat
  truncates : Bool
  closes : Bool
  renames : Bool
  opensDirectory : Bool
  syncsDirectory : Bool
  reopens : Bool
  buffers : Bool
  locks : Bool

namespace Site

/-- The site of a log that is not being compacted. -/
def idle (wal : Wal) : Site :=
  ⟨wal, none, none, none, [], 0, false⟩

def atPath (site : Site) : Option LogFile :=
  site.wal.file.or site.parked

/-- The catch block: after the switch has begun the log has failed for good,
and the temporary file is removed in any case. -/
def cleanup (site : Site) : Site :=
  { site with
    wal := if site.switching then { site.wal with failed := true } else site.wal
    replacement := none
    temporary := none }

end Site

/-! ## The steps -/

/-- Run a call on the log itself. -/
def onLog (body : Cmd Exn Wal Unit) : Cmd Exn Site Unit :=
  Cmd.zoom Site.wal (fun wal site => { site with wal := wal }) body

def onReplacement (body : Cmd Exn Wal Unit) : Cmd Exn Site Unit :=
  fun site =>
    match site.replacement with
    | none => (.ok (), site)
    | some wal =>
        match body wal with
        | (outcome, later) => (outcome, { site with replacement := some later })

def openReplacement (environment : Compacting) : Cmd Exn Site Unit := do
  let wal <- construct { environment.opening with file := [], sync := .always } (fun _ => pure ())
  Cmd.update (fun site => { site with replacement := some wal })

/-- One call of `append`, or an exception of the writer. -/
def writeEntry : Except Exn Record -> Cmd Exn Site Unit
  | .ok record => onReplacement (append record)
  | .error thrown => Cmd.raise thrown

/-- Note the size of the replacement and destroy it: the destructor flushes
once more and closes the file. -/
def closeReplacement : Cmd Exn Site Unit := do
  onReplacement flusherTick
  Cmd.update (fun site =>
    { site with
      replacement := none
      temporary := site.replacement.map stream
      written := (site.replacement.map appended).getD []
      bytes := (site.replacement.map Wal.bytes).getD 0 })

/-- Read the new file back. -/
def verify (environment : Compacting) : Cmd Exn Site Unit := do
  let site <- Cmd.read
  let outcome <- readLog ((site.temporary.map LogFile.contents).getD []) environment.readLimit
    environment.truncates (fun _ => pure ())
  Cmd.require (outcome.1 = site.bytes) (.error .diskReadFailed)

/-- Begin the switch by closing the old file. -/
def closeLog (environment : Compacting) : Cmd Exn Site Unit := do
  Cmd.update (fun site =>
    { site with
      switching := true
      parked := site.wal.file
      wal := { site.wal with file := none } })
  Cmd.require (environment.closes = true) (.error .diskWriteFailed)

/-- Rename the temporary file to the log's path. -/
def renameLog (environment : Compacting) : Cmd Exn Site Unit := do
  Cmd.require (environment.renames = true) (.error .diskWriteFailed)
  Cmd.update (fun site => { site with parked := site.temporary, temporary := none })

/-- Open the file that is now at the log's path. -/
def reopenLog (environment : Compacting) : Cmd Exn Site Unit := do
  Cmd.require (environment.reopens = true) (.error .diskWriteFailed)
  Cmd.update (fun site =>
    { site with
      parked := none
      wal := { site.wal with file := site.parked, appended := site.written } })

def finishCompaction : Cmd Exn Site Unit :=
  Cmd.update (fun site => { site with wal := { site.wal with bytes := site.bytes, dirty := false } })

/-- The steps that write the new log and read it back. -/
def prepareSteps (environment : Compacting) (entries : List (Except Exn Record)) :
    List (Cmd Exn Site Unit) :=
  [openReplacement environment, onReplacement beginBatch] ++ (entries.map writeEntry ++
    [onReplacement endBatch, onReplacement flush, closeReplacement, verify environment])

/-- The body of the try block, step by step.  A crash may come between any two
steps, and every step may throw. -/
def compactSteps (environment : Compacting) (entries : List (Except Exn Record)) :
    List (Cmd Exn Site Unit) :=
  prepareSteps environment entries ++
    [onLog flushLocked, closeLog environment, renameLog environment,
      Cmd.require (environment.opensDirectory = true) (.error .diskWriteFailed),
      Cmd.require (environment.syncsDirectory = true) (.error .diskWriteFailed),
      reopenLog environment,
      Cmd.require (environment.buffers = true) (.error .diskWriteFailed),
      Cmd.require (environment.locks = true) (.error .diskWriteFailed),
      finishCompaction]

/-- `Wal::compact`; the writer is given by what it appends. -/
def compact (environment : Compacting) (entries : List (Except Exn Record)) :
    Cmd Exn Site Unit := do
  onLog lock
  let site <- Cmd.read
  if site.wal.failed = true ∨ site.wal.deferSync = true ∨ environment.occupied = true then
    Cmd.raise (.error .diskWriteFailed)
  else
    (Cmd.forEach (compactSteps environment entries) id).handle (fun thrown => do
      Cmd.update Site.cleanup
      Cmd.raise thrown)

/-! ## The phases -/

/-- The old file, with at least what it held before. -/
structure OldLog (start : Wal) (file : LogFile) : Prop where
  handed : file.handed = start.stream.handed
  flushed : start.stream.flushed ≤ file.flushed
  synced : start.stream.synced ≤ file.synced
  inside : file.flushed ≤ file.handed.length

/-- A new file with all of its records, durable. -/
structure NewLog (records : List Record) (file : LogFile) : Prop where
  handed : file.handed = magic ++ frames records
  accepted : forall record, record ∈ records -> Accepted record
  flushed : file.flushed = file.handed.length
  synced : file.synced = file.handed.length

/-- The number of steps before the old log is flushed. -/
def flushes (entries : List (Except Exn Record)) : Nat :=
  entries.length + 6

/-- The number of steps before the rename. -/
def renames (entries : List (Except Exn Record)) : Nat :=
  entries.length + 8

/-- The log's path holds the old log. -/
def HoldsOld (start : Wal) (site : Site) : Prop :=
  exists file, site.atPath = some file ∧ OldLog start file

/-- The log's path holds a log with everything the writer appended. -/
def HoldsNew (entries : List (Except Exn Record)) (site : Site) : Prop :=
  exists file records, site.atPath = some file ∧ entries = records.map Except.ok ∧
    NewLog records file

/-- Nothing has happened to the old log. -/
structure Untouched (start : Wal) (site : Site) : Prop where
  wal : site.wal = start
  parked : site.parked = none
  switching : site.switching = false

/-- What holds after the first `count` steps: the old records are at the path up to
the rename, and the new ones from then on. -/
structure Between (start : Wal) (entries : List (Except Exn Record)) (count : Nat) (site : Site) :
    Prop where
  untouched : count ≤ flushes entries -> Untouched start site
  old : count ≤ renames entries -> HoldsOld start site
  whole : count = renames entries -> exists file, site.atPath = some file ∧
    file.handed = magic ++ frames start.appended ∧ file.flushed = file.handed.length
  new : renames entries < count -> HoldsNew entries site

/-- What holds after step number `count` has thrown.  From the flush of the old log on,
no record is accepted any more. -/
structure Broken (start : Wal) (entries : List (Except Exn Record)) (count : Nat) (site : Site) :
    Prop where
  sound : Sound site.cleanup.wal
  old : count ≤ renames entries -> HoldsOld start site
  new : renames entries < count -> HoldsNew entries site
  untouched : count < flushes entries -> Untouched start site
  unflushed : count = flushes entries -> site.wal.failed = true ∧ site.switching = false
  switching : flushes entries < count -> site.switching = true

variable {start : Wal} {site : Site} {records : List Record} {entries : List (Except Exn Record)}
  {count : Nat}

/-- Before the switch: the old log is open and sound. -/
structure Waiting (start : Wal) (site : Site) : Prop where
  sound : Sound site.wal
  quiet : Quiet start site.wal
  flushed : start.stream.flushed ≤ site.wal.stream.flushed
  opened : site.wal.file.isSome = true
  parked : site.parked = none
  switching : site.switching = false

theorem Waiting.holdsOld (waiting : Waiting start site) : HoldsOld start site := by
  rcases Option.isSome_iff_exists.mp waiting.opened with ⟨file, opened⟩
  have stream : site.wal.stream = file := by
    unfold Wal.stream
    rw [opened]
    rfl
  refine ⟨file, ?_, ?_⟩
  · unfold Site.atPath
    rw [opened]
    rfl
  · rw [<- stream]
    exact ⟨waiting.quiet.sameHanded, waiting.flushed, waiting.quiet.synced,
      waiting.sound.flushed_le⟩

theorem Waiting.cleaned (waiting : Waiting start site) : Sound site.cleanup.wal := by
  unfold Site.cleanup
  rw [waiting.switching]
  exact waiting.sound

theorem Untouched.waiting (untouched : Untouched start site) (sound : Sound start)
    (healthy : start.failed = false) : Waiting start site where
  sound := untouched.wal ▸ sound
  quiet := untouched.wal ▸ Quiet.refl start
  flushed := untouched.wal ▸ Nat.le_refl _
  opened := untouched.wal ▸ sound.opened healthy
  parked := untouched.parked
  switching := untouched.switching

theorem Untouched.of_eq {other : Site} (untouched : Untouched start site)
    (wal : other.wal = site.wal) (parked : other.parked = site.parked)
    (switching : other.switching = site.switching) : Untouched start other :=
  ⟨wal.trans untouched.wal, parked.trans untouched.parked, switching.trans untouched.switching⟩

theorem flushes_lt_renames (entries : List (Except Exn Record)) :
    flushes entries < renames entries := by
  unfold flushes renames
  omega

theorem Untouched.between (untouched : Untouched start site) (sound : Sound start)
    (healthy : start.failed = false) (early : count ≤ flushes entries) :
    Between start entries count site := by
  have order := flushes_lt_renames entries
  exact
    { untouched := fun _ => untouched
      old := fun _ => (untouched.waiting sound healthy).holdsOld
      whole := fun _ => by omega
      new := fun _ => by omega }

theorem Untouched.broken (untouched : Untouched start site) (sound : Sound start)
    (healthy : start.failed = false) (early : count < flushes entries) :
    Broken start entries count site := by
  have order := flushes_lt_renames entries
  have waiting := untouched.waiting sound healthy
  exact
    { sound := waiting.cleaned
      old := fun _ => waiting.holdsOld
      new := fun _ => by omega
      untouched := fun _ => untouched
      unflushed := fun _ => by omega
      switching := fun _ => by omega }

theorem HoldsNew.between (holds : HoldsNew entries site) (late : renames entries < count) :
    Between start entries count site := by
  have order := flushes_lt_renames entries
  exact
    { untouched := fun _ => by omega
      old := fun _ => by omega
      whole := fun _ => by omega
      new := fun _ => holds }

theorem HoldsNew.broken (holds : HoldsNew entries site) (late : renames entries < count)
    (sound : Sound site.cleanup.wal) (switching : site.switching = true) :
    Broken start entries count site := by
  have order := flushes_lt_renames entries
  exact
    { sound := sound
      old := fun _ => by omega
      new := fun _ => holds
      untouched := fun _ => by omega
      unflushed := fun _ => by omega
      switching := fun _ => switching }

structure Writing (start : Wal) (records : List Record) (site : Site) : Prop extends
    Untouched start site where
  writer : exists wal, site.replacement = some wal ∧ Sound wal ∧ wal.sync = .always ∧
    wal.appended = records

structure Written (start : Wal) (records : List Record) (site : Site) : Prop extends
    Untouched start site where
  complete : exists file, site.temporary = some file ∧ NewLog records file
  written : site.written = records

/-- A call on the replacement leaves the old log alone. -/
theorem wp_onReplacement {body : Cmd Exn Wal Unit} {wal : Wal} {Q : Unit -> Site -> Prop}
    {E : Exn -> Site -> Prop} (here : site.replacement = some wal)
    (holds : body.wp (fun _ later => Q () { site with replacement := some later })
      (fun thrown later => E thrown { site with replacement := some later }) wal) :
    (onReplacement body).wp Q E site := by
  unfold onReplacement
  unfold Cmd.wp at holds ⊢
  simp only [here]
  rcases outcome : body wal with ⟨thrown | _, later⟩
  · rw [outcome] at holds
    exact holds
  · rw [outcome] at holds
    exact holds

/-- A call that appends nothing keeps the replacement. -/
theorem Writing.wp_quiet {body : Cmd Exn Wal Unit} (result : Wal -> Prop)
    (writing : Writing start records site)
    (spec : forall wal, Sound wal ->
      body.wp (fun _ later => Sound later ∧ Evolves wal later ∧
        later.appended = wal.appended ∧ result later) (fun _ _ => True) wal) :
    (onReplacement body).wp
      (fun _ later => Writing start records later ∧
        forall wal, later.replacement = some wal -> result wal)
      (fun _ later => Untouched start later) site := by
  rcases writing.writer with ⟨wal, here, sound, always, appended⟩
  refine wp_onReplacement here (Cmd.wp_mono (spec wal sound) ?_ ?_)
  · rintro _ later ⟨laterSound, evolves, same, holds⟩
    refine ⟨⟨writing.toUntouched.of_eq rfl rfl rfl, later, rfl, laterSound,
      evolves.sync.trans always, same.trans appended⟩, ?_⟩
    rintro last equal
    cases equal
    exact holds
  · intro _ later _
    exact writing.toUntouched.of_eq rfl rfl rfl

theorem writeEntry_spec {record : Record} (writing : Writing start records site) :
    (writeEntry (.ok record)).wp
      (fun _ later => Writing start (records ++ [record]) later)
      (fun _ later => Untouched start later) site := by
  rcases writing.writer with ⟨wal, here, sound, always, appended⟩
  refine wp_onReplacement here (Cmd.wp_mono (append_spec sound record) ?_ ?_)
  · rintro _ later ⟨laterSound, evolves, -, grown, -, -⟩
    exact ⟨writing.toUntouched.of_eq rfl rfl rfl, later, rfl, laterSound,
      evolves.sync.trans always, by rw [grown, appended]⟩
  · intro _ later _
    exact writing.toUntouched.of_eq rfl rfl rfl

/-- All entries of the writer, or an exception. -/
theorem through_writeEntries {R : Site -> Prop} {rest : List (Cmd Exn Site Unit)}
    (entries : List (Except Exn Record)) :
    forall {records : List Record} {n : Nat} {site : Site}, Writing start records site ->
      (forall more n later, entries = more.map Except.ok -> Writing start (records ++ more) later ->
        Cmd.Through (fun _ => Untouched start) (fun _ => Untouched start) R n rest later) ->
      Cmd.Through (fun _ => Untouched start) (fun _ => Untouched start) R n
        (entries.map writeEntry ++ rest) site := by
  induction entries with
  | nil =>
      intro records n site writing next
      exact next [] n site rfl (by rw [List.append_nil]; exact writing)
  | cons entry others ih =>
      intro records n site writing next
      refine ⟨writing.toUntouched, ?_⟩
      cases entry with
      | error thrown => exact writing.toUntouched
      | ok record =>
          refine Cmd.wp_mono (writeEntry_spec writing) ?_ (fun _ _ kept => kept)
          intro _ later writing
          refine ih writing ?_
          intro more n last whole writing
          refine next (record :: more) n last (by rw [whole]; rfl) ?_
          rw [List.append_cons]
          exact writing

theorem openReplacement_spec {environment : Compacting} (untouched : Untouched start site) :
    (openReplacement environment).wp (fun _ later => Writing start [] later)
      (fun _ later => Untouched start later) site := by
  unfold openReplacement
  rw [Cmd.wp_bind]
  have constructed := @construct_spec Site (fun _ => pure ()) (fun later => later = site)
    (fun later => later = site) (fun _ same => same)
    (fun _ _ same => same) { environment.opening with file := [], sync := .always } site rfl
  refine Cmd.wp_mono constructed ?_ ?_
  · rintro wal _ ⟨rfl, started⟩
    exact ⟨untouched.of_eq rfl rfl rfl, wal, rfl, started.sound, started.sync, started.appended⟩
  · rintro _ _ rfl
    exact untouched

/-- Flushing a log that is clean does nothing. -/
theorem flusherTick_clean {wal : Wal} (healthy : wal.failed = false) (clean : wal.dirty = false) :
    flusherTick wal = (.ok (), wal) := by
  have quiet : flushLocked wal = (.ok (), wal) := by
    unfold flushLocked
    change (if wal.failed = true then _ else _ : Cmd Exn Wal Unit) wal = _
    rw [healthy, clean]
    rfl
  unfold flusherTick Cmd.handle
  rw [quiet]

/-- A clean replacement is complete when it is closed. -/
theorem closeReplacement_spec (writing : Writing start records site)
    (clean : forall wal, site.replacement = some wal -> wal.failed = false ∧ wal.dirty = false) :
    closeReplacement.wp (fun _ later => Written start records later)
      (fun _ later => Untouched start later) site := by
  rcases writing.writer with ⟨wal, here, sound, always, appended⟩
  rcases clean wal here with ⟨healthy, clean⟩
  unfold closeReplacement
  rw [Cmd.wp_bind]
  refine wp_onReplacement here ?_
  unfold Cmd.wp
  rw [flusherTick_clean healthy clean]
  have durable := sound.clean healthy clean (by rw [always]; decide)
  refine ⟨writing.toUntouched.of_eq rfl rfl rfl, ⟨wal.stream, rfl, ?_,
    appended ▸ sound.accepted healthy, ?_, durable⟩, appended⟩
  · rw [sound.written healthy, appended]
  · exact Nat.le_antisymm sound.flushed_le (durable ▸ sound.synced_le)

/-- Reading back changes nothing. -/
theorem verify_spec {environment : Compacting} (written : Written start records site) :
    (verify environment).wp (fun _ later => Written start records later)
      (fun _ later => Untouched start later) site := by
  unfold verify
  rw [Cmd.wp_bind, Cmd.wp_read, Cmd.wp_bind]
  have same := @readLog_invariant Site (fun _ => pure ()) (fun later => later = site)
    (fun later => later = site) (fun _ same => same)
    (fun _ _ same => same) ((site.temporary.map LogFile.contents).getD []) environment.readLimit
    environment.truncates site rfl
  refine Cmd.wp_mono same ?_ ?_
  · rintro outcome _ ⟨rfl, -⟩
    exact Cmd.wp_require (fun _ => written) (fun _ => written.toUntouched)
  · rintro _ _ rfl
    exact written.toUntouched

/-- The steps before the old log is flushed leave it alone, and the new log is
complete when they are done. -/
theorem through_prepareSteps {environment : Compacting} (entries : List (Except Exn Record))
    (untouched : Untouched start site) :
    Cmd.Through (fun _ => Untouched start) (fun _ => Untouched start)
      (fun later => exists records, entries = records.map Except.ok ∧ Written start records later) 0
      (prepareSteps environment entries) site := by
  unfold prepareSteps
  refine ⟨untouched, Cmd.wp_mono (openReplacement_spec untouched) ?_ (fun _ _ kept => kept)⟩
  intro _ site writing
  refine ⟨writing.toUntouched, Cmd.wp_mono (writing.wp_quiet (fun _ => True) ?_) ?_
    (fun _ _ kept => kept)⟩
  · intro wal sound
    refine Cmd.wp_mono (beginBatch_spec sound) ?_ (fun _ _ never => never.elim)
    rintro _ later ⟨laterSound, evolves, same⟩
    exact ⟨laterSound, evolves, same, trivial⟩
  rintro _ site ⟨writing, -⟩
  refine through_writeEntries entries writing ?_
  intro records n site whole writing
  rw [List.nil_append] at writing
  refine ⟨writing.toUntouched, Cmd.wp_mono (writing.wp_quiet (fun _ => True) ?_) ?_
    (fun _ _ kept => kept)⟩
  · intro wal sound
    refine Cmd.wp_mono (endBatch_spec sound) ?_ (fun _ _ _ => trivial)
    rintro _ later ⟨laterSound, evolves, same, -⟩
    exact ⟨laterSound, evolves, same, trivial⟩
  rintro _ site ⟨writing, -⟩
  refine ⟨writing.toUntouched, Cmd.wp_mono
    (writing.wp_quiet (fun wal => wal.failed = false ∧ wal.dirty = false) ?_) ?_
    (fun _ _ kept => kept)⟩
  · intro wal sound
    refine Cmd.wp_mono (flush_spec sound) ?_ (fun _ _ _ => trivial)
    rintro _ later ⟨laterSound, quiet, clean⟩
    exact ⟨laterSound, quiet.toEvolves, quiet.sameAppended, clean⟩
  rintro _ site ⟨writing, clean⟩
  refine ⟨writing.toUntouched, Cmd.wp_mono (closeReplacement_spec writing clean) ?_
    (fun _ _ kept => kept)⟩
  intro _ site written
  refine ⟨written.toUntouched, Cmd.wp_mono (verify_spec written) ?_ (fun _ _ kept => kept)⟩
  intro _ site written
  exact ⟨written.toUntouched, records, whole, written⟩

/-! ## The switch -/

/-- A flush never takes anything back. -/
theorem flushLocked_flushed (wal : Wal) (sound : Sound wal) :
    flushLocked.wp (fun _ after => wal.stream.flushed ≤ after.stream.flushed ∧
        (wal.file.isSome = true -> after.file.isSome = true))
      (fun _ after => wal.stream.flushed ≤ after.stream.flushed ∧
        (wal.file.isSome = true -> after.file.isSome = true)) wal := by
  unfold flushLocked
  rw [Cmd.wp_bind, Cmd.wp_read]
  refine Cmd.wp_ite (fun _ => ⟨Nat.le_refl _, id⟩) ?_
  intro _
  refine Cmd.wp_ite (fun _ => ⟨Nat.le_refl _, id⟩) ?_
  intro _
  refine wp_ioCall ?_ ?_
  · intro progress _
    exact ⟨(LogFile.flushed_spill_le progress sound.flushed_le).1, fun _ => rfl⟩
  · intro progress _
    rw [Cmd.wp_bind, Cmd.wp_update, Cmd.wp_bind]
    refine Cmd.wp_onlyIf ?_ (fun _ => ⟨sound.flushed_le, fun _ => rfl⟩)
    intro _
    unfold syncLocked
    refine wp_ioCall ?_ ?_
    · intro _ _
      exact ⟨sound.flushed_le, fun _ => rfl⟩
    · intro _ _
      exact ⟨sound.flushed_le, fun _ => rfl⟩

/-- Everything the old log was given is in its file. -/
structure Flushed (start : Wal) (records : List Record) (site : Site) : Prop extends
    Waiting start site where
  complete : exists file, site.temporary = some file ∧ NewLog records file
  written : site.written = records
  healthy : site.wal.failed = false
  clean : site.wal.dirty = false

theorem flushOld_spec (written : Written start records site) (sound : Sound start)
    (healthy : start.failed = false) :
    (onLog flushLocked).wp (fun _ later => Flushed start records later)
      (fun _ later => Waiting start later ∧ later.wal.failed = true) site := by
  have before := written.toUntouched.waiting sound healthy
  unfold onLog
  rw [Cmd.wp_zoom]
  have both := Cmd.wp_and (flushLocked_spec before.sound) (flushLocked_flushed site.wal before.sound)
  have waiting : forall later, Sound later -> Quiet site.wal later ->
      site.wal.stream.flushed ≤ later.stream.flushed ->
      (site.wal.file.isSome = true -> later.file.isSome = true) ->
      Waiting start { site with wal := later } := by
    intro later sound quiet flushed opened
    exact ⟨sound, before.quiet.trans quiet, Nat.le_trans before.flushed flushed,
      opened before.opened, before.parked, before.switching⟩
  refine Cmd.wp_mono both ?_ ?_
  · rintro _ later ⟨⟨sound, quiet, healthy, clean⟩, flushed, opened⟩
    exact ⟨waiting later sound quiet flushed opened, written.complete, written.written, healthy, clean⟩
  · rintro _ later ⟨⟨sound, quiet, -, failed⟩, flushed, opened⟩
    exact ⟨waiting later sound quiet flushed opened, failed⟩

theorem Flushed.between (flushed : Flushed start records site) (order : flushes entries < count)
    (early : count < renames entries) : Between start entries count site :=
  { untouched := fun _ => by omega
    old := fun _ => flushed.toWaiting.holdsOld
    whole := fun _ => by omega
    new := fun _ => by omega }

theorem Waiting.broken (waiting : Waiting start site) (failed : site.wal.failed = true)
    (here : count = flushes entries) : Broken start entries count site := by
  have order := flushes_lt_renames entries
  exact
    { sound := waiting.cleaned
      old := fun _ => waiting.holdsOld
      new := fun _ => by omega
      untouched := fun _ => by omega
      unflushed := fun _ => ⟨failed, waiting.switching⟩
      switching := fun _ => by omega }

/-- The log is closed: a flag that is about to be set makes this final. -/
structure Closed (records : List Record) (site : Site) : Prop where
  healthy : site.wal.failed = false
  clean : site.wal.dirty = false
  file : site.wal.file = none
  switching : site.switching = true
  written : site.written = records

theorem Closed.cleaned (closed : Closed records site) : Sound site.cleanup.wal := by
  unfold Site.cleanup
  rw [closed.switching]
  have stream : ({ site.wal with failed := true } : Wal).stream = ⟨[], 0, 0⟩ := by
    unfold Wal.stream
    rw [closed.file]
    rfl
  rw [if_pos rfl]
  exact
    { flushed_le := by rw [stream]; exact Nat.le_refl _
      synced_le := by rw [stream]
      opened := nofun
      written := nofun
      accepted := nofun
      framed := ⟨[], Nat.zero_le _, by rw [stream]; exact List.nil_prefix⟩
      clean := nofun
      settled := nofun }

theorem Closed.atPath (closed : Closed records site) : site.atPath = site.parked := by
  unfold Site.atPath
  rw [closed.file]
  rfl

/-- The old file is at its path, flushed, and `file_` is closed. -/
structure Parked (start : Wal) (records : List Record) (site : Site) : Prop extends
    Closed records site where
  old : exists file, site.parked = some file ∧ OldLog start file ∧
    file.handed = magic ++ frames start.appended ∧ file.flushed = file.handed.length

/-- The new one is complete next to it. -/
structure Prepared (start : Wal) (records : List Record) (site : Site) : Prop extends
    Parked start records site where
  complete : exists file, site.temporary = some file ∧ NewLog records file

theorem Parked.holdsOld (parked : Parked start records site) : HoldsOld start site := by
  rcases parked.old with ⟨file, here, old, -⟩
  exact ⟨file, parked.toClosed.atPath.trans here, old⟩

theorem Parked.between (parked : Parked start records site) (here : count = renames entries) :
    Between start entries count site := by
  have order := flushes_lt_renames entries
  rcases parked.old with ⟨file, found, -, handed, flushed⟩
  exact
    { untouched := fun _ => by omega
      old := fun _ => parked.holdsOld
      whole := fun _ => ⟨file, parked.toClosed.atPath.trans found, handed, flushed⟩
      new := fun _ => by omega }

theorem Parked.broken (parked : Parked start records site) (order : flushes entries < count)
    (early : count ≤ renames entries) : Broken start entries count site :=
  { sound := parked.toClosed.cleaned
    old := fun _ => parked.holdsOld
    new := fun _ => by omega
    untouched := fun _ => by omega
    unflushed := fun _ => by omega
    switching := fun _ => parked.switching }

theorem closeLog_spec {environment : Compacting} (flushed : Flushed start records site)
    (sound : Sound start) (healthy : start.failed = false) :
    (closeLog environment).wp (fun _ later => Prepared start records later)
      (fun _ later => Parked start records later) site := by
  unfold closeLog
  rw [Cmd.wp_bind, Cmd.wp_update]
  rcases Option.isSome_iff_exists.mp flushed.opened with ⟨file, opened⟩
  have stream : site.wal.stream = file := by
    unfold Wal.stream
    rw [opened]
    rfl
  have parked : Parked start records { site with
      switching := true
      parked := site.wal.file
      wal := { site.wal with file := none } } := by
    refine ⟨⟨flushed.healthy, flushed.clean, rfl, rfl, flushed.written⟩, file, opened, ?_, ?_, ?_⟩
    · rw [<- stream]
      exact ⟨flushed.quiet.sameHanded, flushed.toWaiting.flushed, flushed.quiet.synced,
        flushed.sound.flushed_le⟩
    · rw [<- stream, flushed.quiet.sameHanded]
      exact sound.written healthy
    · rw [<- stream]
      exact flushed.sound.settled flushed.healthy flushed.clean
  exact Cmd.wp_require (fun _ => ⟨parked, flushed.complete⟩) (fun _ => parked)

/-- The new file is at the log's path. -/
structure Renamed (records : List Record) (site : Site) : Prop extends
    Closed records site where
  new : exists file, site.parked = some file ∧ NewLog records file

theorem Renamed.holdsNew (renamed : Renamed records site) (whole : entries = records.map Except.ok) :
    HoldsNew entries site := by
  rcases renamed.new with ⟨file, parked, new⟩
  exact ⟨file, records, renamed.toClosed.atPath.trans parked, whole, new⟩

theorem renameLog_spec {environment : Compacting} (prepared : Prepared start records site) :
    (renameLog environment).wp (fun _ later => Renamed records later)
      (fun _ later => Parked start records later) site := by
  unfold renameLog
  rw [Cmd.wp_bind]
  refine Cmd.wp_require ?_ (fun _ => prepared.toParked)
  intro _
  exact ⟨⟨prepared.healthy, prepared.clean, prepared.file, prepared.switching,
    prepared.written⟩, prepared.complete⟩

/-- The log writes to the new file. -/
structure Reopened (records : List Record) (site : Site) : Prop where
  healthy : site.wal.failed = false
  clean : site.wal.dirty = false
  switching : site.switching = true
  written : site.written = records
  appended : site.wal.appended = records
  new : exists file, site.wal.file = some file ∧ NewLog records file

/-- A log with the frames of its records, all of them durable, is sound. -/
theorem sound_of_newLog {wal : Wal} {file : LogFile} (opened : wal.file = some file)
    (new : NewLog wal.appended file) : Sound wal := by
  have stream : wal.stream = file := by
    unfold Wal.stream
    rw [opened]
    rfl
  exact
    { flushed_le := by rw [stream, new.flushed]
      synced_le := by rw [stream, new.synced, new.flushed]
      opened := fun _ => by rw [opened]; rfl
      written := fun _ => by rw [stream]; exact new.handed
      accepted := fun _ => new.accepted
      framed := ⟨[], Nat.zero_le _, by rw [stream, List.append_nil, new.handed]⟩
      clean := fun _ _ _ => by rw [stream]; exact new.synced
      settled := fun _ _ => by rw [stream]; exact new.flushed }

theorem Reopened.holdsNew (reopened : Reopened records site)
    (whole : entries = records.map Except.ok) : HoldsNew entries site := by
  rcases reopened.new with ⟨file, opened, new⟩
  refine ⟨file, records, ?_, whole, new⟩
  unfold Site.atPath
  rw [opened]
  rfl

theorem Reopened.cleaned (reopened : Reopened records site) : Sound site.cleanup.wal := by
  rcases reopened.new with ⟨file, opened, new⟩
  unfold Site.cleanup
  rw [reopened.switching, if_pos rfl]
  refine sound_of_newLog opened ?_
  change NewLog site.wal.appended file
  rw [reopened.appended]
  exact new

theorem Reopened.sound (reopened : Reopened records site) : Sound site.wal := by
  rcases reopened.new with ⟨file, opened, new⟩
  refine sound_of_newLog opened ?_
  rw [reopened.appended]
  exact new

theorem reopenLog_spec {environment : Compacting} (renamed : Renamed records site) :
    (reopenLog environment).wp (fun _ later => Reopened records later)
      (fun _ later => Renamed records later) site := by
  unfold reopenLog
  rw [Cmd.wp_bind]
  refine Cmd.wp_require ?_ (fun _ => renamed)
  intro _
  exact ⟨renamed.healthy, renamed.clean, renamed.switching, renamed.written, renamed.written,
    renamed.new⟩

/-- After all steps the log holds what the writer appended. -/
def Compacted (entries : List (Except Exn Record)) (site : Site) : Prop :=
  exists records, entries = records.map Except.ok ∧ Reopened records site ∧
    site.wal.bytes = site.bytes

theorem through_switch {environment : Compacting} (whole : entries = records.map Except.ok)
    (prepared : Prepared start records site) :
    Cmd.Through (Between start entries) (Broken start entries) (Compacted entries)
      (entries.length + 8)
      [renameLog environment,
        Cmd.require (environment.opensDirectory = true) (.error .diskWriteFailed),
        Cmd.require (environment.syncsDirectory = true) (.error .diskWriteFailed),
        reopenLog environment,
        Cmd.require (environment.buffers = true) (.error .diskWriteFailed),
        Cmd.require (environment.locks = true) (.error .diskWriteFailed),
        finishCompaction] site := by
  have order := flushes_lt_renames entries
  have late : forall k, renames entries < entries.length + 8 + (k + 1) := by
    intro k
    unfold renames
    omega
  refine ⟨prepared.toParked.between rfl, Cmd.wp_mono (renameLog_spec prepared) ?_ ?_⟩
  · intro _ site renamed
    have holds := renamed.holdsNew whole
    have breaks : forall k, Broken start entries (entries.length + 8 + (k + 1)) site :=
      fun k => holds.broken (late k) renamed.toClosed.cleaned renamed.switching
    refine ⟨holds.between (late 0), Cmd.wp_require ?_ (fun _ => breaks 0)⟩
    intro _
    refine ⟨holds.between (late 1), Cmd.wp_require ?_ (fun _ => breaks 1)⟩
    intro _
    refine ⟨holds.between (late 2), Cmd.wp_mono (reopenLog_spec renamed) ?_ ?_⟩
    · intro _ site reopened
      have holds := reopened.holdsNew whole
      have breaks : forall k, Broken start entries (entries.length + 8 + (k + 1)) site :=
        fun k => holds.broken (late k) reopened.cleaned reopened.switching
      refine ⟨holds.between (late 3), Cmd.wp_require ?_ (fun _ => breaks 3)⟩
      intro _
      refine ⟨holds.between (late 4), Cmd.wp_require ?_ (fun _ => breaks 4)⟩
      intro _
      have finished : Reopened records
          { site with wal := { site.wal with bytes := site.bytes, dirty := false } } :=
        ⟨reopened.healthy, rfl, reopened.switching, reopened.written, reopened.appended,
          reopened.new⟩
      exact ⟨holds.between (late 5), (finished.holdsNew whole).between (late 6),
        records, whole, finished, rfl⟩
    · intro _ site renamed
      exact (renamed.holdsNew whole).broken (late 2) renamed.toClosed.cleaned renamed.switching
  · intro _ site parked
    exact parked.broken order (Nat.le_refl _)

theorem length_prepareSteps (environment : Compacting) (entries : List (Except Exn Record)) :
    (prepareSteps environment entries).length = flushes entries := by
  unfold prepareSteps flushes
  simp only [List.length_append, List.length_map, List.length_cons, List.length_nil]
  omega

theorem through_compactSteps {environment : Compacting} (entries : List (Except Exn Record))
    (untouched : Untouched start site) (sound : Sound start) (healthy : start.failed = false) :
    Cmd.Through (Between start entries) (Broken start entries) (Compacted entries) 0
      (compactSteps environment entries) site := by
  have length := length_prepareSteps environment entries
  have order := flushes_lt_renames entries
  unfold compactSteps
  refine Cmd.Through.append (Cmd.Through.mono (through_prepareSteps entries untouched) ?_ ?_) ?_
  · intro k later _ early holds
    rw [length, Nat.zero_add] at early
    exact holds.between sound healthy early
  · intro k later _ early holds
    rw [length, Nat.zero_add] at early
    exact holds.broken sound healthy early
  rintro site ⟨records, whole, written⟩
  rw [length, Nat.zero_add]
  refine ⟨written.toUntouched.between sound healthy (Nat.le_refl _),
    Cmd.wp_mono (flushOld_spec written sound healthy) ?_ ?_⟩
  · intro _ site flushed
    refine ⟨flushed.between (Nat.lt_succ_self _) (by unfold flushes renames; omega),
      Cmd.wp_mono (closeLog_spec flushed sound healthy) ?_ ?_⟩
    · intro _ site prepared
      exact through_switch whole prepared
    · intro _ site parked
      exact parked.broken (Nat.lt_succ_self _) order
  · rintro _ site ⟨waiting, failed⟩
    exact waiting.broken failed rfl

/-- The ways in which `compact` can end. -/
theorem compact_cases (environment : Compacting) (entries : List (Except Exn Record)) {wal : Wal}
    (sound : Sound wal) :
    exists start, lock wal = (.ok (), start) ∧ Sound start ∧ Quiet wal start ∧
      ((compact environment entries (Site.idle wal) =
          (.error (.error .diskWriteFailed), Site.idle start)) ∨
        start.failed = false ∧
        ((exists after, compact environment entries (Site.idle wal) = (.ok (), after) ∧
            Compacted entries after) ∨
          exists thrown count site,
            Cmd.Breaks (compactSteps environment entries) (Site.idle start) count thrown site ∧
            compact environment entries (Site.idle wal) = (.error thrown, site.cleanup))) := by
  have lockedState := lock_spec sound
  rcases Cmd.exists_ok_of_wp lockedState with ⟨_, start, locked, startSound, quiet⟩
  have entered : onLog lock (Site.idle wal) = (.ok (), Site.idle start) := by
    unfold onLog Cmd.zoom
    rw [show (Site.idle wal).wal = wal from rfl, locked]
    rfl
  have reads : (Cmd.read : Cmd Exn Site Site) (Site.idle start) =
    (.ok (Site.idle start), Site.idle start) :=
    rfl
  refine ⟨start, locked, startSound, quiet, ?_⟩
  unfold compact
  rw [Cmd.bind_ok entered, Cmd.bind_ok reads]
  by_cases refused : (Site.idle start).wal.failed = true ∨ (Site.idle start).wal.deferSync = true ∨
      environment.occupied = true
  · rw [if_pos refused]
    exact Or.inl rfl
  · rw [if_neg refused]
    have healthy : start.failed = false := by
      rw [not_or, Bool.not_eq_true] at refused
      exact refused.1
    refine Or.inr ⟨healthy, ?_⟩
    unfold Cmd.handle
    have through := @through_compactSteps start (Site.idle start) environment entries
      ⟨rfl, rfl, rfl⟩ startSound healthy
    rcases ran : Cmd.forEach (compactSteps environment entries) id (Site.idle start) with
      ⟨thrown | _, site⟩
    · rcases Cmd.forEach_breaks ran with ⟨count, breaks⟩
      exact Or.inr ⟨thrown, count, site, breaks, rfl⟩
    · have compacted := Cmd.of_wp_ok (Cmd.wp_through through) ran
      exact Or.inl ⟨site, rfl, compacted⟩

/-- Compaction leaves a sound log, whatever happens on the way. -/
theorem compact_spec {environment : Compacting} (entries : List (Except Exn Record)) {wal : Wal}
    (sound : Sound wal) :
    (compact environment entries).wp (fun _ after => Compacted entries after ∧ Sound after.wal)
      (fun _ after => Sound after.wal) (Site.idle wal) := by
  unfold Cmd.wp
  rcases compact_cases environment entries sound with ⟨start, -, startSound, -, ran | ⟨healthy,
    ⟨after, ran, compacted⟩ | ⟨thrown, count, site, breaks, ran⟩⟩⟩
  · rw [ran]
    exact startSound
  · rw [ran]
    refine ⟨compacted, ?_⟩
    rcases compacted with ⟨records, -, reopened, -⟩
    exact reopened.sound
  · rw [ran]
    have through := @through_compactSteps start (Site.idle start) environment entries
      ⟨rfl, rfl, rfl⟩ startSound healthy
    have broken := through.broken breaks
    exact broken.sound

end Wal
end Reddish
