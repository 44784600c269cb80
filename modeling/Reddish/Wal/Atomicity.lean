import Reddish.Wal.Compaction

namespace Reddish
namespace Wal

open Library Numeral

/-!
# Compaction is atomic

Whatever step of `compact` fails, and wherever between two steps the process
dies, the log's path holds the old log or the complete new one.  The steps are
counted: step number `flushes` is the last flush of the old log, and step number
`renames` puts the new log in its place.
-/

variable {start : Wal} {site : Site} {entries : List (Except Exn Record)} {count : Nat}

theorem rename_step (environment : Compacting) (entries : List (Except Exn Record)) :
    (compactSteps environment entries)[renames entries]? = some (renameLog environment) := by
  have position : renames entries = (prepareSteps environment entries).length + 2 := by
    rw [length_prepareSteps]
    rfl
  unfold compactSteps
  rw [position, List.getElem?_append_right (Nat.le_add_right _ _), Nat.add_sub_cancel_left]
  rfl

/-- The catch block does not touch the log's path. -/
theorem atPath_cleanup (site : Site) : site.cleanup.atPath = site.atPath := by
  unfold Site.cleanup Site.atPath
  cases site.switching with
  | false => rfl
  | true => rfl

theorem Untouched.cleanup (untouched : Untouched start site) : site.cleanup.wal = start := by
  unfold Site.cleanup
  rw [untouched.switching]
  exact untouched.wal

/-- After the last flush of the old log a failure is final. -/
theorem Broken.final (broken : Broken start entries count site) (late : flushes entries ≤ count) :
    site.cleanup.wal.failed = true := by
  unfold Site.cleanup
  rcases Nat.eq_or_lt_of_le late with here | after
  · have unflushed := broken.unflushed here.symm
    rw [unflushed.2]
    exact unflushed.1
  · rw [broken.switching after, if_pos rfl]

/-- An append that returns extends the file by its frame. -/
theorem append_extends {wal later : Wal} (sound : Sound wal) (healthy : wal.failed = false)
    {record : Record} (ran : append record wal = (.ok (), later)) :
    later.stream.handed = wal.stream.handed ++ frame record := by
  have appended := Cmd.of_wp_ok (append_spec sound record) ran
  rcases appended with ⟨laterSound, -, laterHealthy, grown, -⟩
  rw [laterSound.written laterHealthy, sound.written healthy, grown]
  unfold frames
  rw [List.flatMap_append, List.flatMap_singleton, List.append_assoc]

/-- Compaction of a log, which begins with the state `start` behind the mutex.
Between two steps the log's path holds the old log up to the rename and the
complete new log from then on, and every record of the old log is in its file when
the rename begins.  A step that throws leaves the path like that, and so does the
catch block.  If it comes before the last flush of the old log, the log is what it
was and an append extends the old file; from then on the log has failed and
rejects every append.  The call ends in one of these ways, or it is refused
outright, or the log holds what the writer appended. -/
theorem compact_atomic (environment : Compacting) (entries : List (Except Exn Record)) {wal : Wal}
    (sound : Sound wal) :
    exists start, lock wal = (.ok (), start) ∧ Quiet wal start ∧
      (start.failed = false ->
        (forall count site, count ≤ (compactSteps environment entries).length ->
          Cmd.Reaches (compactSteps environment entries) (Site.idle start) count site ->
          (count ≤ renames entries -> HoldsOld start site) ∧
          (count = renames entries -> exists file, site.atPath = some file ∧
            file.handed = magic ++ frames start.appended ∧ file.flushed = file.handed.length) ∧
          (renames entries < count -> HoldsNew entries site)) ∧
        (forall count thrown site,
          Cmd.Breaks (compactSteps environment entries) (Site.idle start) count thrown site ->
          site.cleanup.atPath = site.atPath ∧
          (count ≤ renames entries -> HoldsOld start site) ∧
          (renames entries < count -> HoldsNew entries site) ∧
          (count < flushes entries -> site.cleanup.wal = start ∧
            forall record later, append record start = (.ok (), later) ->
              later.stream.handed = start.stream.handed ++ frame record) ∧
          (flushes entries ≤ count -> site.cleanup.wal.failed = true ∧
            forall record, (append record site.cleanup.wal).1 = .error (.error .diskWriteFailed)))) ∧
      (compact environment entries (Site.idle wal) =
          (.error (.error .diskWriteFailed), Site.idle start) ∨
        start.failed = false ∧
        ((exists after, compact environment entries (Site.idle wal) = (.ok (), after) ∧
            Compacted entries after) ∨
          exists thrown count site,
            Cmd.Breaks (compactSteps environment entries) (Site.idle start) count thrown site ∧
            compact environment entries (Site.idle wal) = (.error thrown, site.cleanup))) := by
  rcases compact_cases environment entries sound with ⟨start, locked, startSound, quiet, ways⟩
  refine ⟨start, locked, quiet, ?_, ways⟩
  intro healthy
  have through := @through_compactSteps start (Site.idle start) environment entries
    ⟨rfl, rfl, rfl⟩ startSound healthy
  constructor
  · intro count site inside reaches
    have between := through.reached inside reaches
    rw [Nat.zero_add] at between
    exact ⟨between.old, between.whole, between.new⟩
  · intro count thrown site breaks
    have broken := through.broken breaks
    rw [Nat.zero_add] at broken
    refine ⟨atPath_cleanup site, broken.old, broken.new, ?_, ?_⟩
    · intro early
      exact ⟨(broken.untouched early).cleanup, fun record later => append_extends startSound healthy⟩
    · intro late
      have failed := broken.final late
      exact ⟨failed, fun record => (failed_rejects broken.sound failed record).1⟩

/-- A new log on a disk that does what it is asked for. -/
def blank : Wal where
  file := some ⟨magic, magic.length, magic.length⟩
  sync := .always
  bytes := magic.length
  failed := false
  dirty := false
  deferSync := false
  capacity := 0
  appended := []
  io := fun _ => .done 0
  reserveFails := fun _ => false
  ticks := fun _ => 0

theorem sound_blank : Sound blank :=
  @sound_of_newLog blank ⟨magic, magic.length, magic.length⟩ rfl ⟨rfl, nofun, rfl, rfl⟩

/-- A file system in which the rename fails. -/
def unrenamed : Compacting where
  occupied := false
  opening := ⟨[], .always, true, none, true, true, true, true, 0, fun _ => .done 0, fun _ => false,
    fun _ => 0⟩
  readLimit := none
  truncates := true
  closes := true
  renames := false
  opensDirectory := true
  syncsDirectory := true
  reopens := true
  buffers := true
  locks := true

/-- A rename that fails leaves the old log at its path, and the log has failed. -/
theorem compact_atomic_unrenamed :
    exists start thrown site, lock blank = (.ok (), start) ∧
      Cmd.Breaks (compactSteps unrenamed [.ok ⟨0, []⟩]) (Site.idle start) 9 thrown site ∧
      HoldsOld start site ∧ site.cleanup.wal.failed = true := by
  have whole := compact_atomic unrenamed [.ok ⟨0, []⟩] sound_blank
  rcases whole with ⟨start, locked, -, atomic, -⟩
  have same : start = (lock blank).2 := by rw [locked]
  have healthy : start.failed = false := by
    rw [same]
    rfl
  have reached : (Cmd.forEach ((compactSteps unrenamed [.ok ⟨0, []⟩]).take 9) id
      (Site.idle start)).1 = .ok () := by
    rw [same]
    decide +kernel
  have breaks : Cmd.Breaks (compactSteps unrenamed [.ok ⟨0, []⟩]) (Site.idle start) 9
      (.error .diskWriteFailed) _ :=
    ⟨_, renameLog unrenamed, Prod.ext reached rfl, rename_step unrenamed [.ok ⟨0, []⟩], rfl⟩
  have held := (atomic healthy).2 _ _ _ breaks
  exact ⟨start, _, _, locked, breaks, held.2.1 (Nat.le_refl _), (held.2.2.2.2 (by decide)).1⟩

end Wal
end Reddish
