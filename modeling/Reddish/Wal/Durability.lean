import Reddish.Wal.Log

namespace Reddish
namespace Wal

open Library

/-!
# What every call on a log keeps

Two notions carry all results about the log.  `Sound` says how the stream and
the flags fit together in one state.  `Evolves` says how a later state relates
to an earlier one, whatever calls were made in between and whichever of them
failed: nothing is undone, failure is permanent, and the environment's future
is only consumed.  Each call contributes one lemma with these two conclusions
and what it achieved.
-/

/-- The consistency of one state.  As long as nothing has failed, the stream
was handed exactly the magic number and the frames of all appended records;
afterwards at most a part of one more frame follows. -/
structure Sound (wal : Wal) : Prop where
  flushed_le : wal.stream.flushed ≤ wal.stream.handed.length
  synced_le : wal.stream.synced ≤ wal.stream.flushed
  opened : wal.failed = false -> wal.file.isSome = true
  written : wal.failed = false -> wal.stream.handed = magic ++ frames wal.appended
  accepted : wal.failed = false -> forall record, record ∈ wal.appended -> Accepted record
  framed : exists extra : List Record,
    extra.length ≤ 1 ∧ wal.stream.handed <+: magic ++ frames (wal.appended ++ extra)
  clean : wal.failed = false -> wal.dirty = false -> wal.sync ≠ .none ->
    wal.stream.synced = wal.stream.handed.length
  settled : wal.failed = false -> wal.dirty = false ->
    wal.stream.flushed = wal.stream.handed.length

/-- Among the first outcomes of the calls on the stream is a failure. -/
def Fails (wal : Wal) (count : Nat) : Prop :=
  exists n progress, n < count ∧ wal.io n = .failed progress

/-- The relation between a state and a later one.  Some outcomes were used in
between, and a failure among them was noticed. -/
structure Evolves (before after : Wal) : Prop where
  sync : after.sync = before.sync
  synced : before.stream.synced ≤ after.stream.synced
  handed : before.stream.handed <+: after.stream.handed
  appended : before.appended <+: after.appended
  capacity : before.capacity ≤ after.capacity
  sticky : before.failed = true -> after.failed = true ∧ after.appended = before.appended ∧
    after.stream = before.stream
  io : exists skipped, (forall n, after.io n = before.io (n + skipped)) ∧
    (Fails before skipped -> after.failed = true)
  reserveFails : exists skipped, forall n, after.reserveFails n = before.reserveFails (n + skipped)
  blame : after.failed = true -> before.failed = true ∨
    exists n progress, before.io n = .failed progress

theorem not_fails_zero (wal : Wal) : ¬ Fails wal 0 :=
  fun fails => Nat.not_lt_zero _ fails.choose_spec.choose_spec.1

theorem not_fails_succ {wal : Wal} {count progress : Nat} (before : ¬ Fails wal count)
    (outcome : wal.io count = .done progress) : ¬ Fails wal (count + 1) := by
  rintro ⟨n, other, used, failed⟩
  rcases Nat.lt_succ_iff_lt_or_eq.mp used with early | rfl
  · exact before ⟨n, other, early, failed⟩
  · rw [outcome] at failed
    cases failed

namespace Evolves

theorem refl (wal : Wal) : Evolves wal wal where
  sync := rfl
  synced := Nat.le_refl _
  handed := List.prefix_refl _
  appended := List.prefix_refl _
  capacity := Nat.le_refl _
  sticky := fun failed => ⟨failed, rfl, rfl⟩
  io := ⟨0, fun _ => rfl, fun fails => absurd fails (not_fails_zero wal)⟩
  reserveFails := ⟨0, fun _ => rfl⟩
  blame := Or.inl

theorem trans {first second third : Wal} (left : Evolves first second)
    (right : Evolves second third) : Evolves first third where
  sync := right.sync.trans left.sync
  synced := Nat.le_trans left.synced right.synced
  handed := left.handed.trans right.handed
  appended := left.appended.trans right.appended
  capacity := Nat.le_trans left.capacity right.capacity
  sticky := by
    intro failed
    have middle := left.sticky failed
    have last := right.sticky middle.1
    exact ⟨last.1, last.2.1.trans middle.2.1, last.2.2.trans middle.2.2⟩
  io := by
    rcases left.io with ⟨m, leftShift, leftFailure⟩
    rcases right.io with ⟨n, rightShift, rightFailure⟩
    refine ⟨n + m, fun i => ?_, ?_⟩
    · rw [rightShift, leftShift, Nat.add_assoc]
    · rintro ⟨i, progress, used, failed⟩
      by_cases early : i < m
      · exact (right.sticky (leftFailure ⟨i, progress, early, failed⟩)).1
      · refine rightFailure ⟨i - m, progress, by omega, ?_⟩
        rw [leftShift, Nat.sub_add_cancel (Nat.not_lt.mp early)]
        exact failed
  reserveFails := by
    rcases left.reserveFails with ⟨m, leftShift⟩
    rcases right.reserveFails with ⟨n, rightShift⟩
    refine ⟨n + m, fun i => ?_⟩
    rw [rightShift, leftShift, Nat.add_assoc]
  blame := by
    intro failed
    rcases right.blame failed with middle | ⟨n, progress, outcome⟩
    · exact left.blame middle
    · rcases left.io with ⟨skipped, shift, -⟩
      exact Or.inr ⟨n + skipped, progress, (shift n).symm.trans outcome⟩

end Evolves

/-- A call that appends nothing and leaves the batch flag alone. -/
structure Quiet (before after : Wal) : Prop extends Evolves before after where
  sameAppended : after.appended = before.appended
  sameHanded : after.stream.handed = before.stream.handed
  sameDefer : after.deferSync = before.deferSync
  sameBytes : after.bytes = before.bytes

namespace Quiet

theorem refl (wal : Wal) : Quiet wal wal :=
  ⟨Evolves.refl wal, rfl, rfl, rfl, rfl⟩

theorem trans {first second third : Wal} (left : Quiet first second)
    (right : Quiet second third) : Quiet first third :=
  ⟨left.toEvolves.trans right.toEvolves, right.sameAppended.trans left.sameAppended,
    right.sameHanded.trans left.sameHanded, right.sameDefer.trans left.sameDefer,
    right.sameBytes.trans left.sameBytes⟩

end Quiet

/-! ## Changes of the stream -/

/-- Consuming an outcome and changing the flushed and synced marks of a log
that has not failed is quiet. -/
private theorem quiet_of_stream {wal : Wal} (file : LogFile) (failed dirty : Bool)
    (healthy : wal.failed = false) (handed : file.handed = wal.stream.handed)
    (synced : wal.stream.synced ≤ file.synced) (skipped : Nat)
    (blame : failed = true <-> Fails wal skipped) :
    Quiet wal { wal.withStream file with
      io := fun n => wal.io (n + skipped), failed := failed, dirty := dirty } where
  sync := rfl
  synced := synced
  handed := by
    change wal.stream.handed <+: file.handed
    rw [handed]
  appended := List.prefix_refl _
  capacity := Nat.le_refl _
  sticky := by
    intro impossible
    rw [healthy] at impossible
    cases impossible
  io := ⟨skipped, fun _ => rfl, blame.mpr⟩
  reserveFails := ⟨0, fun _ => rfl⟩
  blame := by
    intro now
    rcases blame.mp now with ⟨n, progress, -, outcome⟩
    exact Or.inr ⟨n, progress, outcome⟩
  sameAppended := rfl
  sameHanded := handed
  sameDefer := rfl
  sameBytes := rfl

private theorem unblamed {wal : Wal} {skipped : Nat} (healthy : wal.failed = false)
    (fine : ¬ Fails wal skipped) : wal.failed = true <-> Fails wal skipped := by
  rw [healthy]
  exact ⟨nofun, fun fails => absurd fails fine⟩

theorem LogFile.flushed_spill_le {file : LogFile} (progress : Nat)
    (inside : file.flushed ≤ file.handed.length) :
    file.flushed ≤ (file.spill progress).flushed ∧
      (file.spill progress).flushed ≤ (file.spill progress).handed.length := by
  simp only [LogFile.spill]
  omega

/-! ## Flushing -/

/-- A call of the operating system fails or is done. -/
theorem wp_ioCall {α : Type} {rest : IoResult -> Cmd Exn Wal α} {Q : α -> Wal -> Prop}
    {E : Exn -> Wal -> Prop} {wal : Wal}
    (failed : forall progress, wal.io 0 = .failed progress ->
      (rest (.failed progress)).wp Q E { wal with io := fun n => wal.io (n + 1) })
    (done : forall progress, wal.io 0 = .done progress ->
      (rest (.done progress)).wp Q E { wal with io := fun n => wal.io (n + 1) }) :
    (ioCall >>= rest).wp Q E wal := by
  change (rest (wal.io 0)).wp Q E { wal with io := fun n => wal.io (n + 1) }
  cases outcome : wal.io 0 with
  | failed progress => exact failed progress outcome
  | done progress => exact done progress outcome

/-- `flush_locked` syncs everything handed over, or fails for good. -/
theorem flushLocked_spec {wal : Wal} (sound : Sound wal) :
    flushLocked.wp
      (fun _ after => Sound after ∧ Quiet wal after ∧ after.failed = false ∧ after.dirty = false)
      (fun thrown after => Sound after ∧ Quiet wal after ∧
        thrown = .error .diskWriteFailed ∧ after.failed = true) wal := by
  unfold flushLocked
  rw [Cmd.wp_bind, Cmd.wp_read]
  by_cases failed : wal.failed = true
  · rw [if_pos failed, Cmd.wp_raise]
    exact ⟨sound, Quiet.refl wal, rfl, failed⟩
  rw [if_neg failed]
  have healthy : wal.failed = false := Bool.eq_false_iff.mpr failed
  by_cases clean : wal.dirty = false
  · rw [clean, Bool.not_false, if_pos rfl, Cmd.wp_pure]
    exact ⟨sound, Quiet.refl wal, healthy, clean⟩
  have dirty : wal.dirty = true := Bool.eq_true_of_not_eq_false clean
  rw [dirty, Bool.not_true, if_neg Bool.false_ne_true]
  refine wp_ioCall ?_ ?_
  · intro progress outcome
    have moved := LogFile.flushed_spill_le progress sound.flushed_le
    refine ⟨?_, quiet_of_stream (wal.stream.spill progress) true wal.dirty healthy rfl
      (Nat.le_refl _) 1 ⟨fun _ => ⟨0, progress, Nat.one_pos, outcome⟩, fun _ => rfl⟩, rfl, rfl⟩
    exact
      { sound with
        flushed_le := moved.2
        synced_le := Nat.le_trans sound.synced_le moved.1
        opened := nofun
        written := nofun
        accepted := nofun
        clean := nofun
        settled := nofun }
  · intro progress outcome
    have flushed := not_fails_succ (not_fails_zero wal) outcome
    rw [Cmd.wp_bind, Cmd.wp_update, Cmd.wp_bind]
    by_cases unsynced : wal.sync = .none
    · rw [Cmd.onlyIf, if_neg (not_not_intro unsynced), Cmd.wp_pure, Cmd.wp_update]
      refine ⟨?_, quiet_of_stream wal.stream.flush wal.failed false healthy rfl
        (Nat.le_refl _) 1 (unblamed healthy flushed), healthy, rfl⟩
      exact
        { sound with
          flushed_le := Nat.le_refl _
          synced_le := Nat.le_trans sound.synced_le sound.flushed_le
          opened := fun _ => rfl
          clean := fun _ _ synced => False.elim (synced unsynced)
          settled := fun _ _ => rfl }
    · rw [Cmd.onlyIf, if_pos unsynced]
      unfold syncLocked
      refine wp_ioCall ?_ ?_
      · intro progress second
        refine ⟨?_, quiet_of_stream wal.stream.flush true wal.dirty healthy rfl
          (Nat.le_refl _) 2 ⟨fun _ => ⟨1, progress, Nat.one_lt_two, second⟩, fun _ => rfl⟩, rfl, rfl⟩
        exact
          { sound with
            flushed_le := Nat.le_refl _
            synced_le := Nat.le_trans sound.synced_le sound.flushed_le
            opened := nofun
            written := nofun
            accepted := nofun
            clean := nofun
            settled := nofun }
      · intro progress second
        refine ⟨?_, quiet_of_stream wal.stream.flush.sync wal.failed false healthy rfl
          (Nat.le_trans sound.synced_le sound.flushed_le) 2
          (unblamed healthy (not_fails_succ flushed second)), healthy, rfl⟩
        exact
          { sound with
            flushed_le := Nat.le_refl _
            synced_le := Nat.le_refl _
            opened := fun _ => rfl
            clean := fun _ _ _ => rfl
            settled := fun _ _ => rfl }

/-- The flusher may set `failed_` but throws nothing. -/
theorem flusherTick_spec {wal : Wal} (sound : Sound wal) :
    flusherTick.wp (fun _ after => Sound after ∧ Quiet wal after) (fun _ _ => False) wal := by
  unfold flusherTick
  rw [Cmd.wp_handle]
  apply Cmd.wp_mono (flushLocked_spec sound)
  · rintro _ after ⟨afterSound, quiet, _, _⟩
    exact ⟨afterSound, quiet⟩
  · rintro thrown after ⟨afterSound, quiet, _, failed⟩
    have same : { after with failed := true } = after := by
      rw [← failed]
    rw [Cmd.wp_update, same]
    exact ⟨afterSound, quiet⟩

theorem flusherTicks_spec (count : Nat) {wal : Wal} (sound : Sound wal) :
    (flusherTicks count).wp (fun _ after => Sound after ∧ Quiet wal after)
      (fun _ _ => False) wal := by
  induction count generalizing wal with
  | zero => exact ⟨sound, Quiet.refl wal⟩
  | succ count ih =>
      unfold flusherTicks
      rw [Cmd.wp_bind]
      apply Cmd.wp_mono (flusherTick_spec sound)
      · rintro _ middle ⟨middleSound, first⟩
        apply Cmd.wp_mono (ih middleSound)
        · rintro _ after ⟨afterSound, second⟩
          exact ⟨afterSound, first.trans second⟩
        · intro _ _ impossible
          exact impossible
      · intro _ _ impossible
        exact impossible

/-- Taking the mutex lets the flusher run first. -/
theorem lock_spec {wal : Wal} (sound : Sound wal) :
    lock.wp (fun _ after => Sound after ∧ Quiet wal after) (fun _ _ => False) wal := by
  unfold lock
  rw [Cmd.wp_bind, Cmd.wp_read, Cmd.wp_bind, Cmd.wp_update]
  have scheduled : Sound { wal with ticks := fun n => wal.ticks (n + 1) } := { sound with }
  have quiet : Quiet wal { wal with ticks := fun n => wal.ticks (n + 1) } :=
    ⟨⟨rfl, Nat.le_refl _, List.prefix_refl _, List.prefix_refl _, Nat.le_refl _,
      fun failed => ⟨failed, rfl, rfl⟩, (Evolves.refl wal).io, ⟨0, fun _ => rfl⟩, Or.inl⟩,
      rfl, rfl, rfl, rfl⟩
  apply Cmd.wp_mono (flusherTicks_spec _ scheduled)
  · rintro _ after ⟨afterSound, later⟩
    exact ⟨afterSound, quiet.trans later⟩
  · intro _ _ impossible
    exact impossible

/-! ## Appending -/

/-- Enlarging the buffer fails only beyond its capacity. -/
theorem reserveBuffer_spec {wal : Wal} (sound : Sound wal) (size : Nat) :
    (reserveBuffer size).wp
      (fun _ after => Sound after ∧ Quiet wal after ∧ size ≤ after.capacity ∧
        after.failed = wal.failed)
      (fun thrown after => Sound after ∧ Quiet wal after ∧ thrown = .badAlloc ∧
        wal.capacity < size ∧ exists n, wal.reserveFails n = true) wal := by
  unfold reserveBuffer
  rw [Cmd.wp_bind, Cmd.wp_read]
  by_cases fits : size ≤ wal.capacity
  · rw [if_pos fits, Cmd.wp_pure]
    exact ⟨sound, Quiet.refl wal, fits, rfl⟩
  have consumed : Sound { wal with reserveFails := fun n => wal.reserveFails (n + 1) } :=
    { sound with }
  have evolves : forall capacity, wal.capacity ≤ capacity -> Quiet wal
      { wal with reserveFails := fun n => wal.reserveFails (n + 1), capacity := capacity } :=
    fun capacity larger =>
      ⟨⟨rfl, Nat.le_refl _, List.prefix_refl _, List.prefix_refl _, larger,
        fun failed => ⟨failed, rfl, rfl⟩, (Evolves.refl wal).io, ⟨1, fun _ => rfl⟩, Or.inl⟩,
        rfl, rfl, rfl, rfl⟩
  rw [if_neg fits, Cmd.wp_bind, Cmd.wp_update]
  by_cases fails : wal.reserveFails 0 = true
  · rw [if_pos fails, Cmd.wp_raise]
    exact ⟨consumed, evolves wal.capacity (Nat.le_refl _), rfl, by omega, 0, fails⟩
  · rw [if_neg fails, Cmd.wp_update]
    exact ⟨{ consumed with }, evolves size (by omega), Nat.le_refl _, rfl⟩

private theorem frames_append_singleton (records : List Record) (record : Record) :
    frames (records ++ [record]) = frames records ++ frame record := by
  simp only [frames, List.flatMap_append, List.flatMap_cons, List.flatMap_nil, List.append_nil]

theorem writeFrame_spec {wal : Wal} (sound : Sound wal) (healthy : wal.failed = false)
    {record : Record} (accepted : Accepted record) :
    (writeFrame record).wp
      (fun _ after => Sound after ∧ Evolves wal after ∧ after.failed = false ∧
        after.appended = wal.appended ++ [record] ∧ after.deferSync = wal.deferSync)
      (fun thrown after => Sound after ∧ Evolves wal after ∧
        thrown = .error .diskWriteFailed ∧ after.failed = true ∧
        after.appended = wal.appended) wal := by
  have written := sound.written healthy
  unfold writeFrame
  refine wp_ioCall ?_ ?_
  · intro progress outcome
    refine ⟨?_, ?_, rfl, rfl, rfl⟩
    · exact
        { flushed_le := by
            change wal.stream.flushed ≤ (wal.stream.handed ++ _).length
            rw [List.length_append]
            exact Nat.le_trans sound.flushed_le (Nat.le_add_right _ _)
          synced_le := sound.synced_le
          opened := nofun
          written := nofun
          accepted := nofun
          framed := by
            refine ⟨[record], Nat.le_refl _, ?_⟩
            change wal.stream.handed ++ _ <+: magic ++ frames (wal.appended ++ [record])
            rw [written, frames_append_singleton, List.append_assoc]
            exact (List.prefix_append_right_inj magic).mpr
              ((List.prefix_append_right_inj _).mpr (List.take_prefix _ _))
          clean := nofun
          settled := nofun }
    · exact
        { sync := rfl
          synced := Nat.le_refl _
          handed := List.prefix_append _ _
          appended := List.prefix_refl _
          capacity := Nat.le_refl _
          sticky := by
            intro impossible
            rw [healthy] at impossible
            cases impossible
          io := ⟨1, fun _ => rfl, fun _ => rfl⟩
          reserveFails := ⟨0, fun _ => rfl⟩
          blame := fun _ => Or.inr ⟨0, progress, outcome⟩ }
  · intro progress outcome
    have inside : (wal.stream.accept (frame record)).flushed ≤
        (wal.stream.accept (frame record)).handed.length := by
      change wal.stream.flushed ≤ (wal.stream.handed ++ frame record).length
      rw [List.length_append]
      exact Nat.le_trans sound.flushed_le (Nat.le_add_right _ _)
    have moved := LogFile.flushed_spill_le progress inside
    have handed : wal.stream.handed ++ frame record =
        magic ++ frames (wal.appended ++ [record]) := by
      rw [written, frames_append_singleton, List.append_assoc]
    refine ⟨?_, ?_, healthy, rfl, rfl⟩
    · exact
        { flushed_le := moved.2
          synced_le := Nat.le_trans sound.synced_le moved.1
          opened := fun _ => rfl
          written := fun _ => handed
          accepted := by
            intro _ other member
            rcases List.mem_append.mp member with member | member
            · exact sound.accepted healthy other member
            · exact List.mem_singleton.mp member ▸ accepted
          framed := by
            refine ⟨[], Nat.zero_le _, ?_⟩
            rw [List.append_nil]
            exact handed ▸ List.prefix_refl _
          clean := nofun
          settled := nofun }
    · exact
        { sync := rfl
          synced := Nat.le_refl _
          handed := List.prefix_append _ _
          appended := List.prefix_append _ _
          capacity := Nat.le_refl _
          sticky := by
            intro impossible
            rw [healthy] at impossible
            cases impossible
          io := ⟨1, fun _ => rfl, fun fails =>
            absurd fails (not_fails_succ (not_fails_zero wal) outcome)⟩
          reserveFails := ⟨0, fun _ => rfl⟩
          blame := by
            intro impossible
            change wal.failed = true at impossible
            rw [healthy] at impossible
            cases impossible }

/-- `append` adds one record, or throws.  Only a failed disk call can throw
after the record went into the stream; the other errors leave the sequence of
records alone and are raised by an oversized record or a buffer that could not
be enlarged. -/
theorem append_spec {wal : Wal} (sound : Sound wal) (record : Record) :
    (append record).wp
      (fun _ after => Sound after ∧ Evolves wal after ∧ after.failed = false ∧
        after.appended = wal.appended ++ [record] ∧ after.deferSync = wal.deferSync ∧
        Accepted record)
      (fun thrown after => Sound after ∧ Evolves wal after ∧
        ((thrown = .error .diskWriteFailed ∧ after.failed = true) ∨
          (after.appended = wal.appended ∧
            ((thrown = .error .requestTooLarge ∧ ¬ Accepted record) ∨
              (thrown = .badAlloc ∧ wal.capacity < (payload record).length + 8 ∧
                exists n, wal.reserveFails n = true))))) wal := by
  unfold append
  rw [Cmd.wp_bind]
  apply Cmd.wp_mono (lock_spec sound)
  · rintro _ locked ⟨lockedSound, locking⟩
    rw [Cmd.wp_bind, Cmd.wp_read]
    by_cases failed : locked.failed = true
    · rw [if_pos failed, Cmd.wp_raise]
      exact ⟨lockedSound, locking.toEvolves, Or.inl ⟨rfl, failed⟩⟩
    rw [if_neg failed]
    have healthy : locked.failed = false := Bool.eq_false_iff.mpr failed
    cases size : acceptedSize record with
    | error code =>
        dsimp only
        rw [Cmd.wp_raise]
        have rejected : ¬ Accepted record := by
          rintro ⟨other, accepted⟩
          rw [size] at accepted
          cases accepted
        have codeEq : code = .requestTooLarge := by
          unfold acceptedSize at size
          rw [recordSize_eq 2 record.args (by decide)] at size
          by_cases fits : 2 + (record.args.map (fun arg => 4 + arg.length)).sum ≤ maxRecord
          · simp only [if_pos fits] at size
            split at size
            · exact (Except.error.inj size).symm
            · cases size
          · simp only [if_neg fits] at size
            exact (Except.error.inj size).symm
        exact ⟨lockedSound, locking.toEvolves,
          Or.inr ⟨locking.sameAppended, Or.inl ⟨by rw [codeEq], rejected⟩⟩⟩
    | ok bytes =>
        dsimp only
        have accepted : Accepted record := ⟨bytes, size⟩
        have bytesEq := ((acceptedSize_eq_ok_iff record bytes).mp size).1
        rw [Cmd.wp_bind]
        apply Cmd.wp_mono (reserveBuffer_spec lockedSound (bytes + 8))
        · rintro _ reserved ⟨reservedSound, reserving, _, sameFailed⟩
          rw [Cmd.wp_bind]
          apply Cmd.wp_mono (writeFrame_spec reservedSound (sameFailed.trans healthy) accepted)
          · rintro _ writtenLog ⟨writtenSound, writing, writtenHealthy, writtenRecords, sameDefer⟩
            have path := (locking.trans reserving).toEvolves.trans writing
            have records : writtenLog.appended = wal.appended ++ [record] := by
              rw [writtenRecords, reserving.sameAppended, locking.sameAppended]
            have batch : writtenLog.deferSync = wal.deferSync := by
              rw [sameDefer, reserving.sameDefer, locking.sameDefer]
            rw [Cmd.wp_bind, Cmd.wp_read]
            apply Cmd.wp_onlyIf
            · intro _
              apply Cmd.wp_mono (flushLocked_spec writtenSound)
              · rintro _ after ⟨afterSound, quiet, afterHealthy, _⟩
                exact ⟨afterSound, path.trans quiet.toEvolves, afterHealthy,
                  quiet.sameAppended.trans records, quiet.sameDefer.trans batch, accepted⟩
              · rintro _ after ⟨afterSound, quiet, equal, afterFailed⟩
                exact ⟨afterSound, path.trans quiet.toEvolves, Or.inl ⟨equal, afterFailed⟩⟩
            · intro _
              exact ⟨writtenSound, path, writtenHealthy, records, batch, accepted⟩
          · rintro _ after ⟨afterSound, writing, equal, afterFailed, _⟩
            exact ⟨afterSound, (locking.trans reserving).toEvolves.trans writing,
              Or.inl ⟨equal, afterFailed⟩⟩
        · rintro _ after ⟨afterSound, reserving, equal, small, fails⟩
          refine ⟨afterSound, (locking.trans reserving).toEvolves,
            Or.inr ⟨(locking.trans reserving).sameAppended, Or.inr ⟨equal, ?_, ?_⟩⟩⟩
          · have grown := locking.capacity
            omega
          · rcases fails with ⟨n, failing⟩
            rcases locking.reserveFails with ⟨skipped, shift⟩
            exact ⟨n + skipped, (shift n).symm.trans failing⟩
  · intro _ _ impossible
    exact False.elim impossible

/-- After `reserve_record` the buffer holds the announced size. -/
theorem reserveRecord_spec {wal : Wal} (sound : Sound wal) (size : Nat) :
    (reserveRecord size).wp
      (fun _ after => Sound after ∧ Quiet wal after ∧ size ≤ after.capacity ∧ size ≤ maxRecord + 8)
      (fun thrown after => Sound after ∧ Quiet wal after ∧
        ((thrown = .error .requestTooLarge ∧ maxRecord + 8 < size) ∨
          (thrown = .badAlloc ∧ exists n, wal.reserveFails n = true))) wal := by
  unfold reserveRecord
  rw [Cmd.wp_bind]
  apply Cmd.wp_mono (lock_spec sound)
  · rintro _ locked ⟨lockedSound, locking⟩
    apply Cmd.wp_ite
    · intro large
      rw [Cmd.wp_raise]
      exact ⟨lockedSound, locking, Or.inl ⟨rfl, large⟩⟩
    · intro small
      apply Cmd.wp_mono (reserveBuffer_spec lockedSound size)
      · rintro _ after ⟨afterSound, reserving, fits, _⟩
        exact ⟨afterSound, locking.trans reserving, fits, Nat.not_lt.mp small⟩
      · rintro _ after ⟨afterSound, reserving, equal, _, n, failing⟩
        rcases locking.reserveFails with ⟨skipped, shift⟩
        exact ⟨afterSound, locking.trans reserving,
          Or.inr ⟨equal, n + skipped, (shift n).symm.trans failing⟩⟩
  · intro _ _ impossible
    exact False.elim impossible

/-! ## Batches -/

theorem flush_spec {wal : Wal} (sound : Sound wal) :
    flush.wp
      (fun _ after => Sound after ∧ Quiet wal after ∧ after.failed = false ∧ after.dirty = false)
      (fun thrown after => Sound after ∧ Quiet wal after ∧
        thrown = .error .diskWriteFailed ∧ after.failed = true) wal := by
  unfold flush
  rw [Cmd.wp_bind]
  apply Cmd.wp_mono (lock_spec sound)
  · rintro _ locked ⟨lockedSound, locking⟩
    apply Cmd.wp_mono (flushLocked_spec lockedSound)
    · rintro _ after ⟨afterSound, flushing, healthy, clean⟩
      exact ⟨afterSound, locking.trans flushing, healthy, clean⟩
    · rintro _ after ⟨afterSound, flushing, equal, failed⟩
      exact ⟨afterSound, locking.trans flushing, equal, failed⟩
  · intro _ _ impossible
    exact False.elim impossible

private theorem evolves_deferSync {before after : Wal} (quiet : Quiet before after)
    (deferSync : Bool) : Evolves before { after with deferSync := deferSync } :=
  ⟨quiet.sync, quiet.synced, quiet.handed, quiet.appended, quiet.capacity, quiet.sticky,
    quiet.io, quiet.reserveFails, quiet.blame⟩

private theorem sound_deferSync {wal : Wal} (sound : Sound wal) (deferSync : Bool) :
    Sound { wal with deferSync := deferSync } :=
  { sound with }

theorem beginBatch_spec {wal : Wal} (sound : Sound wal) :
    beginBatch.wp
      (fun _ after => Sound after ∧ Evolves wal after ∧ after.appended = wal.appended)
      (fun _ _ => False) wal := by
  unfold beginBatch
  rw [Cmd.wp_bind]
  apply Cmd.wp_mono (lock_spec sound)
  · rintro _ locked ⟨lockedSound, locking⟩
    rw [Cmd.wp_update]
    exact ⟨sound_deferSync lockedSound _, evolves_deferSync locking _, locking.sameAppended⟩
  · intro _ _ impossible
    exact impossible

/-- In `always` mode a batch that ends normally is durable. -/
theorem endBatch_spec {wal : Wal} (sound : Sound wal) :
    endBatch.wp
      (fun _ after => Sound after ∧ Evolves wal after ∧ after.appended = wal.appended ∧
        (wal.sync = .always -> after.failed = false ∧ after.dirty = false))
      (fun thrown after => Sound after ∧ Evolves wal after ∧ after.appended = wal.appended ∧
        thrown = .error .diskWriteFailed ∧ after.failed = true) wal := by
  unfold endBatch
  rw [Cmd.wp_bind]
  apply Cmd.wp_mono (lock_spec sound)
  · rintro _ locked ⟨lockedSound, locking⟩
    rw [Cmd.wp_bind, Cmd.wp_update, Cmd.wp_bind, Cmd.wp_read]
    have evolves := evolves_deferSync locking false
    apply Cmd.wp_onlyIf
    · intro _
      apply Cmd.wp_mono (flushLocked_spec (sound_deferSync lockedSound false))
      · rintro _ after ⟨afterSound, flushing, healthy, clean⟩
        exact ⟨afterSound, evolves.trans flushing.toEvolves,
          flushing.sameAppended.trans locking.sameAppended, fun _ => ⟨healthy, clean⟩⟩
      · rintro _ after ⟨afterSound, flushing, equal, failed⟩
        exact ⟨afterSound, evolves.trans flushing.toEvolves,
          flushing.sameAppended.trans locking.sameAppended, equal, failed⟩
    · intro other
      refine ⟨sound_deferSync lockedSound false, evolves, locking.sameAppended, fun always => ?_⟩
      exact False.elim (other (locking.sync.trans always))
  · intro _ _ impossible
    exact False.elim impossible

/-- A log that has failed accepts nothing. -/
theorem failed_rejects {wal : Wal} (sound : Sound wal) (failed : wal.failed = true)
    (record : Record) :
    (append record wal).1 = .error (.error .diskWriteFailed) ∧
      (flush wal).1 = .error (.error .diskWriteFailed) := by
  have lockedState := lock_spec sound
  rcases Cmd.exists_ok_of_wp lockedState with ⟨_, later, locked, -, quiet⟩
  have reads : (Cmd.read : Cmd Exn Wal Wal) later = (.ok later, later) := rfl
  have broken := (quiet.sticky failed).1
  constructor
  · unfold append
    rw [Cmd.bind_ok locked, Cmd.bind_ok reads, if_pos broken]
    rfl
  · unfold flush flushLocked
    rw [Cmd.bind_ok locked, Cmd.bind_ok reads, if_pos broken]
    rfl

end Wal
end Reddish
