import Reddish.Wal.TornTail

namespace Reddish

open Library

/-!
# The write-ahead log object

`Wal` is the class of `wal.hpp`: a stdio stream on the log file, the flags
that decide when the stream is synced, and the frame buffer.  Nothing here is
timed.  The environment is carried along as the outcomes that future calls are
going to have, so that a statement about every log is a statement about every
sequence of successes and failures, and about every schedule of the background
flusher, which runs whenever the mutex is free.
-/

inductive WalSync where
  | everysec
  | always
  | none
  deriving DecidableEq, Repr

/-- The outcome of one `fwrite`, `fflush` or `fdatasync`.  Both outcomes carry
how many more bytes had reached the kernel by the time the call ended: stdio
may write early, and a failing call may have written a part. -/
inductive IoResult where
  | done (progress : Nat)
  | failed (progress : Nat)
  deriving DecidableEq, Repr

/-- A stdio stream opened for appending.  The first `flushed` bytes of what
was handed over are in the kernel, the first `synced` ones are durable. -/
structure LogFile where
  handed : Bytes
  flushed : Nat
  synced : Nat
  deriving DecidableEq, Repr

namespace LogFile

/-- Bytes reach the kernel, never more than were handed over. -/
def spill (file : LogFile) (progress : Nat) : LogFile :=
  { file with flushed := max file.flushed (min (file.flushed + progress) file.handed.length) }

def accept (file : LogFile) (data : Bytes) : LogFile :=
  { file with handed := file.handed ++ data }

def flush (file : LogFile) : LogFile :=
  { file with flushed := file.handed.length }

def sync (file : LogFile) : LogFile :=
  { file with synced := file.flushed }

/-- What another process would read from the file. -/
def contents (file : LogFile) : Bytes :=
  file.handed.take file.flushed

end LogFile

/-- The members of the class `Wal`.  `file` is `file_` and is absent once the
stream was closed and not reopened; `capacity` is the capacity of `buffer_`.
`appended` collects the records whose frame was written and is never read by
the code.  The last three fields are the future of the environment: outcomes
of stdio and sync calls, failures to enlarge the buffer, and the number of
times the flusher runs before the mutex is taken. -/
structure Wal where
  file : Option LogFile
  sync : WalSync
  bytes : Nat
  failed : Bool
  dirty : Bool
  deferSync : Bool
  capacity : Nat
  appended : List Wal.Record
  io : Nat -> IoResult
  reserveFails : Nat -> Bool
  ticks : Nat -> Nat

namespace Wal

/-- The stream behind `file_`. -/
def stream (wal : Wal) : LogFile :=
  wal.file.getD ⟨[], 0, 0⟩

/-- Replace the stream, keeping the handle. -/
def withStream (wal : Wal) (file : LogFile) : Wal :=
  { wal with file := some file }

/-- Take the outcome of the next stdio or sync call. -/
def ioCall : Cmd Exn Wal IoResult :=
  fun wal => (.ok (wal.io 0), { wal with io := fun n => wal.io (n + 1) })

/-- Set `failed_` and throw `disk_write_failed`. -/
def fail : Cmd Exn Wal Unit := do
  Cmd.update (fun wal => { wal with failed := true })
  Cmd.raise (.error .diskWriteFailed)

/-- The `fdatasync` part of `flush_locked`. -/
def syncLocked : Cmd Exn Wal Unit := do
  match <- ioCall with
  | .failed _ => fail
  | .done _ => Cmd.update (fun wal => wal.withStream wal.stream.sync)

def flushLocked : Cmd Exn Wal Unit := do
  let wal <- Cmd.read
  if wal.failed then Cmd.raise (.error .diskWriteFailed)
  else if !wal.dirty then pure ()
  else do
    match <- ioCall with
    | .failed progress => do
        Cmd.update (fun wal => wal.withStream (wal.stream.spill progress))
        fail
    | .done _ => do
        Cmd.update (fun wal => wal.withStream wal.stream.flush)
        Cmd.onlyIf (wal.sync ≠ .none) syncLocked
        Cmd.update (fun wal => { wal with dirty := false })

/-- One wake-up of the flusher thread: it flushes, and any exception only
sets `failed_`.  The thread ends after an exception, but every later wake-up
would find `failed_` set and do nothing. -/
def flusherTick : Cmd Exn Wal Unit :=
  flushLocked.handle (fun _ => Cmd.update (fun wal => { wal with failed := true }))

/-- Several wake-ups in a row. -/
def flusherTicks : Nat -> Cmd Exn Wal Unit
  | 0 => pure ()
  | count + 1 => do
      flusherTick
      flusherTicks count

/-- Take the mutex, after the flusher ran as often as the schedule says. -/
def lock : Cmd Exn Wal Unit := do
  let wal <- Cmd.read
  Cmd.update (fun wal => { wal with ticks := fun n => wal.ticks (n + 1) })
  flusherTicks (wal.ticks 0)

/-- `buffer_.reserve`: allocates only beyond the present capacity. -/
def reserveBuffer (size : Nat) : Cmd Exn Wal Unit := do
  let wal <- Cmd.read
  if size ≤ wal.capacity then pure ()
  else do
    Cmd.update (fun wal => { wal with reserveFails := fun n => wal.reserveFails (n + 1) })
    if wal.reserveFails 0 then Cmd.raise .badAlloc
    else Cmd.update (fun wal => { wal with capacity := size })

/-- The `fwrite` of `append` with the bookkeeping that follows it. -/
def writeFrame (record : Record) : Cmd Exn Wal Unit := do
  match <- ioCall with
  | .failed progress => do
      Cmd.update (fun wal => wal.withStream (wal.stream.accept
        ((frame record).take (min progress ((frame record).length - 1)))))
      fail
  | .done progress =>
      Cmd.update (fun wal =>
        { wal.withStream ((wal.stream.accept (frame record)).spill progress) with
          bytes := wal.bytes + (frame record).length
          dirty := true
          appended := wal.appended ++ [record] })

def append (record : Record) : Cmd Exn Wal Unit := do
  lock
  let wal <- Cmd.read
  if wal.failed then Cmd.raise (.error .diskWriteFailed)
  else
    match acceptedSize record with
    | .error code => Cmd.raise (.error code)
    | .ok size => do
        reserveBuffer (size + 8)
        writeFrame record
        let wal <- Cmd.read
        Cmd.onlyIf (wal.sync = .always ∧ wal.deferSync = false) flushLocked

def reserveRecord (size : Nat) : Cmd Exn Wal Unit := do
  lock
  if size > maxRecord + 8 then Cmd.raise (.error .requestTooLarge)
  else reserveBuffer size

def flush : Cmd Exn Wal Unit := do
  lock
  flushLocked

def beginBatch : Cmd Exn Wal Unit := do
  lock
  Cmd.update (fun wal => { wal with deferSync := decide (wal.sync = .always) })

def endBatch : Cmd Exn Wal Unit := do
  lock
  Cmd.update (fun wal => { wal with deferSync := false })
  let wal <- Cmd.read
  Cmd.onlyIf (wal.sync = .always) flushLocked

end Wal

end Reddish
