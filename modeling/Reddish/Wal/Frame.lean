import Reddish.Error
import Reddish.Library.Buffer

namespace Reddish
namespace Wal

open Library Numeral

/-!
# The log file format

A log is a magic number followed by frames.  A frame is a length, a checksum
and a payload; the payload holds an operation byte, an argument count and the
arguments, each with its own length.  `append` builds a frame in one buffer
and fills the checksum in afterwards, while `recover` reads it back field by
field, so the two sides share no code and their agreement is a theorem.
-/

/-- The first eight bytes of every log. -/
def magic : Bytes := ascii "RDWAL001"

/-- The largest payload that is written or read. -/
def maxRecord : Nat := 128 * 1024 * 1024

/-- One operation with its arguments, as it is passed to `append` and to the
replay callback.  The operation is a byte because `recover` converts whatever
byte it finds. -/
structure Record where
  op : UInt8
  args : List Bytes
  deriving DecidableEq, Repr

/-! ## Checksums and words -/

def crcBit (c : UInt32) : UInt32 :=
  (c >>> 1) ^^^ (if c &&& 1 = 1 then 0xedb88320 else 0)

/-- The table entry computed by eight rounds of the inner loop. -/
def crcEntry (c : UInt32) : UInt32 :=
  crcBit (crcBit (crcBit (crcBit (crcBit (crcBit (crcBit (crcBit c)))))))

/-- `crc_table`: one entry for each byte value. -/
def crcTable : List UInt32 :=
  (List.range 256).map (fun i => crcEntry (UInt32.ofNat i))

def crcByte (c : UInt32) (byte : UInt8) : UInt32 :=
  crcTable.getD ((c ^^^ byte.toUInt32) &&& 255).toNat 0 ^^^ (c >>> 8)

/-- `crc`: the checksum of a payload. -/
def crc (bytes : Bytes) : UInt32 :=
  ~~~ (bytes.foldl crcByte (~~~ 0))

/-- `put32`: the four bytes of a word, least significant first. -/
def put32 (n : UInt32) : Bytes :=
  ([0, 1, 2, 3] : List UInt32).map (fun i => (n >>> (8 * i)).toUInt8)

/-- `get32`: the word at the front of a text of at least four bytes. -/
def get32 (p : Bytes) : UInt32 :=
  [0, 1, 2, 3].foldl (fun n i => n ||| ((p.getD i 0).toUInt32 <<< (8 * UInt32.ofNat i))) 0

/-! ## Writing -/

/-- The size check of `append`: two bytes for operation and count, then four
bytes and the contents for each argument. -/
def recordSize : Nat -> List Bytes -> Except ErrorCode Nat
  | size, [] => .ok size
  | size, arg :: rest =>
      if arg.length > maxRecord - 4 ∨ size > maxRecord - arg.length - 4 then
        .error .requestTooLarge
      else recordSize (size + 4 + arg.length) rest

/-- The payload size `append` accepts, or the error it throws. -/
def acceptedSize (record : Record) : Except ErrorCode Nat :=
  match recordSize 2 record.args with
  | .ok size =>
      if size > maxRecord ∨ record.args.length > 255 then .error .requestTooLarge else .ok size
  | .error code => .error code

/-- The bytes after the frame header. -/
def payload (record : Record) : Bytes :=
  record.op :: UInt8.ofNat record.args.length ::
    record.args.flatMap (fun arg => put32 (UInt32.ofNat arg.length) ++ arg)

/-- The buffer `append` hands to `fwrite`: the checksum field is written as
zero first and replaced once the payload is complete. -/
def frame (record : Record) : Bytes :=
  let buffer := put32 (UInt32.ofNat (payload record).length) ++ put32 0 ++ payload record
  let checksum := crc (buffer.drop 8)
  Buffer.write 4 (put32 checksum) buffer

def frames (records : List Record) : Bytes :=
  records.flatMap frame

/-! ## Reading -/

/-- Read `count` arguments from the payload; `none` stands for the checks
that throw `disk_read_failed`. -/
def decodeArgs : Nat -> Bytes -> Option (List Bytes × Bytes)
  | 0, rest => some ([], rest)
  | count + 1, rest =>
      if rest.length < 4 then none
      else
        let n := (get32 rest).toNat
        let body := rest.drop 4
        if n > body.length then none
        else
          match decodeArgs count (body.drop n) with
          | some (args, remaining) => some (body.take n :: args, remaining)
          | none => none

/-- Decode a payload of at least two bytes; all of it must be used. -/
def decodePayload (bytes : Bytes) : Option Record :=
  match decodeArgs (bytes.getD 1 0).toNat (bytes.drop 2) with
  | some (args, []) => some ⟨bytes.getD 0 0, args⟩
  | _ => none

/-- The callback that receives each decoded record. -/
abbrev Replay (σ : Type) := Record -> Cmd Exn σ Unit

/-- The loop of `recover` on the bytes behind the magic number.  The result
is the number of valid bytes and whether a torn frame was met. -/
def recoverLoop {σ : Type} (replay : Replay σ) (input : Bytes) (valid : Nat) :
    Cmd Exn σ (Nat × Bool) :=
  if input.length = 0 then pure (valid, false)
  else if _short : input.length < 8 then pure (valid, true)
  else
    let size := (get32 input).toNat
    let checksum := get32 (input.drop 4)
    if size < 2 ∨ size > maxRecord then Cmd.raise (.error .diskReadFailed)
    else if (input.drop 8).length < size then pure (valid, true)
    else
      let body := (input.drop 8).take size
      if crc body ≠ checksum then Cmd.raise (.error .diskReadFailed)
      else
        match decodePayload body with
        | none => Cmd.raise (.error .diskReadFailed)
        | some record => do
            replay record
            recoverLoop replay ((input.drop 8).drop size) (valid + (8 + size))
termination_by input.length
decreasing_by
  simp only [List.length_drop]
  omega

/-- `recover`: replay a file and cut off a torn tail.  The result is the
number of valid bytes together with the file as it is left behind. -/
def recover {σ : Type} (file : Bytes) (replay : Replay σ) : Cmd Exn σ (Nat × Bytes) :=
  if file.length = 0 then pure (0, file)
  else if file.length < 8 ∨ file.take 8 ≠ magic then Cmd.raise (.error .diskReadFailed)
  else do
    let (valid, torn) <- recoverLoop replay (file.drop 8) 8
    pure (valid, if torn then file.take valid else file)

end Wal
end Reddish
