import Reddish.Error

namespace Reddish

open Library Numeral

namespace Resp

/-!
# The request parser

A request is an array of bulk strings.  There are two parsers: a fast one that
gives up on anything unusual, and a slow one that names the error.  Both write
into a `Command` that is reused from request to request, so what an earlier
request left in it is part of their input.

A position in the input is represented by the bytes from it to the end.
-/

/-! ## The argument list -/

def inlineCapacity : Nat := 8

/-- Arguments are kept in place until there are more than `inlineCapacity`. -/
structure ArgumentList where
  size : Nat
  inlined : Vector Bytes inlineCapacity
  overflow : List Bytes

namespace ArgumentList

def empty : ArgumentList where
  size := 0
  inlined := Vector.replicate inlineCapacity []
  overflow := []

/-- `clear`: the views kept in place stay where they are. -/
def clear (list : ArgumentList) : ArgumentList :=
  { list with size := 0, overflow := [] }

def pushBack (list : ArgumentList) (value : Bytes) : ArgumentList :=
  if inside : list.size < inlineCapacity then
    { list with inlined := list.inlined.set list.size value inside, size := list.size + 1 }
  else
    let overflow := if list.size = inlineCapacity then list.inlined.toList else list.overflow
    { list with overflow := overflow ++ [value], size := list.size + 1 }

/-- `data`: the array that is in use. -/
def data (list : ArgumentList) : List Bytes :=
  if list.size ≤ inlineCapacity then list.inlined.toList else list.overflow

/-- `operator[]`. -/
def get (list : ArgumentList) (index : Nat) : Bytes :=
  list.data.getD index []

/-- The elements from `begin()` to `end()`. -/
def range (list : ArgumentList) : List Bytes :=
  list.data.take list.size

end ArgumentList

/-- The commands that `classify_command` tells apart. -/
inductive CommandId where
  | unknown
  | ping
  | info
  | get
  | set
  | increment
  | listPushLeft
  | listPushRight
  | listPopLeft
  | listPopRight
  | listLength
  | hashSet
  | hashGet
  | hashDel
  | hashLength
  | expire
  | ttl
  | del
  deriving DecidableEq, Repr

structure Command where
  name : Bytes
  arguments : ArgumentList
  bytesConsumed : Nat
  classifiedId : CommandId

namespace Command

def fresh : Command where
  name := []
  arguments := ArgumentList.empty
  bytesConsumed := 0
  classifiedId := .unknown

/-- The three assignments both parsers start with. -/
def reset (command : Command) : Command :=
  { command with arguments := command.arguments.clear, name := [], bytesConsumed := 0 }

/-- The first string of a request is the name, the others are arguments. -/
def store (index : Nat) (value : Bytes) (command : Command) : Command :=
  if index = 0 then { command with name := value }
  else { command with arguments := command.arguments.pushBack value }

end Command

/-! ## The slow parser -/

def crlf : Bytes := [13, 10]

/-- `find("\r\n")`: the distance to the next line end. -/
def findCrlf : Bytes -> Option Nat
  | [] => none
  | byte :: rest =>
      if byte = 13 ∧ rest.head? = some 10 then some 0
      else (findCrlf rest).map Nat.succ

/-- `readline`: the bytes up to the next line end, and the position behind it. -/
def readline (input : Bytes) : Except ErrorCode (Bytes × Bytes) :=
  match findCrlf input with
  | some size => .ok (input.take size, input.drop (size + 2))
  | none => .error .missingCrlf

/-- `parse_number<std::size_t>`: the whole text must be digits of a number
that fits into 64 bits. -/
def parseNumber (input : Bytes) (code : ErrorCode) : Except ErrorCode Nat :=
  match parseDigits input with
  | some value => if value < 2 ^ 64 then .ok value else .error code
  | none => .error code

/-- One round of the loop of `parse_command_slow`. -/
def slowItem (index : Nat) (input : Bytes) : Cmd ErrorCode Command Bytes := do
  Cmd.require (input ≠ []) .missingBulkStringPrefix
  Cmd.require (input.getD 0 0 = 36) .expectedBulkStringPrefix
  let (line, input) <- Cmd.lift (readline (input.drop 1))
  let length <- Cmd.lift (parseNumber line .invalidBulkStringLength)
  Cmd.require (2 ≤ input.length ∧ length ≤ input.length - 2) .incompleteBulkStringData
  Cmd.update (Command.store index (input.take length))
  let input := input.drop length
  Cmd.require (2 ≤ input.length) .missingBulkStringTerminator
  Cmd.require (input.take 2 = crlf) .missingBulkStringTerminator
  pure (input.drop 2)

/-- The loop of `parse_command_slow`, with `count` rounds to go. -/
def slowItems : Nat -> Nat -> Bytes -> Cmd ErrorCode Command Bytes
  | 0, _, input => pure input
  | count + 1, index, input => do
      let input <- slowItem index input
      slowItems count (index + 1) input

def parseCommandSlow (input : Bytes) : Cmd ErrorCode Command Unit := do
  Cmd.update Command.reset
  Cmd.require (input ≠ []) .emptyRespInput
  Cmd.require (input.getD 0 0 = 42) .expectedRespArrayPrefix
  let (line, rest) <- Cmd.lift (readline (input.drop 1))
  let argc <- Cmd.lift (parseNumber line .invalidRespArrayLength)
  Cmd.require (argc ≠ 0) .emptyRespArray
  let rest <- slowItems argc 0 rest
  Cmd.update (fun command => { command with bytesConsumed := input.length - rest.length })

/-! ## The fast parser -/

/-- The distance of a character from `0`, computed without a sign. -/
def digit (byte : UInt8) : Nat :=
  sub32 byte.toNat 48

/-- The loop of `read_length`: digits are added up until another character
comes or the next one would not fit into 64 bits. -/
def lengthLoop : Nat -> Bytes -> Option (Nat × Bytes)
  | value, [] => some (value, [])
  | value, byte :: rest =>
      if digit byte > 9 then some (value, byte :: rest)
      else if value > (2 ^ 64 - 1 - digit byte) / 10 then none
      else lengthLoop (value * 10 + digit byte) rest

/-- `read_length`: a decimal number and a line end.  Numbers of one and two
digits have branches of their own. -/
def readLength (cursor : Bytes) : Option (Nat × Bytes) :=
  if cursor.length < 3 then none
  else
    let first := digit (cursor.getD 0 0)
    if first > 9 then none
    else if cursor.getD 1 0 = 13 ∧ cursor.getD 2 0 = 10 then some (first, cursor.drop 3)
    else if cursor.length < 4 then none
    else
      let second := digit (cursor.getD 1 0)
      if second > 9 then none
      else if cursor.getD 2 0 = 13 ∧ cursor.getD 3 0 = 10 then
        some (first * 10 + second, cursor.drop 4)
      else
        match lengthLoop 0 cursor with
        | none => none
        | some (value, position) =>
            if position.length < 2 ∨ position.getD 0 0 ≠ 13 ∨ position.getD 1 0 ≠ 10 then none
            else some (value, position.drop 2)

/-- What one round of the loop of `parse_command_into` reads; `none` where it
falls back to the slow parser. -/
def fastItem (cursor : Bytes) : Option (Bytes × Bytes) :=
  if cursor = [] ∨ cursor.getD 0 0 ≠ 36 then none
  else
    match readLength (cursor.drop 1) with
    | none => none
    | some (length, cursor) =>
        if cursor.length < 2 ∨ cursor.length - 2 < length then none
        else if cursor.getD length 0 ≠ 13 ∨ cursor.getD (length + 1) 0 ≠ 10 then none
        else some (cursor.take length, cursor.drop (length + 2))

/-- The loop of `parse_command_into`, with `count` rounds to go. -/
def fastItems : Nat -> Nat -> Bytes -> Cmd ErrorCode Command (Option Bytes)
  | 0, _, cursor => pure (some cursor)
  | count + 1, index, cursor =>
      match fastItem cursor with
      | none => pure none
      | some (value, cursor) => do
          Cmd.update (Command.store index value)
          fastItems count (index + 1) cursor

/-- The end of `parse_command_into`: the fast loop got through, or not. -/
def finish (input : Bytes) : Option Bytes -> Cmd ErrorCode Command Unit
  | none => parseCommandSlow input
  | some cursor =>
      Cmd.update (fun command => { command with bytesConsumed := input.length - cursor.length })

def parseCommandInto (input : Bytes) : Cmd ErrorCode Command Unit :=
  if input.length < 4 ∨ input.getD 0 0 ≠ 42 then parseCommandSlow input
  else do
    Cmd.update Command.reset
    match readLength (input.drop 1) with
    | none => parseCommandSlow input
    | some (count, cursor) =>
        if count = 0 then parseCommandSlow input
        else do
          let reached <- fastItems count 0 cursor
          finish input reached

/-- `parse_command`: a fresh command is filled and returned. -/
def parseCommand (input : Bytes) : Except ErrorCode Command :=
  match parseCommandInto input Command.fresh with
  | (.ok _, command) => .ok command
  | (.error code, _) => .error code

end Resp
end Reddish
