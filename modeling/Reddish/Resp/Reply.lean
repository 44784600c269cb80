import Reddish.Resp.Parser

namespace Reddish

open Library Numeral

namespace Resp

/-!
# Names and replies

How a command is recognised by its name, and how replies are appended to the
output of a connection.
-/

/-! ## Names -/

/-- A byte of a name at its place in the tag, with the bit set that tells small
letters from capital ones. -/
def tagByte (entry : UInt8 × Nat) : UInt64 :=
  (entry.1 ||| 0x20).toUInt64 <<< (UInt64.ofNat entry.2 * 8)

/-- The loop of `tag_of` over the first eight bytes. -/
def tagBytes (name : Bytes) : UInt64 :=
  (name.take 8).zipIdx.foldl (fun tag entry => tag ||| tagByte entry) 0

/-- `tag_of` of a literal, which the compiler computes; the length stops at
eight. -/
def literalTag (text : String) : UInt64 :=
  tagBytes (ascii text) ||| (UInt64.ofNat (min (ascii text).length 8) <<< 56)

/-- `tag_of` for names of three bytes: two of them are loaded as one word. -/
def threeByteTag (name : Bytes) : UInt64 :=
  UInt64.ofNat (leNat (name.take 2)) ||| ((name.getD 2 0).toUInt64 <<< (16 : UInt64)) |||
    0x202020 ||| ((3 : UInt64) <<< (56 : UInt64))

/-- `tag_of` for names of four bytes, which are loaded as one word. -/
def fourByteTag (name : Bytes) : UInt64 :=
  UInt64.ofNat (leNat (name.take 4)) ||| 0x20202020 ||| ((4 : UInt64) <<< (56 : UInt64))

/-- `tag_of` for all other names: the first eight bytes, and the low byte of
the length on top. -/
def genericTag (name : Bytes) : UInt64 :=
  tagBytes name ||| ((UInt64.ofNat name.length &&& 0xFF) <<< 56)

/-- `tag_of`, on a little-endian machine. -/
def tagOf (name : Bytes) : UInt64 :=
  if name.length = 3 then threeByteTag name
  else if name.length = 4 then fourByteTag name
  else genericTag name

/-- The three bytes that the first switch of `classify_command` compares. -/
def foldedTag (name : Bytes) : UInt32 :=
  ((name.getD 0 0).toUInt32 ||| 0x20) |||
    (((name.getD 1 0).toUInt32 ||| 0x20) <<< (8 : UInt32)) |||
    (((name.getD 2 0).toUInt32 ||| 0x20) <<< (16 : UInt32))

structure CommandInfo where
  id : CommandId
  isWrite : Bool
  deriving DecidableEq

/-- The cases of the first switch. -/
def shortTable : List (String × CommandInfo) :=
  [("get", ⟨.get, false⟩),
   ("set", ⟨.set, true⟩),
   ("del", ⟨.del, true⟩),
   ("ttl", ⟨.ttl, false⟩)]

/-- The cases of the second switch. -/
def commandTable : List (String × CommandInfo) :=
  [("ping", ⟨.ping, false⟩),
   ("info", ⟨.info, false⟩),
   ("get", ⟨.get, false⟩),
   ("set", ⟨.set, true⟩),
   ("incr", ⟨.increment, true⟩),
   ("lpush", ⟨.listPushLeft, true⟩),
   ("rpush", ⟨.listPushRight, true⟩),
   ("lpop", ⟨.listPopLeft, true⟩),
   ("rpop", ⟨.listPopRight, true⟩),
   ("llen", ⟨.listLength, false⟩),
   ("hset", ⟨.hashSet, true⟩),
   ("hget", ⟨.hashGet, false⟩),
   ("hdel", ⟨.hashDel, true⟩),
   ("hlen", ⟨.hashLength, false⟩),
   ("expire", ⟨.expire, true⟩),
   ("ttl", ⟨.ttl, false⟩),
   ("del", ⟨.del, true⟩)]

/-- A switch over the tags of literals. -/
def switch {τ : Type} [DecidableEq τ] (tag : String -> τ) (value : τ)
    (table : List (String × CommandInfo)) : CommandInfo :=
  ((table.find? fun entry => tag entry.1 = value).map Prod.snd).getD ⟨.unknown, true⟩

def classifyCommand (name : Bytes) : CommandInfo :=
  if name.length = 3 then
    switch (fun text => (literalTag text).toUInt32) (foldedTag name) shortTable
  else switch literalTag (tagOf name) commandTable

/-! ## Replies -/

def maxReplyBytes : Nat := 1024 * 1024

def requireReplySpace (bytes : Nat) : Cmd Exn Bytes Unit := do
  let output <- Cmd.read
  Cmd.require (bytes ≤ maxReplyBytes ∧ output.length ≤ maxReplyBytes - bytes)
    (.error .requestTooLarge)

def append (bytes : Bytes) : Cmd Exn Bytes Unit :=
  Cmd.update (· ++ bytes)

def appendError (text : Bytes) : Cmd Exn Bytes Unit := do
  requireReplySpace (text.length + 3)
  append ([45] ++ text ++ crlf)

end Resp
end Reddish
