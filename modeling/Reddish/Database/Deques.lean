import Reddish.Database.KeyView

namespace Reddish

open Library Numeral

/-!
# Lists are double-ended queues

A list is kept as one run of encoded elements inside a node that is recentred,
enlarged and shrunk on the way.  Seen from outside it is a sequence with pushes
and pops at both ends, and a key without elements does not exist.
-/

namespace Database

/-- A sequence and the deadline of its key. -/
structure Queue where
  items : List Value
  deadline : Option Int64

inductive ListOp where
  | pushLeft (value : Value)
  | pushRight (value : Value)
  | pushTexts (values : List Bytes) (front : Bool)
  | popLeft
  | popRight

namespace ListOp

def call (key : Bytes) : ListOp -> Call
  | pushLeft value => .pushLeft key value
  | pushRight value => .pushRight key value
  | pushTexts values front => .pushTexts key values front
  | popLeft => .popLeft key
  | popRight => .popRight key

/-- New elements at one end, unless the list would become too large. -/
def push (front : Bool) (values items : List Value) : Answer × List Value :=
  if values ≠ [] ∧
      (Node.encodeItems items).length + (Node.encodeItems values).length > Node.listLimit then
    (.count (.error .requestTooLarge), items)
  else (.count (.ok (items.length + values.length)), Spec.extend front values items)

/-- One end is taken away. -/
def pop (front : Bool) (items : List Value) : Answer × List Value :=
  match Spec.takeEnd front items with
  | none => (.value (.ok none), items)
  | some (value, rest) => (.value (.ok (some value)), rest)

/-- The answer of an operation on a sequence, and the sequence afterwards. -/
def apply : ListOp -> List Value -> Answer × List Value
  | pushLeft value => push true [value]
  | pushRight value => push false [value]
  | pushTexts values front => push front (values.map Value.text)
  | popLeft => pop true
  | popRight => pop false

end ListOp

namespace Queue

/-- The entry of a sequence; an empty one has none. -/
def entry (key : Bytes) (queue : Queue) : Option Entry :=
  if queue.items = [] then none else some ⟨key, .list queue.items, queue.deadline⟩

/-- The queue at a moment: nothing is left of it after its deadline. -/
def settle (now : Int64) (queue : Queue) : Queue :=
  if queue.deadline.any (fun deadline => decide (deadline ≤ now)) = true then ⟨[], none⟩ else queue

/-- The queue after an operation; a new list has no deadline. -/
def next (op : ListOp) (queue : Queue) : Queue :=
  ⟨(op.apply queue.items).2, if queue.items = [] then none else queue.deadline⟩

end Queue

variable {key : Bytes} {world : World} {queue : Queue}

end Database

end Reddish
