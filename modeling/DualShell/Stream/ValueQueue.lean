import DualShell.Stream.Queue
import DualShell.Value.Basic

/-!
# Value queues

The value half of a channel: a bounded queue of whole values. A full queue holds its senders back, an empty one its
receiver, until the last sender is gone.
-/

namespace DualShell

/-- A queue of values and who is left at its ends. -/
structure ValueQueue where
  capacity : Nat
  items : Queue Value
  senders : Nat
  receiverAlive : Bool

/-- The result of putting a value. -/
inductive PutPoll
  /-- The queue is full. -/
  | pending
  /-- The receiver is gone. -/
  | broken
  | accepted
  deriving DecidableEq, Repr

/-- The result of receiving. -/
inductive RecvPoll
  /-- The queue is empty and a sender is left. -/
  | pending
  /-- The queue is empty for good. -/
  | ended
  | value (v : Value)

namespace ValueQueue

/-- A queue with one sender; it holds at least one value. -/
def create (capacity : Nat) : ValueQueue :=
  ⟨max capacity 1, .empty, 1, true⟩

/-- A queue whose content was put before its last sender went. -/
def closedWith (values : List Value) : ValueQueue :=
  ⟨max values.length 1, .ofList values, 0, true⟩

/-- Put a value at the end. -/
def put (q : ValueQueue) (v : Value) : PutPoll × ValueQueue :=
  if !q.receiverAlive then (.broken, q)
  else if q.capacity ≤ q.items.size then (.pending, q)
  else (.accepted, { q with items := q.items.append [v] })

/-- Take the first value. -/
def recv (q : ValueQueue) : RecvPoll × ValueQueue :=
  match q.items.take 1 with
  | (v :: _, items) => (.value v, { q with items })
  | ([], _) => if q.senders == 0 then (.ended, q) else (.pending, q)

/-- Count one more sender. -/
def addSender (q : ValueQueue) : ValueQueue :=
  { q with senders := q.senders + 1 }

/-- Count one sender less. -/
def releaseSender (q : ValueQueue) : ValueQueue :=
  { q with senders := q.senders - 1 }

/-- Let the receiver go, with all that was not received. -/
def dropReceiver (q : ValueQueue) : ValueQueue :=
  { q with receiverAlive := false, items := .empty }

end ValueQueue

end DualShell
