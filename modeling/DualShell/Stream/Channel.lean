import DualShell.Stream.LineReader
import DualShell.Stream.ValueQueue

/-!
# Channels

Two streams side by side between one producer and one consumer: bytes through a pipe, whole values through a queue.
Nothing orders one against the other. The producer's end can be shared; both streams end when its last share is dropped.
The consumer reads the bytes through a reader, so that a read given up half-way loses nothing.
-/

namespace DualShell

/-- A channel; `outlets` counts the shares of the producer's end. -/
structure Channel where
  pipe : BytePipe
  values : ValueQueue
  reader : LineReader
  outlets : Nat

/-- Fetch from a pipe on behalf of a reader. -/
def BytePipe.fetch (w : Waker) (count : Nat) (p : BytePipe) : Fetch × BytePipe :=
  match p.read w count with
  | (.pending, p) => (.pending, p)
  | (.bytes data, p) => (.bytes data, p)

namespace Channel

/-- A channel with room for so many bytes and values. -/
def create (bytes values : Nat) : Channel :=
  ⟨.create bytes, .create values, .empty, 1⟩

/-- A channel that holds all it will ever hold. -/
def closedWith (data : Bytes) (values : List Value) : Channel :=
  ⟨.closedWith data, .closedWith values, .empty, 0⟩

/-- Share the producer's end. -/
def share (c : Channel) : Channel :=
  { c with outlets := c.outlets + 1, values := c.values.addSender }

/-- Drop a share of the producer's end; the last one ends both streams. -/
def dropOutlet (c : Channel) : Channel :=
  { c with
    outlets := c.outlets - 1
    values := c.values.releaseSender
    pipe := if c.outlets == 1 then c.pipe.releaseWriter else c.pipe }

/-- Drop the consumer's end. -/
def dropInlet (c : Channel) : Channel :=
  { c with pipe := c.pipe.dropReader, values := c.values.dropReceiver, reader := .empty }

/-- Write what fits. -/
def write (c : Channel) (w : Waker) (data : Bytes) : WritePoll × Channel :=
  let (result, pipe) := c.pipe.write w data
  (result, { c with pipe })

/-- Put a value. -/
def put (c : Channel) (v : Value) : PutPoll × Channel :=
  let (result, values) := c.values.put v
  (result, { c with values })

/-- Receive a value. -/
def recv (c : Channel) : RecvPoll × Channel :=
  let (result, values) := c.values.recv
  (result, { c with values })

/-- A step of the reader over the pipe. -/
def reading {α : Type} (step : LineReader → BytePipe → Step α × LineReader × BytePipe) (c : Channel) : Step α × Channel :=
  let (result, reader, pipe) := step c.reader c.pipe
  (result, { c with reader, pipe })

/-- A step towards the next line. -/
def line (c : Channel) (w : Waker) : Step (Option String) × Channel :=
  c.reading (LineReader.line (BytePipe.fetch w))

/-- A step towards all bytes up to the end. -/
def toEnd (c : Channel) (w : Waker) : Step Bytes × Channel :=
  c.reading (LineReader.toEnd (BytePipe.fetch w))

/-- A step towards at most `count` bytes. -/
def upTo (c : Channel) (w : Waker) (count : Nat) : Step Bytes × Channel :=
  c.reading (LineReader.upTo (BytePipe.fetch w) count)

/-- Take steps of a read while it makes progress, at most `fuel` of them. -/
def advance {α : Type} (step : Channel → Step α × Channel) : (fuel : Nat) → Channel → Step α × Channel
  | 0, c => (.blocked, c)
  | fuel + 1, c =>
    match step c with
    | (.more, c) => advance step fuel c
    | other => other

/-- How many steps a read can make before it is blocked or done: each one empties the pipe further or what was read ahead. -/
def patience (c : Channel) : Nat :=
  2 * c.pipe.buffer.size + 3

/-- The next line, as far as one poll gets. -/
def pollLine (c : Channel) (w : Waker) : Step (Option String) × Channel :=
  advance (·.line w) c.patience c

/-- All bytes up to the end, as far as one poll gets. -/
def pollEnd (c : Channel) (w : Waker) : Step Bytes × Channel :=
  advance (·.toEnd w) c.patience c

/-- Write everything, as far as one poll gets: what was written before the pipe was full stays written. -/
def pollWriteAll (c : Channel) (w : Waker) (data : Bytes) : WritePoll × Channel :=
  match c.write w data with
  | (.accepted n, c) => if n == data.length then (.accepted n, c) else c.write w (data.drop n)
  | other => other

end Channel

/-- One of the two streams of a channel. -/
inductive Side
  | bytes
  | values
  deriving DecidableEq, Repr

/-- Which streams of a channel may still deliver something to a consumer of both. -/
structure Merging where
  valuesOpen : Bool
  linesOpen : Bool
  deriving DecidableEq, Repr

/-- Both streams are open at first. -/
def Merging.both : Merging := ⟨true, true⟩

/-- A consumer of one stream only. -/
def Side.only : Side → Merging
  | .bytes => ⟨false, true⟩
  | .values => ⟨true, false⟩

namespace Channel

/-- A step towards the next value of a consumer of both streams; blocked if the values have ended. -/
def valueItem (m : Merging) (c : Channel) : Step (Option Value) × Merging × Channel :=
  if m.valuesOpen then
    match c.recv with
    | (.value v, c) => (.done (some v), m, c)
    | (.ended, c) => (.more, { m with valuesOpen := false }, c)
    | (.pending, c) => (.blocked, m, c)
  else (.blocked, m, c)

/-- A step towards the next line, as a string, of a consumer of both streams; blocked if the lines have ended. -/
def lineItem (w : Waker) (m : Merging) (c : Channel) : Step (Option Value) × Merging × Channel :=
  if m.linesOpen then
    match c.line w with
    | (.done (some line), c) => (.done (some (.string line)), m, c)
    | (.done none, c) => (.more, { m with linesOpen := false }, c)
    | (.more, c) => (.more, m, c)
    | (.failed cause, c) => (.failed cause, m, c)
    | (.blocked, c) => (.blocked, m, c)
  else (.blocked, m, c)

/-- A step towards the next item of a consumer of both streams: of the preferred stream, or of the other one if that is
blocked. The items end when both streams have ended. -/
def item (prefer : Side) (w : Waker) (m : Merging) (c : Channel) : Step (Option Value) × Merging × Channel :=
  if !m.valuesOpen && !m.linesOpen then (.done none, m, c)
  else
    match prefer with
    | .values =>
      match valueItem m c with
      | (.blocked, m, c) => lineItem w m c
      | other => other
    | .bytes =>
      match lineItem w m c with
      | (.blocked, m, c) => valueItem m c
      | other => other

end Channel

end DualShell
