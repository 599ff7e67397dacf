import DualShell.Stream.Queue
import DualShell.Text.Utf8

/-!
# Byte pipes

A bounded pipe for bytes with any number of writers and one reader. A writer that finds the buffer full, or a reader
that finds it empty, is parked until the other side moves; what a poll returns says which. The stream ends for the
reader once every writer is released, and a write fails once the reader is gone.

Writers hold handles. `PipeEnds` is a pipe with its handles: a handle that was shut down has given its place as a writer
back but can still be used.
-/

namespace DualShell

/-- Whom to wake. -/
abbrev Waker := Nat

/-- A pipe: the bytes on their way, the number of writers that count, and who is parked. -/
structure BytePipe where
  capacity : Nat
  buffer : Queue UInt8
  writers : Nat
  readerAlive : Bool
  parkedReader : Option Waker
  parkedWriters : List Waker

/-- The result of a write. -/
inductive WritePoll
  /-- The buffer is full; the writer is parked. -/
  | pending
  /-- The reader is gone. -/
  | broken
  | accepted (count : Nat)
  deriving DecidableEq, Repr

/-- The result of a read. -/
inductive ReadPoll
  /-- The buffer is empty and a writer is left; the reader is parked. -/
  | pending
  /-- What was read; nothing at the end of the stream. -/
  | bytes (data : Bytes)
  deriving DecidableEq, Repr

namespace BytePipe

/-- A pipe with one writer; it holds at least one byte. -/
def create (capacity : Nat) : BytePipe :=
  ⟨max capacity 1, .empty, 1, true, none, []⟩

/-- A pipe whose content was written before its last writer went. -/
def closedWith (data : Bytes) : BytePipe :=
  ⟨max data.length 1, .ofList data, 0, true, none, []⟩

/-- The free room. -/
def room (p : BytePipe) : Nat :=
  p.capacity - p.buffer.size

/-- Park a writer, once. -/
def parkWriter (p : BytePipe) (w : Waker) : BytePipe :=
  if p.parkedWriters.contains w then p else { p with parkedWriters := p.parkedWriters ++ [w] }

/-- Write what fits. -/
def write (p : BytePipe) (w : Waker) (data : Bytes) : WritePoll × BytePipe :=
  if data.isEmpty then (.accepted 0, p)
  else if !p.readerAlive then (.broken, p)
  else if p.room == 0 then (.pending, p.parkWriter w)
  else
    let n := min p.room data.length
    (.accepted n, { p with buffer := p.buffer.append (data.take n), parkedReader := none })

/-- Read at most `count` bytes. -/
def read (p : BytePipe) (w : Waker) (count : Nat) : ReadPoll × BytePipe :=
  if p.buffer.size == 0 then
    if p.writers == 0 then (.bytes [], p) else (.pending, { p with parkedReader := some w })
  else
    let (data, buffer) := p.buffer.take count
    (.bytes data, { p with buffer, parkedWriters := [] })

/-- Count one more writer. -/
def addWriter (p : BytePipe) : BytePipe :=
  { p with writers := p.writers + 1 }

/-- Count one writer less; the reader of the last one is woken. -/
def releaseWriter (p : BytePipe) : BytePipe :=
  let writers := p.writers - 1
  { p with writers, parkedReader := if writers == 0 then none else p.parkedReader }

/-- Let the reader go, with all that is unread. -/
def dropReader (p : BytePipe) : BytePipe :=
  { p with readerAlive := false, buffer := .empty, parkedWriters := [] }

end BytePipe

/-- What has become of a writer's handle. -/
inductive HandleState
  | live
  /-- It gave back its place as a writer. -/
  | shut
  | dropped
  deriving DecidableEq, Repr

/-- A pipe and the handles of its writers, numbered in the order they were made. -/
structure PipeEnds where
  pipe : BytePipe
  handles : List HandleState

namespace PipeEnds

/-- A pipe with one handle. -/
def create (capacity : Nat) : PipeEnds :=
  ⟨.create capacity, [.live]⟩

/-- Whether a handle is there to be used. -/
def usable (e : PipeEnds) (i : Nat) : Bool :=
  match e.handles[i]? with
  | some .live => true
  | some .shut => true
  | _ => false

/-- Write what fits. -/
def write (e : PipeEnds) (w : Waker) (data : Bytes) : WritePoll × PipeEnds :=
  let (result, pipe) := e.pipe.write w data
  (result, { e with pipe })

/-- Write everything, as far as one poll gets: what was written before the buffer was full stays written. -/
def writeAll (e : PipeEnds) (w : Waker) (data : Bytes) : WritePoll × PipeEnds :=
  match e.write w data with
  | (.accepted n, e) => if n == data.length then (.accepted n, e) else e.write w (data.drop n)
  | other => other

/-- Read at most `count` bytes. -/
def read (e : PipeEnds) (w : Waker) (count : Nat) : ReadPoll × PipeEnds :=
  let (result, pipe) := e.pipe.read w count
  (result, { e with pipe })

/-- Make another handle; its number. -/
def clone (e : PipeEnds) : Nat × PipeEnds :=
  (e.handles.length, ⟨e.pipe.addWriter, e.handles ++ [.live]⟩)

/-- Give back the place of a handle that still has one. -/
def release (e : PipeEnds) (i : Nat) (state : HandleState) : PipeEnds :=
  match e.handles[i]? with
  | some .live => ⟨e.pipe.releaseWriter, e.handles.set i state⟩
  | some .shut => { e with handles := e.handles.set i state }
  | _ => e

/-- Shut a handle down. -/
def shutdown (e : PipeEnds) (i : Nat) : PipeEnds :=
  e.release i .shut

/-- Drop a handle. -/
def drop (e : PipeEnds) (i : Nat) : PipeEnds :=
  e.release i .dropped

/-- Let the reader go. -/
def dropReader (e : PipeEnds) : PipeEnds :=
  { e with pipe := e.pipe.dropReader }

end PipeEnds

end DualShell
