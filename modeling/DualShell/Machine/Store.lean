import DualShell.Named
import DualShell.Text.Quoted
import DualShell.Value.Index

/-!
# Variables

Where variables live while a program runs. A frame is the table of names of one activation, of a module, or of the top
level; it maps names to cells, and a cell holds a value. Which frame a name lives in was settled by resolution, so
nothing here walks a chain. A closure keeps the cells it took along, and so shares them with the activation that made
it.
-/

namespace DualShell

/-- The names of one activation, and the frame of the activation whose closure it runs. -/
structure Frame where
  vars : List (String × CellId)
  home : Option FrameId
  deriving DecidableEq, Repr, Inhabited

namespace Frame

/-- A frame without names. -/
def empty : Frame := ⟨[], none⟩

/-- The cell of a name. -/
def get? (f : Frame) (name : String) : Option CellId :=
  (f.vars.find? (·.1 == name)).map (·.2)

/-- Whether a name has a cell. -/
def contains (f : Frame) (name : String) : Bool :=
  f.vars.any (·.1 == name)

/-- Bind a name to a cell. -/
def insert (f : Frame) (name : String) (c : CellId) : Frame :=
  { f with vars := f.vars.filter (·.1 != name) ++ [(name, c)] }

/-- Drop a name. -/
def remove (f : Frame) (name : String) : Frame :=
  { f with vars := f.vars.filter (·.1 != name) }

/-- The names and their cells, sorted by name. -/
def sorted (f : Frame) : List (String × CellId) :=
  Named.ofList f.vars

/-- The names, sorted. -/
def names (f : Frame) : List String :=
  f.sorted.map (·.1)

/-- Names in brackets, quoted. -/
def quotedList (names : List String) : String :=
  "[" ++ ", ".intercalate (names.map Quoted.double) ++ "]"

/-- The frame as shown to people: its names. -/
def describe (f : Frame) : String :=
  "Frame \x7b names: " ++ quotedList f.names ++ " \x7d"

end Frame

/-- A namespace as shown to people: its name and its members. -/
def Namespace.describe (n : Namespace) : String :=
  "Namespace \x7b name: " ++ Quoted.double n.name ++ ", members: " ++ Frame.quotedList (n.members.map (·.1)) ++ " \x7d"

/-- The cells and frames made so far; both are only ever added. -/
structure Store where
  cells : Array Value
  frames : Array Frame

namespace Store

/-- A store without cells or frames. -/
def empty : Store := ⟨#[], #[]⟩

/-- Make a cell. -/
def newCell (s : Store) (v : Value) : CellId × Store :=
  (s.cells.size, { s with cells := s.cells.push v })

/-- Make a frame for an activation whose closure was made in `home`. -/
def newFrame (s : Store) (home : Option FrameId) : FrameId × Store :=
  (s.frames.size, { s with frames := s.frames.push ⟨[], home⟩ })

/-- A frame. -/
def frame (s : Store) (f : FrameId) : Frame :=
  s.frames.getD f .empty

/-- The value of a cell. -/
def get (s : Store) (c : CellId) : Value :=
  s.cells.getD c .empty

/-- Replace the value of a cell. -/
def set (s : Store) (c : CellId) (v : Value) : Store :=
  { s with cells := s.cells.setIfInBounds c v }

/-- The cell of a name in a frame. -/
def lookup? (s : Store) (f : FrameId) (name : String) : Option CellId :=
  (s.frame f).get? name

/-- Bind a name in a frame to a cell. -/
def bind (s : Store) (f : FrameId) (name : String) (c : CellId) : Store :=
  { s with frames := s.frames.modify f (·.insert name c) }

/-- Drop a name of a frame. -/
def unbind (s : Store) (f : FrameId) (name : String) : Store :=
  { s with frames := s.frames.modify f (·.remove name) }

/-- The cell of a name in a frame; a missing one is made and holds the empty string. -/
def ensure (s : Store) (f : FrameId) (name : String) : CellId × Store :=
  match s.lookup? f name with
  | some c => (c, s)
  | none =>
    let (c, s) := s.newCell .empty
    (c, s.bind f name c)

/-- Give a name of a frame a value. -/
def setVar (s : Store) (f : FrameId) (name : String) (v : Value) : Store :=
  let (c, s) := s.ensure f name
  s.set c v

/-- The value of a name of a frame. -/
def getVar? (s : Store) (f : FrameId) (name : String) : Option Value :=
  (s.lookup? f name).map s.get

/-- Change the value of a cell; it stays as it was if the change fails. -/
def update (s : Store) (c : CellId) (change : Value → Except Cause Value) : Except Cause Unit × Store :=
  match change (s.get c) with
  | .ok v => (.ok (), s.set c v)
  | .error e => (.error e, s)

end Store

end DualShell
