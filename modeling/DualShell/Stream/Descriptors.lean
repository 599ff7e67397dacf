import DualShell.Text.Quoted
import DualShell.Value.Basic

/-!
# Descriptor tables

What a running form can read and write, by descriptor. A descriptor that is not in the table is closed. Most descriptors
have one side; one that was opened for reading and writing has both.
-/

namespace DualShell

/-- The name of a channel. -/
abbrev ChannelId := Nat

/-- The name of an open file. -/
abbrev HandleId := Nat

/-- The name of a collector, which keeps all that is written to it. -/
abbrev CollectorId := Nat

/-- Where a form writes to. -/
inductive Outlet
  | channel (c : ChannelId)
  /-- Values written to a file vanish. -/
  | file (h : HandleId)
  | collector (k : CollectorId)
  deriving DecidableEq, Repr

/-- Where a form reads from. -/
inductive Inlet
  | channel (c : ChannelId)
  /-- A file has no values. -/
  | file (h : HandleId)
  deriving DecidableEq, Repr

/-- What a descriptor is connected to. -/
structure Connection where
  input : Option Inlet
  output : Option Outlet
  deriving DecidableEq, Repr

namespace Connection

/-- A connection to read from. -/
def reading (i : Inlet) : Connection := ⟨some i, none⟩

/-- A connection to write to. -/
def writing (o : Outlet) : Connection := ⟨none, some o⟩

/-- The directions of a connection in letters. -/
def directions (p : Connection) : String :=
  match p.input, p.output with
  | some _, some _ => "rw"
  | some _, none => "r"
  | none, some _ => "w"
  | none, none => "-"

end Connection

/-- A descriptor table, sorted by descriptor. -/
structure Descriptors where
  entries : List (Nat × Connection)
  deriving DecidableEq, Repr

namespace Descriptors

/-- The table without open descriptors. -/
def empty : Descriptors := ⟨[]⟩

/-- Put an entry in its place. -/
def insert (fd : Nat) (p : Connection) : List (Nat × Connection) → List (Nat × Connection)
  | [] => [(fd, p)]
  | e :: es =>
    if fd == e.1 then (fd, p) :: es
    else if fd < e.1 then (fd, p) :: e :: es
    else e :: insert fd p es

/-- The connection of a descriptor. -/
def get? (t : Descriptors) (fd : Nat) : Option Connection :=
  (t.entries.find? (·.1 == fd)).map (·.2)

/-- Give a descriptor a connection, or close it. -/
def set (t : Descriptors) (fd : Nat) : Option Connection → Descriptors
  | some p => ⟨insert fd p t.entries⟩
  | none => ⟨t.entries.filter (·.1 != fd)⟩

/-- The table most forms start with: descriptor 0 reads, 1 and 2 write. -/
def standard (input : Inlet) (output errors : Outlet) : Descriptors :=
  ⟨[(0, .reading input), (1, .writing output), (2, .writing errors)]⟩

/-- Where a descriptor reads from. -/
def input? (t : Descriptors) (fd : Nat) : Option Inlet :=
  match t.get? fd with
  | some p => p.input
  | none => none

/-- Where a descriptor writes to. -/
def output? (t : Descriptors) (fd : Nat) : Option Outlet :=
  match t.get? fd with
  | some p => p.output
  | none => none

/-- Where a descriptor writes to, or an error that names it. -/
def expectOutput (t : Descriptors) (fd : Nat) : Except Cause Outlet :=
  match t.output? fd with
  | some o => .ok o
  | none => .error (.io s!"fd {fd} is not open for writing")

/-- Connect a descriptor to what another one is connected to now. -/
def duplicate (t : Descriptors) (source fd : Nat) : Except Cause Descriptors :=
  match t.get? source with
  | some p => .ok (t.set fd (some p))
  | none => .error (.io s!"fd {source} is not open")

/-- The open descriptors and their directions. -/
def describe (t : Descriptors) : String :=
  "Ports([" ++ ", ".intercalate (t.entries.map fun e => Quoted.double s!"{e.1}:{e.2.directions}") ++ "])"

end Descriptors

end DualShell
