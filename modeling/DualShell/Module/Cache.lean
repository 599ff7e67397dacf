import DualShell.Named
import DualShell.Value.Basic

/-!
# Modules that were loaded

Which modules were evaluated, by key. A key has a place where its namespace will be; whoever wants a module finds its
place first and then claims it. A place that is claimed is being filled; whoever else claims it waits until it is
settled. Only an evaluation that succeeded leaves a namespace, and every later claim gets that namespace.

To clear the cache is to forget the places. An evaluation that is under way then still settles the place it claimed,
which nobody finds any more.
-/

namespace DualShell

/-- The number of a place for a namespace. -/
abbrev PlaceId := Nat

/-- How a place stands. -/
inductive PlaceState
  | vacant
  | loading
  | loaded (ns : Namespace)
  deriving DecidableEq, Repr

/-- The places of modules by key, sorted, and how each place stands. -/
structure ModuleCache where
  entries : List (String × PlaceId)
  places : Array PlaceState
  deriving Repr

/-- The answer to someone who needs a module. -/
inductive ClaimPoll
  /-- Someone else is loading it. -/
  | pending
  | loaded (ns : Namespace)
  /-- It is now for the asker to load it. -/
  | granted
  deriving DecidableEq, Repr

namespace ModuleCache

/-- The cache before any module. -/
def empty : ModuleCache := ⟨[], #[]⟩

/-- How a place stands. -/
def state (c : ModuleCache) (place : PlaceId) : PlaceState :=
  (c.places[place]?).getD .vacant

/-- Say how a place stands. -/
def put (c : ModuleCache) (place : PlaceId) (state : PlaceState) : ModuleCache :=
  { c with places := c.places.setIfInBounds place state }

/-- The place of a module; a missing one is made. -/
def find (c : ModuleCache) (key : String) : PlaceId × ModuleCache :=
  match Named.get? c.entries key with
  | some place => (place, c)
  | none => (c.places.size, ⟨Named.insert key c.places.size c.entries, c.places.push .vacant⟩)

/-- Ask for the module of a place. -/
def claim (c : ModuleCache) (place : PlaceId) : ClaimPoll × ModuleCache :=
  match c.state place with
  | .loaded ns => (.loaded ns, c)
  | .loading => (.pending, c)
  | .vacant => (.granted, c.put place .loading)

/-- Say how the evaluation of a claimed module ended. -/
def settle (c : ModuleCache) (place : PlaceId) : Option Namespace → ModuleCache
  | some ns => c.put place (.loaded ns)
  | none => c.put place .vacant

/-- The namespace of a module that was loaded. -/
def get? (c : ModuleCache) (key : String) : Option Namespace :=
  match (Named.get? c.entries key).map c.state with
  | some (.loaded ns) => some ns
  | _ => none

/-- The keys of the modules that were loaded, sorted. -/
def keys (c : ModuleCache) : List String :=
  (c.entries.filter fun e => (c.get? e.1).isSome).map (·.1)

/-- Forget all modules. -/
def clear (c : ModuleCache) : ModuleCache :=
  { c with entries := [] }

end ModuleCache

end DualShell
