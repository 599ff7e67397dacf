/-!
# TOML documents

The tree of a configuration file, and the rules by which its lines build it. A table is made by a header, implied by a
header of a table inside it, or made by a dotted key; each can be added to only in the way it was made, and no key is
given twice.
-/

namespace DualShell.Toml

/-- How a table came to be. -/
inductive TableKind
  /-- By a header that names a table inside it. -/
  | implied
  /-- By its own header; the top level counts as such. -/
  | defined
  /-- By a dotted key. -/
  | dotted
  deriving DecidableEq, Repr

/-- What a key is bound to. -/
inductive Item
  | string (s : String)
  | integer (i : Int)
  | float
  | boolean (b : Bool)
  /-- A date, a time, or both. -/
  | moment
  | array (items : List Item)
  /-- A table written as a value; nothing can be added to it. -/
  | inlined (members : List (String × Item))
  | table (kind : TableKind) (members : List (String × Item))
  /-- The tables of one name, the latest last. -/
  | tables (elements : List (List (String × Item)))

/-- The bindings of a table. -/
abbrev Members := List (String × Item)

/-- What a key is bound to. -/
def get? (ms : Members) (key : String) : Option Item :=
  (ms.find? (·.1 == key)).map (·.2)

/-- Bind a key anew, in its place or at the end. -/
def put (ms : Members) (key : String) (item : Item) : Members :=
  if ms.any (·.1 == key) then ms.map fun m => if m.1 == key then (key, item) else m else ms ++ [(key, item)]

/-- Change the table at the end of a path of keys; missing tables on the way are made in the kind given. A path of
dotted keys does not lead through a table that has a header. -/
def descend (made : TableKind) (change : TableKind → Members → Option Members) :
    List String → TableKind → Members → Option Members
  | [], kind, ms => change kind ms
  | key :: path, _, ms =>
    match get? ms key with
    | none => (descend made change path made []).map fun inner => put ms key (.table made inner)
    | some (.table kind inner) =>
      if made == .dotted && kind == .defined then none
      else (descend made change path kind inner).map fun inner => put ms key (.table kind inner)
    | some (.tables elements) =>
      match elements.getLast? with
      | none => none
      | some last =>
        (descend made change path .defined last).map fun inner => put ms key (.tables (elements.dropLast ++ [inner]))
    | some _ => none

/-- Bind the last key of a dotted path in a table. -/
def bind (path : List String) (key : String) (item : Item) (kind : TableKind) (ms : Members) : Option Members :=
  descend .dotted
    (fun kind ms => if (kind == .dotted) == path.isEmpty || (get? ms key).isSome then none else some (put ms key item))
    path kind ms

/-- Make the table of a header. -/
def openTable (path : List String) (ms : Members) : Option Members :=
  match path.getLast? with
  | none => none
  | some key =>
    descend .implied
      (fun _ ms =>
        match get? ms key with
        | none => some (put ms key (.table .defined []))
        | some (.table .implied inner) => some (put ms key (.table .defined inner))
        | some _ => none)
      path.dropLast .defined ms

/-- Add a table to those of a header. -/
def appendTable (path : List String) (ms : Members) : Option Members :=
  match path.getLast? with
  | none => none
  | some key =>
    descend .implied
      (fun _ ms =>
        match get? ms key with
        | none => some (put ms key (.tables [[]]))
        | some (.tables elements) => some (put ms key (.tables (elements ++ [[]])))
        | some _ => none)
      path.dropLast .defined ms

/-- Bind a key in the table whose header was read last. -/
def assign (header path : List String) (key : String) (item : Item) (ms : Members) : Option Members :=
  descend .implied (bind path key item) header .defined ms

end DualShell.Toml
