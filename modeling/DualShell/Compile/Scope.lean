import DualShell.Code.Basic

/-!
# Lexical scopes

The names in scope while a program is resolved: one frame for each lambda that is open, the innermost first. A frame
holds the names bound in it and the list of names its lambda takes along from outside. Looking a name up goes outwards
to the first frame that has it, and records a capture in every frame on the way back.
-/

namespace DualShell

/-- The names of one lambda body, or of the top level. -/
structure StaticFrame where
  locals : List String
  captures : List Capture
  deriving DecidableEq, Repr

namespace StaticFrame

/-- A frame without names. -/
def empty : StaticFrame := ⟨[], []⟩

/-- Whether a name is bound here. -/
def hasLocal (f : StaticFrame) (name : String) : Bool :=
  f.locals.contains name

/-- Whether a name is taken along from outside. -/
def hasCapture (f : StaticFrame) (name : String) : Bool :=
  f.captures.any (·.name == name)

/-- Record that a name is taken along. -/
def addCapture (f : StaticFrame) (name : String) (source : CaptureSource) : StaticFrame :=
  { f with captures := f.captures ++ [⟨name, source⟩] }

/-- Bind a name. -/
def declare (f : StaticFrame) (name : String) : StaticFrame :=
  if f.hasLocal name then f else { f with locals := f.locals ++ [name] }

/-- Forget a name. -/
def undeclare (f : StaticFrame) (name : String) : StaticFrame :=
  { f with locals := f.locals.filter (· != name) }

end StaticFrame

/-- The open frames, of which there is always one: the innermost, and those around it from the inside out. -/
structure Scope where
  inner : StaticFrame
  outer : List StaticFrame
  deriving DecidableEq, Repr

namespace Scope

/-- The scope of a top level that knows the given names. -/
def ofGlobals (names : List String) : Scope :=
  ⟨names.foldl StaticFrame.declare .empty, []⟩

/-- The frames from the inside out. -/
def frames (s : Scope) : List StaticFrame :=
  s.inner :: s.outer

/-- The number of open frames. -/
def depth (s : Scope) : Nat :=
  s.frames.length

/-- Open a frame. -/
def push (s : Scope) : Scope :=
  ⟨.empty, s.inner :: s.outer⟩

/-- Close the innermost frame and hand out what its lambda takes along. The top level stays open. -/
def pop (s : Scope) : List Capture × Scope :=
  match s.outer with
  | [] => (s.inner.captures, ⟨.empty, []⟩)
  | f :: fs => (s.inner.captures, ⟨f, fs⟩)

/-- Bind a name in the innermost frame. -/
def declare (s : Scope) (name : String) : Scope :=
  { s with inner := s.inner.declare name }

/-- Forget a name of the innermost frame. -/
def undeclare (s : Scope) (name : String) : Scope :=
  { s with inner := s.inner.undeclare name }

/-- Whether a name is bound in the innermost frame. -/
def isLocal (s : Scope) (name : String) : Bool :=
  s.inner.hasLocal name

/-- How many frames out the first one that binds a name is, in frames listed from the inside out. -/
def level (name : String) (frames : List StaticFrame) : Nat :=
  frames.findIdx (·.hasLocal name)

/-- Find a name in frames listed from the inside out: the frames with captures recorded below the one that has it, and
where a frame just inside them finds the name. -/
def reach (name : String) : List StaticFrame → Option (CaptureSource × List StaticFrame)
  | [] => none
  | f :: fs =>
    if f.hasLocal name then some (.local, f :: fs)
    else
      let source := @CaptureSource.captured (level name (f :: fs))
      if f.hasCapture name then some (source, f :: fs)
      else
        match reach name fs with
        | none => none
        | some (inner, fs) => some (source, f.addCapture name inner :: fs)

/-- The reference to a name that the innermost frame takes along. -/
def captured (s : Scope) (name : String) : Ref :=
  @Ref.captured (level name s.outer + 1) name

/-- Take a name along into the innermost frame from the frames around it. -/
def captureInner (s : Scope) (name : String) : Option Scope :=
  match reach name s.outer with
  | none => none
  | some (source, outer) =>
    some ⟨if s.inner.hasCapture name then s.inner else s.inner.addCapture name source, outer⟩

/-- Look a name up from the innermost frame outwards. -/
def resolve (s : Scope) (name : String) : Option Ref × Scope :=
  if s.inner.hasLocal name then (some (.local name), s)
  else if s.inner.hasCapture name then (some (s.captured name), s)
  else
    match s.captureInner name with
    | none => (none, s)
    | some t => (some (s.captured name), t)

/-- Look a name up from the frame around the innermost one outwards. -/
def resolveUp (s : Scope) (name : String) : Option Ref × Scope :=
  match s.captureInner name with
  | none => (none, s)
  | some t => (some (s.captured name), t)

/-- The frame of the top level. -/
def outermost (s : Scope) : StaticFrame :=
  s.outer.getLastD s.inner

/-- The names bound at the top level. -/
def globals (s : Scope) : List String :=
  s.outermost.locals

end Scope

end DualShell
