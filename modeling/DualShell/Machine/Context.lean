import DualShell.Code.Basic
import DualShell.Job.Table
import DualShell.Stream.Channel
import DualShell.Stream.Descriptors

/-!
# Where code runs

What the evaluation of a piece of code depends on besides the machine: whose variables are local to it, the cells its
closure took along, its descriptor table, and the modules that are being loaded around it.
-/

namespace DualShell

/-- The number of a kernel of a session. -/
abbrev KernelId := Nat

/-- The surroundings of a piece of code. -/
structure Context where
  kernel : KernelId
  frame : FrameId
  captures : List (String × CellId)
  descriptors : Descriptors
  /-- The keys of the modules being loaded, the outermost first. -/
  imports : List String
  deriving DecidableEq, Repr

namespace Context

/-- The same surroundings with another descriptor table. -/
def withDescriptors (ctx : Context) (descriptors : Descriptors) : Context :=
  { ctx with descriptors }

/-- The surroundings of the body of a closure. -/
def enter (ctx : Context) (frame : FrameId) (captures : List (String × CellId)) : Context :=
  { ctx with frame, captures }

/-- The surroundings of the body of a module. -/
def enterModule (ctx : Context) (frame : FrameId) (key : String) : Context :=
  { ctx with frame, captures := [], imports := ctx.imports ++ [key] }

end Context

/-- The pipe ends that a pipeline hands to one of its forms. -/
structure Wiring where
  input : Option Inlet
  output : Option Outlet
  deriving DecidableEq, Repr

/-- No pipe ends. -/
def Wiring.loose : Wiring := ⟨none, none⟩

/-- Something that runs beside the code that started it. -/
inductive Work
  /-- A form of a pipeline. -/
  | form (form : Code.Form) (ctx : Context) (wiring : Wiring)
  /-- A pipeline that runs as a job. -/
  | job (pipeline : Code.Pipeline) (ctx : Context) (id : JobId)
  /-- Taking what comes through one of the streams of a channel, for a collector, on behalf of a capture that is
  evaluated there. -/
  | gather (side : Side) (channel : ChannelId) (collector : CollectorId) (ctx : Context)

end DualShell
