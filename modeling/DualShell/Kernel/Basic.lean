import DualShell.Compile.Program
import DualShell.Machine.World

/-!
# Kernels

A kernel of a session: it has a top level of its own with its variables, an environment and jobs, and shares files and
modules with the other kernels. It knows which names its top level binds; programs are resolved against them, and only a
program that resolves adds to them.
-/

namespace DualShell.World

/-- Add a kernel. -/
def addKernel (w : World) (config : Config) (env : Environment) : KernelId × World :=
  let (globals, store) := w.store.newFrame none
  (w.kernels.size, { w with store, kernels := w.kernels.push ⟨config, env, .empty, globals, []⟩ })

/-- The names that the top level of a kernel binds. -/
def names (w : World) (k : KernelId) : List String :=
  match w.kernel? k with
  | some kernel => kernel.names
  | none => []

/-- Resolve a program against the names of a kernel. -/
def compile (w : World) (k : KernelId) (chunk : Source.Chunk) (source : String) : Except CompileError Code.Block × World :=
  match chunk.compile source (.ofGlobals (w.names k)) with
  | (.ok block, scope) => (.ok block, w.modifyKernel k fun kernel => { kernel with names := scope.globals })
  | (.error e, _) => (.error e, w)

/-- The value of a variable of the top level. -/
def getVar? (w : World) (k : KernelId) (name : String) : Option Value :=
  match w.kernel? k with
  | some kernel => w.store.getVar? kernel.globals name
  | none => none

/-- Give a variable of the top level a value; later programs know its name. -/
def setVar (w : World) (k : KernelId) (name : String) (v : Value) : World :=
  match w.kernel? k with
  | some kernel =>
    { w with store := w.store.setVar kernel.globals name v }.modifyKernel k fun kernel =>
      { kernel with names := if kernel.names.contains name then kernel.names else kernel.names ++ [name] }
  | none => w

/-- Set a variable of the environment of a kernel. -/
def setEnv (w : World) (k : KernelId) (name text : String) : World :=
  w.modifyKernel k fun kernel => { kernel with env := Named.insert name text kernel.env }

/-- The results of the jobs of a kernel, if all have ended. -/
def waitJobs (w : World) (k : KernelId) : Option (List (JobId × RunResult)) :=
  (w.jobs k).waitAll

/-- The members of a module that was loaded, with their values. -/
def moduleMembers? (w : World) (key : String) : Option (String × List (String × Value)) :=
  (w.modules.get? key).map fun ns => (ns.name, ns.members.map fun m => (m.1, w.store.get m.2))

end DualShell.World
