import DualShell.Machine.World

/-!
# Answering requests

What each request does to the machine. A request that has to wait gets no answer and is made again later; all it may
have done is to park whoever made it.
-/

namespace DualShell

/-- The answer to a request, or none if it has to wait, and the machine after it. -/
abbrev Answer (r : Request) := Option r.Response × World

/-- The answer to a step of a read: a blocked one has to wait. -/
def World.answerStep {α : Type} : Step α × World → Option (Step α) × World
  | (.blocked, w) => (none, w)
  | (result, w) => (some result, w)

/-- The cell of a name among those a closure took along. -/
def takenCell? (captures : List (String × CellId)) (name : String) : Option CellId :=
  (captures.find? (·.1 == name)).map (·.2)

/-- Answer a request of a task. -/
def World.perform (w : World) (who : TaskId) : (r : Request) → Answer r
  | .cell f name _ =>
    let (c, store) := w.store.ensure f name
    (some c, { w with store })
  | .peek f name => (some (w.store.getVar? f name), w)
  | .unbind f name => (some (), { w with store := w.store.unbind f name })
  | .taken _ captures name _ _ => (some (takenCell? captures name), w)
  | .fixed name => (some (fixedValue? name), w)
  | .member ns _ name => (some (ns.get? name), w)
  | .load c => (some (w.store.get c), w)
  | .store c v => (some (), { w with store := w.store.set c v })
  | .edit c change =>
    let (result, store) := w.store.update c change.apply
    (some result, { w with store })
  | .activate home vars _ =>
    let (f, w) := w.activate home vars
    (some f, w)
  | .identity => (some w.fresh, { w with fresh := w.fresh + 1 })
  | .adopt v =>
    let (v, used) := v.adopt w.fresh
    (some v, { w with fresh := w.fresh + used })
  | .freeze name f =>
    let (ns, w) := w.freeze name f
    (some ns, w)
  | .getEnv k name => (some (Named.get? (w.environment k) name), w)
  | .setEnv k name text =>
    (some (), w.modifyKernel k fun kernel => { kernel with env := Named.insert name text kernel.env })
  | .environment k => (some (w.environment k), w)
  | .openChannel k =>
    let channel :=
      match w.kernel? k with
      | some kernel => Channel.create kernel.config.pipeBuffer kernel.config.valueBuffer
      | none => .create 0 0
    let (c, w) := w.addChannel channel
    (some c, w)
  | .openInput data values =>
    let (c, w) := w.addChannel (.closedWith data values)
    (some c, w)
  | .openCollector =>
    let (k, w) := w.addCollector
    (some k, w)
  | .takeCollected k =>
    let (content, w) := w.takeCollected k
    (some content, w)
  | .closeOutlet o => (some (), w.closeOutlet o)
  | .closeInlet i => (some (), w.closeInlet i)
  | .write o data => w.write who o data
  | .put o v => w.put o v
  | .line i => answerStep (w.line who i)
  | .toEnd i => answerStep (w.toEnd who i)
  | .upTo i count => answerStep (w.upTo who i count)
  | .item i m =>
    match w.item who i m with
    | (.blocked, _, w) => (none, w)
    | (result, m, w) => (some (result, m), w)
  | .openFile path mode =>
    let (connection, w) := w.openFile path mode
    (some connection, w)
  | .readFile path => (some (w.files.read path), w)
  | .workingDirectory => (some (FilePath.absolute w.files.cwd), w)
  | .expand pattern => (some (Glob.expand w.files pattern), w)
  | .program k command =>
    (some (Program.find w.files command ((Named.get? (w.environment k) "PATH").getD "")), w)
  | .resolveModule k spec => (some (w.resolveModule k spec), w)
  | .findModule key =>
    let (place, modules) := w.modules.find key
    (some place, { w with modules })
  | .claimModule _ place =>
    match w.modules.claim place with
    | (.pending, _) => (none, w)
    | (.loaded ns, modules) => (some (some ns), { w with modules })
    | (.granted, modules) => (some none, { w with modules })
  | .fetchModule key => (some (w.source.fetch w.files key), w)
  | .settleModule _ place ns => (some (), { w with modules := w.modules.settle place ns })
  | .startJob pipeline ctx =>
    let (id, w) := w.startJob pipeline ctx
    (some id, w)
  | .finishJob k id result => (some (), w.setJobs k ((w.jobs k).finish id result))
  | .listJobs k => (some (w.jobs k).list, w)
  | .cleanupJobs k => (some (), w.setJobs k (w.jobs k).cleanup)
  | .findJob k id => (some ((w.jobs k).find? id).isSome, w)
  | .waitJob k id => ((w.jobs k).result? id, w)
  | .forgetJob k id => (some (), w.setJobs k ((w.jobs k).remove id).2)
  | .spawn work =>
    let (id, w) := w.spawn work
    (some id, w)
  | .join id =>
    match w.takeEnded id with
    | none => (none, w)
    | some (o, w) => (some o, w)

end DualShell
