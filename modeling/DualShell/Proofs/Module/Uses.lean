import Mathlib.Data.List.Perm.Subperm
import DualShell.Proofs.Machine.Alone
import DualShell.Proofs.Module.Cache
import DualShell.Proofs.Scope.Definition

/-!
# Programs that only load modules

A program that consists of `use` forms resolves to code that loads modules and does nothing else
(`Source.Chunk.OnlyUses.compile`). If the modules consist of `use` forms too, then loading ends: the measure is the
number of modules that are not in the chain of imports, each nested evaluation takes one of them (`Evaluator.serves`),
and a place that would have to be waited for is one of a module in the chain, which is refused before.
-/

namespace DualShell

open Eval

/-! ## Programs of uses -/

/-- A pipeline of one `use` form with the arguments. -/
def Source.Pipeline.IsUse (p : Source.Pipeline) (args : List Source.Word) : Prop :=
  ∃ opts span span', p = ⟨[⟨[], .command ⟨.bare "use", args, opts⟩, [], span⟩], false, span'⟩

/-- The program consists of `use` forms. -/
def Source.Chunk.OnlyUses (chunk : Source.Chunk) : Prop := ∀ p ∈ chunk.pipelines, ∃ args, p.IsUse args

/-- A resolved pipeline that loads a module. -/
def Code.Pipeline.Loads (spec : String) (p : Code.Pipeline) : Prop :=
  ∃ name place, p.background = false ∧ p.forms = [⟨[], .special (.load spec (.local name)), [], place⟩]

/-- The words name the spec. -/
def Source.Names (spec : String) (args : List Source.Word) : Prop :=
  ∃ word rest, args = word :: rest ∧ word.literal? = some spec

/-- The words of a `use` form begin with the spec. -/
theorem Source.Imports.names {spec alias_ : String} {args : List Source.Word} (h : Source.Imports spec alias_ args) :
    Source.Names spec args := by
  cases h with
  | derived literal => exact ⟨_, [], rfl, literal⟩
  | given literal alias_ => exact ⟨_, [.bare alias_], rfl, literal⟩

namespace Source

variable {src : String} {s t : Scope}

/-- A command that resolves and is a `use` form loads a module. -/
theorem compileCommand_use {span : Span} {args : List Word} {opts : List Opt} {action : Code.Action}
    (h : (compileCommand src span ⟨.bare "use", args, opts⟩).run.run s = (.ok action, t)) :
    ∃ spec name, Names spec args ∧ action = .special (.load spec (.local name)) := by
  obtain ⟨op, rfl, hop⟩ := compileCommand_ok .load h
  obtain ⟨spec, alias_, himports, -, rfl, -⟩ := compileUse_ok hop
  exact ⟨spec, _, himports.names, rfl⟩

/-- A `use` form resolves to the loading of the module that it names. -/
theorem Pipeline.IsUse.compile {p : Pipeline} {args : List Word} {resolved : Code.Pipeline} (hp : p.IsUse args)
    (h : (compilePipeline src p).run.run s = (.ok resolved, t)) : ∃ spec, Names spec args ∧ resolved.Loads spec := by
  obtain ⟨opts, span, span', rfl⟩ := hp
  unfold compilePipeline at h
  obtain ⟨forms, t₁, hforms, hresolved⟩ := Compile.run_bind_ok h
  unfold compileForms at hforms
  obtain ⟨form, t₂, hform, hrest⟩ := Compile.run_bind_ok hforms
  unfold compileForm at hform
  obtain ⟨redirs, t₃, hredirs, hafter⟩ := Compile.run_bind_ok hform
  obtain ⟨temps, t₄, htemps, hbody⟩ := Compile.run_bind_ok hafter
  obtain ⟨action, t₅, haction, hlast⟩ := Compile.run_bind_ok hbody
  unfold compileBody at haction
  obtain ⟨spec, name, hnames, rfl⟩ := compileCommand_use haction
  unfold compileForms at hrest
  unfold compileRedirs at hredirs
  unfold compileTemps at htemps
  cases hredirs
  cases htemps
  cases hlast
  cases hrest
  cases hresolved
  exact ⟨spec, hnames, name, _, rfl, rfl⟩

/-- Code that loads the modules that `use` forms name, and does nothing else. -/
structure LoadsFor (ps : List Pipeline) (qs : List Code.Pipeline) : Prop where
  only : ∀ q ∈ qs, ∃ spec, Code.Pipeline.Loads spec q
  every : ∀ p ∈ ps, ∀ args, p.IsUse args → ∃ spec, Names spec args ∧ ∃ q ∈ qs, Code.Pipeline.Loads spec q

/-- Programs of `use` forms resolve to loadings of the modules that they name. -/
theorem compilePipelines_uses : (ps : List Pipeline) → (∀ p ∈ ps, ∃ args, p.IsUse args) →
    ∀ {s t : Scope} {qs : List Code.Pipeline}, (compilePipelines src ps).run.run s = (.ok qs, t) → LoadsFor ps qs
  | [], _, s, t, resolved, h => by
    unfold compilePipelines at h
    cases h
    exact ⟨List.forall_mem_nil _, List.forall_mem_nil _⟩
  | p :: ps, hps, s, t, resolved, h => by
    unfold compilePipelines at h
    obtain ⟨q, t₁, hq, hrest⟩ := Compile.run_bind_ok h
    obtain ⟨qs, t₂, hqs, hlast⟩ := Compile.run_bind_ok hrest
    cases hlast
    have hlater := compilePipelines_uses ps (fun p' hp' => hps p' (List.mem_cons_of_mem _ hp')) hqs
    obtain ⟨args, hp⟩ := hps p List.mem_cons_self
    refine ⟨fun q' hq' => ?_, fun p' hp' args' huse => ?_⟩
    · rcases List.mem_cons.1 hq' with rfl | hq'
      · obtain ⟨spec, -, hloads⟩ := hp.compile hq
        exact ⟨spec, hloads⟩
      · exact hlater.only q' hq'
    · rcases List.mem_cons.1 hp' with rfl | hp'
      · obtain ⟨spec, hnames, hloads⟩ := huse.compile hq
        exact ⟨spec, hnames, q, List.mem_cons_self, hloads⟩
      · obtain ⟨spec, hnames, q', hq', hloads⟩ := hlater.every p' hp' args' huse
        exact ⟨spec, hnames, q', List.mem_cons_of_mem _ hq', hloads⟩

/-- A program of `use` forms that resolves loads the modules it names and does nothing else. -/
theorem Chunk.OnlyUses.compile {chunk : Chunk} {block : Code.Block} (hchunk : chunk.OnlyUses)
    (h : chunk.compile src s = (.ok block, t)) : LoadsFor chunk.pipelines block.pipelines := by
  obtain ⟨pipelines⟩ := chunk
  unfold Chunk.compile at h
  split at h
  · rename_i hrun
    cases h
    unfold compileChunk at hrun
    obtain ⟨resolved, t', hresolved, hlast⟩ := Compile.run_bind_ok hrun
    cases hlast
    exact compilePipelines_uses _ hchunk hresolved
  · nomatch h

end Source

/-! ## Machines between loads -/

/-- A machine and a later one that differ in what loading modules may change: modules that are there stay there, and so
do places that are being filled. -/
structure World.Steady (w w' : World) : Prop where
  source : w'.source = w.source
  files : w'.files = w.files
  kernels : w'.kernels = w.kernels
  spawned : w'.spawned = w.spawned
  ended : w'.ended = w.ended
  entries : ∀ {key place}, Named.get? w.modules.entries key = some place → Named.get? w'.modules.entries key = some place
  places : ∀ {place}, w.modules.state place ≠ .vacant → w'.modules.state place = w.modules.state place

/-- No place of a module would have to be waited for, but those of the modules in a chain of imports. -/
structure World.Calm (imports : List String) (w : World) : Prop where
  owner : ∀ {key key' place}, Named.get? w.modules.entries key = some place →
    Named.get? w.modules.entries key' = some place → key = key'
  made : ∀ {key place}, Named.get? w.modules.entries key = some place → place < w.modules.places.size
  free : ∀ {key place}, Named.get? w.modules.entries key = some place → w.modules.state place = .loading → key ∈ imports

/-- The modules that a kernel can load are among finitely many, and consist of `use` forms. -/
structure World.Tame (k : KernelId) (keys : List String) (w : World) : Prop where
  known : ∀ {spec key}, w.resolveModule k spec = .ok key → key ∈ keys
  uses : ∀ {key chunk}, w.source.fetch w.files key = .ok chunk → chunk.OnlyUses

/-- The module that a spec means is there. -/
def World.Has (w : World) (k : KernelId) (spec : String) : Prop :=
  ∃ key ns, w.resolveModule k spec = .ok key ∧ w.modules.get? key = some ns

namespace World

variable {w w' w'' : World} {k : KernelId} {keys imports : List String} {key spec : String} {place : PlaceId} {who : TaskId}

namespace Steady

/-- A machine is steady from itself. -/
theorem refl (w : World) : w.Steady w := ⟨rfl, rfl, rfl, rfl, rfl, id, fun _ => rfl⟩

/-- Steadiness goes on from machine to machine. -/
theorem trans (h : w.Steady w') (h' : w'.Steady w'') : w.Steady w'' where
  source := h'.source.trans h.source
  files := h'.files.trans h.files
  kernels := h'.kernels.trans h.kernels
  spawned := h'.spawned.trans h.spawned
  ended := h'.ended.trans h.ended
  entries hkey := h'.entries (h.entries hkey)
  places hplace := (h'.places (h.places hplace ▸ hplace)).trans (h.places hplace)

/-- Modules resolve as before. -/
theorem resolveModule (h : w.Steady w') (k : KernelId) (spec : String) :
    w'.resolveModule k spec = w.resolveModule k spec := by
  unfold World.resolveModule World.kernel?
  rw [h.source, h.files, h.kernels]

/-- Modules are there as before, and are programs of uses. -/
theorem tame (h : w.Steady w') (ht : w.Tame k keys) : w'.Tame k keys where
  known hkey := ht.known (h.resolveModule k _ ▸ hkey)
  uses hchunk := ht.uses (h.source ▸ h.files ▸ hchunk)

/-- Modules that are there stay there. -/
theorem has (h : w.Steady w') (hhas : w.Has k spec) : w'.Has k spec := by
  obtain ⟨key, ns, hkey, hget⟩ := hhas
  refine ⟨key, ns, (h.resolveModule k spec).trans hkey, ?_⟩
  obtain ⟨place, hplace, hstate⟩ := ModuleCache.get?_eq_some.1 hget
  exact ModuleCache.get?_eq_some.2 ⟨place, h.entries hplace, (h.places (by simp [hstate])).trans hstate⟩

end Steady

/-- Whether a machine is calm depends on its modules. -/
theorem Calm.congr (h : w.Calm imports) (hmodules : w'.modules = w.modules) : w'.Calm imports where
  owner := hmodules ▸ h.owner
  made := hmodules ▸ h.made
  free := hmodules ▸ h.free

/-- A change of variables alone. -/
theorem Steady.vars (w : World) (store : Store) (fresh : Nat) : w.Steady { w with store, fresh } :=
  ⟨rfl, rfl, rfl, rfl, rfl, id, fun _ => rfl⟩

/-- To take what was collected changes no modules. -/
theorem Steady.takeCollected (w : World) (c : CollectorId) : w.Steady (w.takeCollected c).2 := by
  unfold World.takeCollected
  split
  · exact .refl w
  · exact ⟨rfl, rfl, rfl, rfl, rfl, id, fun _ => rfl⟩

/-- A place is found, or made. -/
theorem Calm.find (h : w.Calm imports) (who : TaskId) (key : String) :
    ∃ place w', w.perform who (.findModule key) = (some place, w') ∧ w.Steady w' ∧
    w'.Calm imports ∧ Named.get? w'.modules.entries key = some place := by
  simp only [World.perform, ModuleCache.find]
  cases hget : Named.get? w.modules.entries key with
  | some place => exact ⟨place, w, rfl, .refl w, h, hget⟩
  | none =>
    have hstate := ModuleCache.state_push (c := w.modules) (Named.insert key w.modules.places.size w.modules.entries)
    -- The new place is that of the key alone.
    have hentry : ∀ {k p}, Named.get? (Named.insert key w.modules.places.size w.modules.entries) k = some p →
        k = key ∧ p = w.modules.places.size ∨ Named.get? w.modules.entries k = some p := by
      intro k p hk
      by_cases hne : k = key
      · subst hne
        rw [Named.get?_insert_self] at hk
        exact .inl ⟨rfl, (Option.some.inj hk).symm⟩
      · rw [Named.get?_insert_ne hne] at hk
        exact .inr hk
    refine ⟨w.modules.places.size, _, rfl, ⟨rfl, rfl, rfl, rfl, rfl, fun {k p} hk => ?_, fun {p} _ => hstate p⟩,
      ⟨fun {k k' p} hk hk' => ?_, fun {k p} hk => ?_, fun {k p} hk hloading => ?_⟩, Named.get?_insert_self _ _⟩
    · have hne : k ≠ key := fun heq => by
        rw [heq, hget] at hk
        cases hk
      exact (Named.get?_insert_ne hne _ _).trans hk
    · rcases hentry hk with ⟨rfl, rfl⟩ | hold
      · exact ((hentry hk').resolve_right fun hold' => Nat.lt_irrefl _ (h.made hold')).1.symm
      · rcases hentry hk' with ⟨rfl, rfl⟩ | hold'
        · exact absurd (h.made hold) (Nat.lt_irrefl _)
        · exact h.owner hold hold'
    · rw [Array.size_push]
      rcases hentry hk with ⟨-, rfl⟩ | hold
      · exact Nat.lt_succ_self _
      · exact Nat.lt_succ_of_lt (h.made hold)
    · rw [hstate] at hloading
      rcases hentry hk with ⟨-, rfl⟩ | hold
      · simp [ModuleCache.state] at hloading
      · exact h.free hold hloading

/-- A place is claimed that nobody is filling. -/
theorem Calm.claim (h : w.Calm imports) (who : TaskId) (hkey : key ∉ imports)
    (hplace : Named.get? w.modules.entries key = some place) :
    (∃ ns, w.perform who (.claimModule key place) = (some (some ns), w) ∧ w.modules.get? key = some ns) ∨
      ∃ w', w.perform who (.claimModule key place) = (some none, w') ∧ w.modules.state place = .vacant ∧
        w' = { w with modules := w.modules.put place .loading } := by
  simp only [World.perform, ModuleCache.claim]
  cases hstate : w.modules.state place with
  | loading => exact absurd (h.free hplace hstate) hkey
  | loaded ns => exact .inl ⟨ns, rfl, ModuleCache.get?_eq_some.2 ⟨place, hplace, hstate⟩⟩
  | vacant => exact .inr ⟨_, rfl, rfl, rfl⟩

/-- The state of one place changes. -/
theorem Steady.put {st : PlaceState} (h : w.modules.state place = .vacant) :
    w.Steady { w with modules := w.modules.put place st } where
  source := rfl
  files := rfl
  kernels := rfl
  spawned := rfl
  ended := rfl
  entries := id
  places {p} hp := by
    refine ModuleCache.state_put_ne (fun heq => hp ?_) st
    rw [heq, h]

/-- Whoever settles the place it holds leaves the machine calm around it. -/
theorem Calm.put {st : PlaceState} (h : w.Calm (imports ++ [key])) (hplace : Named.get? w.modules.entries key = some place)
    (hst : st ≠ .loading) : World.Calm imports { w with modules := w.modules.put place st } where
  owner := h.owner
  made hk := by
    simpa [ModuleCache.put] using h.made hk
  free {k p} hk hloading := by
    by_cases hp : p = place
    · subst hp
      rw [ModuleCache.state_put_self (h.made hplace)] at hloading
      exact absurd hloading hst
    · rw [ModuleCache.state_put_ne hp] at hloading
      refine (List.mem_append.1 (h.free hk hloading)).resolve_right fun hlast => hp ?_
      rw [List.mem_singleton.1 hlast] at hk
      exact Option.some.inj (hk.symm.trans hplace)

/-- Whoever claims a place that is not held leaves the machine calm within it. -/
theorem Calm.enter (h : w.Calm imports) (hplace : Named.get? w.modules.entries key = some place) :
    World.Calm (imports ++ [key]) { w with modules := w.modules.put place .loading } where
  owner := h.owner
  made hk := by
    simpa [ModuleCache.put] using h.made hk
  free {k p} hk hloading := by
    by_cases hp : p = place
    · subst hp
      rw [h.owner hk hplace]
      exact List.mem_append_right _ (List.mem_singleton_self _)
    · rw [ModuleCache.state_put_ne hp] at hloading
      exact List.mem_append_left _ (h.free hk hloading)

end World

/-! ## Loading ends -/

namespace Evaluator

/-- Code that only loads modules comes to an end within a chain of imports. -/
def Serves (e : Evaluator) (who : TaskId) (k : KernelId) (keys imports : List String) : Prop :=
  ∀ {b : Code.Block} {ctx : Context} {w : World}, (∀ q ∈ b.pipelines, ∃ spec, q.Loads spec) → ctx.kernel = k →
    ctx.imports = imports →
    w.Tame k keys → w.Calm imports → (e.block b ctx).Alone who (fun o w' => w.Steady w' ∧ w'.Calm imports ∧
      (o = .ok () → ∀ q ∈ b.pipelines, ∀ spec, q.Loads spec → w'.Has k spec)) w

variable {e : Evaluator} {who : TaskId} {k : KernelId} {keys imports : List String} {ctx : Context}
    {spec key : String} {w : World}
  {place : PlaceId}

/-- To write a variable changes no modules. -/
theorem write_alone (name : String) (v : Value) (h : w.Calm imports) :
    ((Ref.local name).write ctx v).Alone who (fun _ w' => w.Steady w' ∧ w'.Calm imports) w := by
  unfold Ref.write Ref.cell
  refine alone_ask_bind rfl (alone_ask rfl ⟨?_, ?_⟩)
  · exact .vars w _ w.fresh
  · exact h.congr rfl

/-- The body of a module ends if its loadings do. -/
theorem runModule_alone (he : e.Serves who k keys (ctx.imports ++ [key])) {body : Code.Block}
    (hbody : ∀ q ∈ body.pipelines, ∃ spec, q.Loads spec) (hk : ctx.kernel = k) (ht : w.Tame k keys)
    (h : w.Calm (ctx.imports ++ [key])) :
    (e.runModule spec key body ctx).Alone who (fun _ w' => w.Steady w' ∧ w'.Calm (ctx.imports ++ [key])) w := by
  unfold runModule
  refine alone_ask_bind rfl (alone_attempt_bind ?_)
  have hactivated : w.Steady (w.activate none []).2 := .vars w _ w.fresh
  refine Task.Alone.mono (he hbody hk rfl (hactivated.tame ht) (h.congr rfl)) fun o w' ho => ?_
  obtain ⟨hsteady, hcalm, -⟩ := ho
  have hwhole := hactivated.trans hsteady
  cases o with
  | ok =>
    refine alone_ask rfl ⟨hwhole.trans (.vars w' w'.store _), hcalm.congr rfl⟩
  | error ex =>
    dsimp only
    split
    · exact alone_fail ⟨hwhole, hcalm⟩
    · exact alone_throw ⟨hwhole, hcalm⟩

/-- The evaluation of a module ends if its loadings do. -/
theorem evalModule_alone (he : e.Serves who k keys (ctx.imports ++ [key])) (hk : ctx.kernel = k) (ht : w.Tame k keys)
    (h : w.Calm (ctx.imports ++ [key])) :
    (e.evalModule spec key ctx).Alone who (fun _ w' => w.Steady w' ∧ w'.Calm (ctx.imports ++ [key])) w := by
  unfold evalModule
  refine alone_ask_bind rfl ?_
  cases hfetch : w.source.fetch w.files key with
  | error err => exact alone_fail ⟨.refl w, h⟩
  | ok chunk =>
    refine alone_bind (alone_pure ?_)
    dsimp only
    rcases hcompile : chunk.compile key (Scope.ofGlobals []) with ⟨compiled, scope⟩
    cases compiled with
    | error err => exact alone_fail ⟨.refl w, h⟩
    | ok body =>
      exact runModule_alone he ((ht.uses hfetch).compile hcompile).only hk ht h

/-- A module whose place was found is there, or is evaluated, or cannot be had. -/
theorem initModule_alone (he : e.Serves who k keys (ctx.imports ++ [key])) (hk : ctx.kernel = k) (ht : w.Tame k keys)
    (h : w.Calm ctx.imports) (hkey : key ∉ ctx.imports) (hplace : Named.get? w.modules.entries key = some place) :
    (e.initModule spec key place ctx).Alone who (fun o w' => w.Steady w' ∧ w'.Calm ctx.imports ∧
      ∀ ns, o = .ok ns → w'.modules.get? key = some ns) w := by
  unfold initModule
  rcases h.claim who hkey hplace with ⟨ns, hclaim, hget⟩ | ⟨w₁, hclaim, hvacant, rfl⟩
  · refine alone_ask_bind hclaim (alone_pure ⟨.refl w, h, fun ns' hns' => ?_⟩)
    cases hns'
    exact hget
  · refine alone_ask_bind hclaim (alone_attempt_bind ?_)
    have hclaimed : w.Steady { w with modules := w.modules.put place .loading } := .put hvacant
    refine Task.Alone.mono (evalModule_alone he hk (hclaimed.tame ht) (h.enter hplace)) fun o w₂ ho => ?_
    obtain ⟨hsteady, hcalm⟩ := ho
    have hplace₂ : Named.get? w₂.modules.entries key = some place := hsteady.entries hplace
    -- What was not vacant before the claim is as it was, whatever becomes of the place.
    have hsettled : ∀ st, w.Steady { w₂ with modules := w₂.modules.put place st } := by
      intro st
      refine ⟨hsteady.source, hsteady.files, hsteady.kernels, hsteady.spawned, hsteady.ended, hsteady.entries,
        fun {p} hp => ?_⟩
      have hne : p ≠ place := fun heq => hp (heq ▸ hvacant)
      have hclaimed_p := ModuleCache.state_put_ne (c := w.modules) hne .loading
      have hp₂ : w₂.modules.state p = w.modules.state p :=
        (hsteady.places (by rw [hclaimed_p]; exact hp)).trans hclaimed_p
      exact (ModuleCache.state_put_ne hne st).trans hp₂
    cases o with
    | ok ns =>
      refine alone_ask_bind rfl (alone_pure ⟨hsettled _, hcalm.put hplace₂ (fun heq => nomatch heq), fun ns' hns' => ?_⟩)
      cases hns'
      exact ModuleCache.get?_eq_some.2 ⟨place, hplace₂, ModuleCache.state_put_self (hcalm.made hplace₂) _⟩
    | error ex =>
      refine alone_ask_bind rfl (alone_throw ⟨hsettled _, hcalm.put hplace₂ (fun heq => nomatch heq), fun ns hns => ?_⟩)
      nomatch hns

/-- A module is loaded, or cannot be had. -/
theorem loadModule_alone (he : ∀ key ∈ keys, key ∉ imports → e.Serves who k keys (imports ++ [key])) (hk : ctx.kernel = k)
    (hi : ctx.imports = imports) (ht : w.Tame k keys) (h : w.Calm imports) :
    (e.loadModule spec ctx).Alone who (fun o w' => w.Steady w' ∧ w'.Calm imports ∧ ∀ ns, o = .ok ns → w'.Has k spec) w := by
  subst hk hi
  unfold loadModule
  refine alone_ask_bind rfl ?_
  cases hresolve : w.resolveModule ctx.kernel spec with
  | error err => exact alone_fail ⟨.refl w, h, fun ns hns => nomatch hns⟩
  | ok key =>
    refine alone_bind (alone_pure ?_)
    dsimp only
    split
    · exact alone_fail ⟨.refl w, h, fun ns hns => nomatch hns⟩
    · rename_i hcontains
      have hkey : key ∉ ctx.imports := fun hmem => hcontains (List.contains_iff_mem.2 hmem)
      obtain ⟨place, w₁, hfind, hfound, hcalm, hplace⟩ := h.find who key
      refine alone_ask_bind hfind ?_
      refine Task.Alone.mono (initModule_alone (he key (ht.known hresolve) hkey) rfl (hfound.tame ht) hcalm hkey hplace)
        fun o w₂ ho => ?_
      obtain ⟨hsteady, hcalm₂, hget⟩ := ho
      have hwhole := hfound.trans hsteady
      refine ⟨hwhole, hcalm₂, fun ns hns => ⟨key, ns, ?_, hget ns hns⟩⟩
      exact (hwhole.resolveModule _ _).trans hresolve

/-- A `use` form binds a module or fails. -/
theorem load_alone (he : ∀ key ∈ keys, key ∉ imports → e.Serves who k keys (imports ++ [key])) (hk : ctx.kernel = k)
    (hi : ctx.imports = imports) (ht : w.Tame k keys) (h : w.Calm imports) (name : String) :
    (e.evalSpecial (.load spec (.local name)) ctx).Alone who
      (fun o w' => w.Steady w' ∧ w'.Calm imports ∧ (o = .ok () → w'.Has k spec)) w := by
  refine alone_bind (Task.Alone.mono (loadModule_alone he hk hi ht h) fun o w₁ ho => ?_)
  obtain ⟨hsteady, hcalm, hhas⟩ := ho
  cases o with
  | error ex => exact ⟨hsteady, hcalm, fun heq => nomatch heq⟩
  | ok ns =>
    refine Task.Alone.mono (write_alone name (.ns ns) hcalm) fun o' w₂ ho' => ?_
    exact ⟨hsteady.trans ho'.1, ho'.2, fun _ => ho'.1.has (hhas ns rfl)⟩

/-- A form without temporaries, redirections and pipe ends does its action, and its failures have passed through it. -/
theorem evalForm_plain (action : Code.Action) (at_ : Place) (ctx : Context) : e.evalForm ⟨[], action, [], at_⟩ ctx .loose =
    (do
      match ← attempt (e.evalAction action (ctx.withDescriptors (Wiring.loose.install ctx.descriptors))) with
      | .ok () => pure ()
      | .error ex => throw (ex.passing at_)) := rfl

/-- A pipeline of a `use` form binds a module or fails. -/
theorem form_alone (he : ∀ key ∈ keys, key ∉ imports → e.Serves who k keys (imports ++ [key])) (hk : ctx.kernel = k)
    (hi : ctx.imports = imports) (ht : w.Tame k keys) (h : w.Calm imports) (name : String) (at_ : Place) :
    (e.evalForm ⟨[], .special (.load spec (.local name)), [], at_⟩ ctx .loose).Alone who
      (fun o w' => w.Steady w' ∧ w'.Calm imports ∧ (o = .ok () → w'.Has k spec)) w := by
  rw [evalForm_plain]
  have hload : (e.evalSpecial (.load spec (.local name))
    (ctx.withDescriptors (Wiring.loose.install ctx.descriptors))).Alone who
      (fun o w' => w.Steady w' ∧ w'.Calm imports ∧ (o = .ok () → w'.Has k spec)) w := load_alone he hk hi ht h name
  refine alone_attempt_bind (Task.Alone.mono hload fun o w' ho => ?_)
  cases o with
  | ok => exact alone_pure ho
  | error ex => exact alone_throw ⟨ho.1, ho.2.1, fun heq => nomatch heq⟩

/-- Pipelines of `use` forms bind modules up to the first failure. -/
theorem pipelines_alone (hform : ∀ {spec : String} {w : World}, w.Tame k keys → w.Calm imports → ∀ name at_,
      (e.form ⟨[], .special (.load spec (.local name)), [], at_⟩ ctx .loose).Alone who
        (fun o w' => w.Steady w' ∧ w'.Calm imports ∧ (o = .ok () → w'.Has k spec)) w) :
    (qs : List Code.Pipeline) → (∀ q ∈ qs, ∃ spec, q.Loads spec) → ∀ {w : World}, w.Tame k keys → w.Calm imports →
      (e.evalPipelines ctx qs).Alone who (fun o w' => w.Steady w' ∧ w'.Calm imports ∧
        (o = .ok () → ∀ q ∈ qs, ∀ spec, q.Loads spec → w'.Has k spec)) w
  | [], _, w, _, h => alone_pure ⟨.refl w, h, fun _ q hq => nomatch hq⟩
  | q :: qs, hqs, w, ht, h => by
    obtain ⟨spec, name, at_, hbackground, hforms⟩ := hqs q List.mem_cons_self
    have hq : e.evalPipeline q ctx = e.form ⟨[], .special (.load spec (.local name)), [], at_⟩ ctx .loose := by
      simp only [evalPipeline, evalForeground, hbackground, hforms, Bool.false_eq_true, if_false]
    unfold evalPipelines
    rw [hq]
    refine alone_bind (Task.Alone.mono (hform ht h name at_) fun o w₁ ho => ?_)
    obtain ⟨hsteady, hcalm, hhas⟩ := ho
    cases o with
    | error ex => exact ⟨hsteady, hcalm, fun heq => nomatch heq⟩
    | ok =>
      have hrest := pipelines_alone hform qs (fun q' hq' => hqs q' (List.mem_cons_of_mem _ hq')) (hsteady.tame ht) hcalm
      refine Task.Alone.mono hrest fun o w₂ ho => ⟨hsteady.trans ho.1, ho.2.1, fun hok q' hq' spec' hloads => ?_⟩
      rcases List.mem_cons.1 hq' with rfl | hq'
      · obtain ⟨name', at_', -, hforms'⟩ := hloads
        rw [hforms] at hforms'
        cases hforms'
        exact ho.1.has (hhas rfl)
      · exact ho.2.2 hok q' hq' spec' hloads

/-- If loadings end within the chain with one key more, they end within the chain. -/
theorem serves_step {bound depth : Nat}
    (he : ∀ key ∈ keys, key ∉ imports → (Evaluator.atDepth bound depth).Serves who k keys (imports ++ [key])) :
    (Evaluator.atDepth bound (depth + 2)).Serves who k keys imports := by
  intro b ctx w hb hk hi ht h
  have hform : ∀ {spec : String} {w : World}, w.Tame k keys → w.Calm imports → ∀ name at_,
      ((Evaluator.atDepth bound (depth + 1)).form ⟨[], .special (.load spec (.local name)), [], at_⟩ ctx .loose).Alone who
        (fun o w' => w.Steady w' ∧ w'.Calm imports ∧ (o = .ok () → w'.Has k spec)) w :=
    fun ht h name at_ => form_alone he hk hi ht h name at_
  exact pipelines_alone hform b.pipelines hb ht h

/-- Code that only loads modules comes to an end, if the evaluation goes deep enough for the modules that are not in the
chain. -/
theorem serves (bound : Nat) (free : Nat) : ∀ {depth : Nat} {imports : List String}, imports.Nodup → imports ⊆ keys →
    keys.length ≤ imports.length + free → 2 * free + 2 ≤ depth →
    (Evaluator.atDepth bound depth).Serves who k keys imports := by
  have hlonger : ∀ {imports : List String} {key}, imports.Nodup → imports ⊆ keys → key ∈ keys → key ∉ imports →
      (imports ++ [key]).Nodup ∧ imports ++ [key] ⊆ keys := by
    intro imports key hnodup hsub hkey hnot
    refine ⟨?_, List.append_subset.2 ⟨hsub, fun k hk => List.mem_singleton.1 hk ▸ hkey⟩⟩
    exact List.nodup_append.2 ⟨hnodup, by simp, fun a ha b hb heq => hnot (List.mem_singleton.1 hb ▸ heq ▸ ha)⟩
  induction free with
  | zero =>
    intro depth imports hnodup hsub hlength hdepth
    obtain ⟨depth, rfl⟩ := Nat.exists_eq_add_of_le' hdepth
    refine serves_step fun key hkey hnot => ?_
    -- All modules are in the chain.
    obtain ⟨hnodup', hsub'⟩ := hlonger hnodup hsub hkey hnot
    have hle := (List.Nodup.subperm hnodup' hsub').length_le
    rw [List.length_append, List.length_singleton] at hle
    omega
  | succ free ih =>
    intro depth imports hnodup hsub hlength hdepth
    obtain ⟨depth, rfl⟩ := Nat.exists_eq_add_of_le' (Nat.le_trans (Nat.le_add_left 2 _) hdepth)
    refine serves_step fun key hkey hnot => ?_
    obtain ⟨hnodup', hsub'⟩ := hlonger hnodup hsub hkey hnot
    refine ih hnodup' hsub' ?_ (by omega)
    rw [List.length_append, List.length_singleton]
    omega

end Evaluator

/-! ## Programs -/

/-- A program of `use` forms has come to an end: it did not resolve, or it failed, or all modules it names are there. -/
def Source.Chunk.Loaded (chunk : Source.Chunk) (k : KernelId) (x : Execution × World) : Prop :=
  (∃ err, x.1 = .rejected err) ∨ ∃ r, x.1 = .ran r ∧
    (r.exception = none → ∀ p ∈ chunk.pipelines, ∀ args, p.IsUse args → ∃ spec, Source.Names spec args ∧ x.2.Has k spec)

namespace World

variable {w : World} {k : KernelId} {kernel : Kernel} {keys : List String}

/-- Nothing is under way on the machine: nothing is to be taken up, no outcome of a later task is there, and no module
is being loaded. -/
structure AtRest (w : World) : Prop where
  spawned : w.spawned = []
  ended : ∀ e ∈ w.ended, e.1 < w.nextTask
  calm : w.Calm []

/-- What a kernel can load does not depend on the names it knows. -/
theorem Tame.rename (ht : w.Tame k keys) (names : List String) :
    (w.modifyKernel k fun kernel => { kernel with names }).Tame k keys where
  known {spec key} h := by
    suffices hsame : w.resolveModule k spec = .ok key from ht.known hsame
    unfold resolveModule kernel? modifyKernel at h
    unfold resolveModule kernel?
    dsimp only at h
    rw [Array.getElem?_modify, if_pos rfl] at h
    cases hk : w.kernels[k]? with
    | none => simpa [hk] using h
    | some kernel => simpa [hk] using h
  uses h := ht.uses h

/-- A resolved program that only loads modules comes to an end. -/
theorem AtRest.runs {w : World} (hrest : w.AtRest) (hk : w.kernel? k = some kernel) (ht : w.Tame k keys) {block : Code.Block}
    (hblock : ∀ q ∈ block.pipelines, ∃ spec, q.Loads spec) (input : Bytes) (values : List Value) {l : Limits}
    (hdepth : 2 * keys.length + 1 ≤ l.depth) (hrounds : 2 ≤ l.rounds) : ∃ enough, ∀ requests, enough ≤ requests →
      ∃ r, (w.runBlock { l with requests } k block input values).1 = .ran r ∧
      (r.exception = none → ∀ q ∈ block.pipelines, ∀ spec,
        q.Loads spec → (w.runBlock { l with requests } k block input values).2.Has k spec) := by
  rcases hlaunch : w.launch l.evaluator k kernel.globals block input values with ⟨main, out, err, w₁⟩
  have hsteady : w.Steady w₁ := by
    cases hlaunch
    exact ⟨rfl, rfl, rfl, rfl, rfl, id, fun _ => rfl⟩
  have hmodules : w₁.modules = w.modules := by
    cases hlaunch
    rfl
  have hnext : w₁.nextTask = w.nextTask := by
    cases hlaunch
    rfl
  have hstarted : w.Steady { w₁ with nextTask := w₁.nextTask + 1 } :=
    hsteady.trans ⟨rfl, rfl, rfl, rfl, rfl, id, fun _ => rfl⟩
  have hserves : (Evaluator.atDepth l.loop (l.depth + 1)).Serves w₁.nextTask k keys [] :=
    Evaluator.serves l.loop keys.length List.nodup_nil (List.nil_subset _) (Nat.le_add_left _ _) (by omega)
  have hmain : main.Alone w₁.nextTask (fun o w' => w.Steady w' ∧
    (o = .ok () → ∀ q ∈ block.pipelines, ∀ spec, q.Loads spec → w'.Has k spec))
      { w₁ with nextTask := w₁.nextTask + 1 } := by
    have hcalm : World.Calm [] { w₁ with nextTask := w₁.nextTask + 1 } := hrest.calm.congr hmodules
    cases hlaunch
    refine Task.Alone.mono (hserves hblock rfl rfl (hstarted.tame ht) hcalm) fun o w' ho => ?_
    exact ⟨hstarted.trans ho.1, ho.2.2⟩
  obtain ⟨o, w', ⟨hsteady', hhas⟩, enough, hrun⟩ := Limits.run_alone hrounds (hsteady.spawned.trans hrest.spawned)
    (fun o w' ho => ⟨ho.1.spawned.trans hrest.spawned, fun e he => by
      rw [ho.1.ended] at he
      exact hnext ▸ Nat.ne_of_lt (hrest.ended e he)⟩) hmain
  refine ⟨enough, fun requests hrequests => ?_⟩
  have hlaunch' : w.launch ({ l with requests } : Limits).evaluator k kernel.globals block input values =
    (main, out, err, w₁) := hlaunch
  unfold runBlock
  simp only [hk, hlaunch', hrun requests hrequests]
  refine ⟨_, rfl, fun hnone q hq spec hloads => ?_⟩
  have hok : o = .ok () := by
    cases o with
    | ok => rfl
    | error ex => nomatch hnone
  exact ((Steady.takeCollected w' out).trans (.takeCollected _ err)).has (hhas hok q hq spec hloads)

/-- A table has finitely many modules. -/
theorem Tame.table {w : World} {chunks : List (String × Source.Chunk)} (hsource : w.source = .table chunks)
    (hchunks : ∀ c ∈ chunks, c.2.OnlyUses) (k : KernelId) : w.Tame k (chunks.map (·.1)) where
  known {spec key} h := by
    unfold resolveModule at h
    rw [hsource] at h
    dsimp only at h
    generalize ModuleSpec.path spec _ = path at h
    cases path with
    | error err => nomatch h
    | ok path =>
      simp only [bind, Except.bind, ModuleSource.resolve] at h
      split at h
      · rename_i hsome
        cases h
        obtain ⟨chunk, hget⟩ := Option.isSome_iff_exists.1 hsome
        obtain ⟨c, hc, -⟩ := Option.map_eq_some_iff.1 hget
        have hname : c.1 = key := by simpa using List.find?_some hc
        exact hname ▸ List.mem_map_of_mem (List.mem_of_find?_eq_some hc)
      · nomatch h
  uses {key chunk} h := by
    unfold ModuleSource.fetch at h
    rw [hsource] at h
    dsimp only at h
    split at h
    · rename_i found hget
      cases h
      obtain ⟨c, hc, rfl⟩ := Option.map_eq_some_iff.1 hget
      exact hchunks c (List.mem_of_find?_eq_some hc)
    · nomatch h

/-- A program of `use` forms comes to an end on a machine at rest, if what it can load consists of `use` forms. -/
theorem AtRest.loads {w : World} (hrest : w.AtRest) (hk : w.kernel? k = some kernel) (ht : w.Tame k keys)
    {chunk : Source.Chunk}
    (hchunk : chunk.OnlyUses) (src : String) (input : Bytes) (values : List Value) {l : Limits}
    (hdepth : 2 * keys.length + 1 ≤ l.depth) (hrounds : 2 ≤ l.rounds) : ∃ enough, ∀ requests, enough ≤ requests →
      chunk.Loaded k (w.executeWithin { l with requests } k chunk src input values) := by
  rcases hcompile : chunk.compile src (.ofGlobals (w.names k)) with ⟨compiled, scope⟩
  cases compiled with
  | error err => exact ⟨0, fun _ _ => .inl ⟨err, by simp only [executeWithin, compile, hcompile]⟩⟩
  | ok block =>
    have hloads := hchunk.compile hcompile
    have hrenamed : World.AtRest (w.modifyKernel k fun kernel => { kernel with names := scope.globals }) :=
      ⟨hrest.spawned, hrest.ended, hrest.calm.congr rfl⟩
    have hk' : (w.modifyKernel k fun kernel => { kernel with names := scope.globals }).kernel? k =
        some { kernel with names := scope.globals } := by
      change (w.kernels.modify k _)[k]? = _
      rw [Array.getElem?_modify, if_pos rfl, show w.kernels[k]? = some kernel from hk]
      rfl
    obtain ⟨enough, hruns⟩ := hrenamed.runs hk' (ht.rename scope.globals) hloads.only input values hdepth hrounds
    refine ⟨enough, fun requests hrequests => .inr ?_⟩
    obtain ⟨r, hran, hhas⟩ := hruns requests hrequests
    refine ⟨r, ?_, fun hnone p hp args huse => ?_⟩
    · simp only [executeWithin, compile, hcompile, hran]
    · obtain ⟨spec, hnames, q, hq, hspec⟩ := hloads.every p hp args huse
      refine ⟨spec, hnames, ?_⟩
      simp only [executeWithin, compile, hcompile]
      exact hhas hnone q hq spec hspec

end World

end DualShell
