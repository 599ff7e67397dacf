import DualShell.Proofs.Machine.Follow

/-!
# Loading modules

How code goes about modules: it finds the place of a module before it claims it, fetches and runs the module only while
it holds the place, and settles what it claimed, the latest first (`loading`). The chain of imports of the code that a
task runs is that of the surroundings the task began in, and then the keys of the modules that it is loading itself; no
key stands there twice, so no task claims a place that it is filling, or that the code waits for which began it.
-/

namespace DualShell

open Eval

/-- Where a task stands with the modules it loads. -/
structure Loading where
  /-- The chain of imports of the surroundings in which the task began. -/
  base : List String
  /-- The place that was just found. -/
  found : Option (String × PlaceId)
  /-- What was claimed and is not settled, the latest last. -/
  opened : List (String × PlaceId)

namespace Loading

/-- The keys of the modules that are being loaded around a task and by it, the outermost first. -/
def chain (s : Loading) : List String := s.base ++ s.opened.map (·.1)

/-- The chain of imports of code that runs: the one of its task, with no key twice and only keys that there are. -/
structure Chain (known : String → Prop) (s : Loading) (imports : List String) : Prop where
  nodup : imports.Nodup
  known : ∀ key ∈ imports, known key
  exact : s.chain = imports

variable {known : String → Prop} {base imports : List String} {found : Option (String × PlaceId)}
    {opened : List (String × PlaceId)}
  {key : String}

/-- Where a task begins. -/
theorem Chain.begin {s : Loading} (h : Chain known s imports) : Chain known ⟨imports, none, []⟩ imports :=
  ⟨h.nodup, h.known, List.append_nil _⟩

/-- One module more is loaded. -/
theorem Chain.enter (h : Chain known ⟨base, found, opened⟩ imports) (hkey : key ∉ imports) (hknown : known key)
    (place : PlaceId) : Chain known ⟨base, found, opened ++ [(key, place)]⟩ (imports ++ [key]) where
  nodup := by
    refine List.nodup_append.2 ⟨h.nodup, by simp, fun k hk k' hk' heq => ?_⟩
    rw [List.mem_singleton.1 hk'] at heq
    exact hkey (heq ▸ hk)
  known k hk := by
    rcases List.mem_append.1 hk with hk | hk
    · exact h.known k hk
    · rwa [List.mem_singleton.1 hk]
  exact := by
    rw [← h.exact]
    simp [chain]

end Loading

/-- The contract of loading modules, among keys that satisfy `known`. -/
def loading (known : String → Prop) : Protocol where
  State := Loading
  start imports := ⟨imports, none, []⟩
  closure _ := True
  Needs s
    | .findModule key => known key
    | .claimModule key place => s.found = some (key, place) ∧ key ∉ s.chain
    | .fetchModule key => ∃ place rest, s.opened = rest ++ [(key, place)]
    | .settleModule key place _ => ∃ rest, s.opened = rest ++ [(key, place)]
    | .activate home _ imports => Loading.Chain known s imports ∧ (home = none → s.opened ≠ [])
    | _ => True
  after s r x :=
    match r with
    | .findModule key => ⟨s.base, some (key, x), s.opened⟩
    | .claimModule key place =>
      match x with
      | none => ⟨s.base, none, s.opened ++ [(key, place)]⟩
      | some _ => ⟨s.base, none, s.opened⟩
    | .settleModule .. => ⟨s.base, s.found, s.opened.dropLast⟩
    | _ => s
  Told r x :=
    match r with
    | .resolveModule .. => ∀ key, x = .ok key → known key
    | _ => True
  Admits s ctx _ := s.found = none ∧ Loading.Chain known s ctx.imports
  needs_common {_ r} hr := by
    cases r with
    | findModule | claimModule | fetchModule | settleModule | activate => exact hr.elim
    | _ => trivial
  after_common {_ r} _ hr := by
    cases r with
    | findModule | claimModule | settleModule => exact hr.elim
    | _ => rfl
  sub h _ := h
  withDescriptors h _ := h

namespace Loading

variable {known : String → Prop} {s : Loading} {base : List String} {opened : List (String × PlaceId)} {ctx : Context}
    {e : Evaluator} {spec key : String}
  {place : PlaceId}

/-- Nothing but modules counts. -/
theorem ignoresCells : (loading known).IgnoresCells where
  needs _ r hr := by
    cases r <;> trivial
  after _ r _ hr := by
    cases r <;> first | rfl | exact hr.elim

/-- What has to come before a request that starts nothing and carries only values that may be there. -/
theorem needs {r : Request} (hs : ∀ q, r.Sound q) (hr : (loading known).Needs s r) (hbegins : ∀ work, ¬r.Begins work) :
    (loading known).discipline.Needs s r := ⟨hs _, hr, fun work hb => (hbegins work hb).elim⟩

/-- The body of a module runs while the place of the module is held. -/
theorem runModule_safe (he : e.Behaves (loading known).placement) {body : Code.Block}
    (h : Chain known ⟨base, none, opened⟩ ctx.imports) (hkey : key ∉ ctx.imports) (hknown : known key) :
    (e.runModule spec key body ctx).Safe (loading known).discipline.aside anything ⟨base, none,
      opened ++ [(key, place)]⟩ := by
  unfold Evaluator.runModule
  have hchain := h.enter hkey hknown place
  have hactivate : (ask (.activate none [] (ctx.imports ++ [key]))).Safe (loading known).discipline.aside
      (fun f s' => (ctx.enterModule f key).Suits (loading known).placement s' body.mentions) ⟨base, none,
        opened ++ [(key, place)]⟩ := by
    refine .ask (D := (loading known).discipline) ⟨List.forall_mem_nil _, ⟨hchain, fun _ => by simp⟩, fun _ hb =>
      hb.elim⟩ fun f s' hx => ?_
    cases hx.1
    exact ⟨rfl, rfl, hchain⟩
  refine hactivate.bind fun frame s' _ hframe => ?_
  refine (he.block hframe).attempt.bind fun result s'' _ hresult => ?_
  split
  · exact Safe.trivially (Safe.ask_plain trivial trivial)
  · split
    · exact .fail trivial
    · exact .throw hresult

/-- A module is evaluated in a chain that it is not in yet. -/
theorem evalModule_safe (he : e.Behaves (loading known).placement) (h : Chain known ⟨base, none, opened⟩ ctx.imports)
    (hkey : key ∉ ctx.imports) (hknown : known key) :
    (e.evalModule spec key ctx).Safe (loading known).discipline.aside anything ⟨base, none, opened ++ [(key, place)]⟩ := by
  unfold Evaluator.evalModule
  have hfetch : (ask (.fetchModule key)).Safe (loading known).discipline.aside anything ⟨base, none,
    opened ++ [(key, place)]⟩ :=
    .ask (D := (loading known).discipline) (needs (fun _ => trivial) ⟨place, opened, rfl⟩ fun _ hb => hb) fun _ _ hx =>
      ⟨hx.1.symm, trivial⟩
  refine hfetch.andThen fun fetched s' hs => ?_
  cases hs
  refine (Safe.ofPlain (ModuleError.mapError_plain fetched _)).andThen fun chunk s' hs => ?_
  cases hs
  cases (chunk.compile key (Scope.ofGlobals [])).1 with
  | ok body => exact runModule_safe he h hkey hknown
  | error err => exact .fail trivial

/-- A module is loaded once its place is found, and after that everything is as it was. -/
theorem initModule_safe (he : e.Behaves (loading known).placement) (h : Chain known s ctx.imports)
    (hfound : s.found = none) (hkey : key ∉ ctx.imports) (hknown : known key) :
    (e.initModule spec key place ctx).SafeSince (loading known).discipline.aside anything s
      ⟨s.base, some (key, place), s.opened⟩ := by
  obtain ⟨base, found, opened⟩ := s
  cases hfound
  unfold Evaluator.initModule
  refine .ask (D := (loading known).discipline) (needs (fun _ => trivial) ⟨rfl, fun hmem => hkey (h.exact ▸ hmem)⟩
    fun _ hb => hb) fun x s' hx => ?_
  cases x with
  | some ns =>
    cases hx.1
    exact .pure rfl trivial
  | none =>
    cases hx.1
    refine .attempt (evalModule_safe he h hkey hknown) fun o s' hs _ herror => ?_
    cases hs
    have hsettle : ∀ ns, (loading known).discipline.Needs ⟨base, none, opened ++ [(key, place)]⟩
      (.settleModule key place ns) := fun ns =>
      needs (fun _ => trivial) ⟨opened, rfl⟩ fun _ hb => hb
    have hback : ∀ ns x, (loading known).after ⟨base, none, opened ++ [(key, place)]⟩ (.settleModule key place ns) x =
      ⟨base, none, opened⟩ :=
      fun ns x => congrArg (Loading.mk base none) List.dropLast_concat
    cases o with
    | ok ns =>
      refine .ask (hsettle _) fun x s' hx => ?_
      exact .pure (hx.1.trans (hback _ _)).symm trivial
    | error ex =>
      refine .ask (hsettle _) fun x s' hx => ?_
      exact .throw (hx.1.trans (hback _ _)).symm (herror ex rfl)

/-- Modules are loaded so that their chains have no key twice. -/
theorem loadsSafely : (loading known).placement.LoadsSafely := by
  intro e spec ctx s he h
  obtain ⟨hfound, hchain⟩ := h
  unfold Evaluator.loadModule
  have hresolve : (ask (.resolveModule ctx.kernel spec)).Safe (loading known).discipline.aside
      (fun x _ => ∀ key, x = .ok key → known key) s :=
    .ask (D := (loading known).discipline) (needs (fun _ => trivial) trivial fun _ hb => hb) fun x s' hx =>
      ⟨hx.1.symm, hx.2.2⟩
  refine hresolve.bind fun x s' hs hx => ?_
  cases hs
  cases x with
  | error err => exact .fail trivial
  | ok key =>
    have hknown := hx key rfl
    refine Safe.bind (P := fun k s' => s' = s ∧ k = key) (.pure ⟨rfl, rfl⟩) fun k s' _ hk => ?_
    obtain ⟨rfl, rfl⟩ := hk
    split
    · exact .fail trivial
    · rename_i hcontains
      have hkey : k ∉ ctx.imports := fun hmem => hcontains (List.contains_iff_mem.2 hmem)
      refine SafeSince.safe (.ask (D := (loading known).discipline) (needs (fun _ => trivial) hknown fun _ hb => hb)
        fun place s'' hx => ?_)
      cases hx.1
      exact initModule_safe he hchain hfound hkey hknown

/-- The contract is kept by what a module makes and takes. -/
theorem lawful : (loading known).Lawful where
  restart h := ⟨rfl, h.2.begin⟩
  closes _ := trivial
  enter _ h _ := h
  activate _ _ h := ⟨⟨h.2, fun hnone => (nomatch hnone)⟩, fun _ => rfl⟩
  write ref _ _ hv := ignoresCells.write_safe ref hv
  edit ref _ _ hc := ignoresCells.edit_safe ref hc
  loads := loadsSafely
  program _ himports := by
    refine ⟨rfl, ?_⟩
    rw [himports]
    exact ⟨List.nodup_nil, List.forall_mem_nil _, rfl⟩

end Loading

end DualShell
