import DualShell.Proofs.Module.Nesting
import DualShell.Proofs.Module.Uses

/-!
# Circular imports

A module that is being loaded around a `use` is refused at once (`Evaluator.evalSpecial_load`). The chain of imports
knows all of these modules (`History.nests`), so however modules use each other, their evaluations are nested no deeper
than there are modules, nobody waits for himself, and modules that consist of `use` forms can be loaded, or are found to
be circular, in finitely many steps (`World.AtRest.loads`).
-/

namespace DualShell

open Eval

/-- A `use` asks for the key of its module; if the key is in the chain of imports, then it fails, and does nothing else. -/
theorem Evaluator.evalSpecial_load (e : Evaluator) (spec : String) (ref : Ref) (ctx : Context) :
    ∃ next, (e.evalSpecial (.load spec ref) ctx).run = .request (.resolveModule ctx.kernel spec) next ∧
      ∀ key ∈ ctx.imports, next (.ok key) =
        .ret (.error (.ofCause (.module ("circular import: " ++ " -> ".intercalate (ctx.imports ++ [key]))))) := by
  have hload : ∀ key ∈ ctx.imports, (do
      let k ← ofExcept ((Except.ok key : Except ModuleError String).mapError ModuleError.cause)
      if ctx.imports.contains k then fail (circularImport ctx.imports k)
      else do
        let place ← ask (.findModule k)
        e.initModule spec k place ctx) = (fail (circularImport ctx.imports key) : Eval Namespace) := fun key hkey =>
    if_pos (List.contains_iff_mem.2 hkey)
  refine ⟨_, rfl, fun key hkey => ?_⟩
  exact congrArg (fun x : Eval Namespace => (x >>= fun ns => ref.write ctx (.ns ns)).run) (hload key hkey)

namespace History

/-- Circular imports end in an error. A `use` of a module that is being loaded around it is refused, before anything is
found, fetched, run or waited for. Throughout a history the chain of imports of code holds the keys of the modules that
are being loaded around it, each once, so it is no longer than there are modules, and no task claims a place, or waits
for one, that is being filled around it. Any program of `use` forms, run alone within limits that are wide enough for
the number of modules, comes to an end, with its modules or with an error, if the modules consist of `use` forms, too.
-/
theorem circular_imports {Supplied : List Deed → Value → Prop} {ds : List Deed} {p : Pool} (h : History Supplied ds p) :
    (∀ (e : Evaluator) (spec : String) (ref : Ref) (ctx : Context), ∃ next,
      (e.evalSpecial (.load spec ref) ctx).run = .request (.resolveModule ctx.kernel spec) next ∧ ∀ key ∈ ctx.imports,
      next (.ok key) =
        .ret (.error (.ofCause (.module ("circular import: " ++ " -> ".intercalate (ctx.imports ++ [key])))))) ∧
    Nests ds p ∧
    ∀ {w : World} {k : KernelId} {kernel : Kernel} {keys : List String}, w.AtRest → w.kernel? k = some kernel →
    w.Tame k keys →
      ∀ {chunk : Source.Chunk}, chunk.OnlyUses → ∀ (src : String) (input : Bytes) (values : List Value) {l : Limits},
        2 * keys.length + 1 ≤ l.depth → 2 ≤ l.rounds → ∃ enough, ∀ requests, enough ≤ requests →
          chunk.Loaded k (w.executeWithin { l with requests } k chunk src input values) :=
  ⟨Evaluator.evalSpecial_load, h.nests, fun hrest hk ht _ hchunk => hrest.loads hk ht hchunk⟩

/-- A `use` form. -/
def use (spec : String) : Source.Body := Sample.command (.bare "use") [.bare spec]

/-- Two modules that use each other. -/
def ring : World := Sample.library [("a.duo", [use "b"]), ("b.duo", [use "a"])]

/-- A module that uses another one, which uses the first one in a function that it calls. -/
def backCall : World := Sample.library [("a.duo", [use "b"]),
  ("b.duo", [Sample.command (.bare "fn") [.bare "back", Sample.lambda [use "a"]], Sample.command (.bare "back") []])]

/-- The cause of the failure that ended a program. -/
def complaint : Execution → Option Cause
  | .ran ⟨_, _, _, some ⟨.cause c, _⟩⟩ => some c
  | _ => none

/-- A program of uses is one of nothing else. -/
theorem onlyUses_chunk (specs : List String) : (Sample.chunk (specs.map use)).OnlyUses := by
  intro p hp
  obtain ⟨body, hbody, rfl⟩ := List.mem_map.1 hp
  obtain ⟨spec, -, rfl⟩ := List.mem_map.1 hbody
  exact ⟨[.bare spec], [], ⟨0, 0⟩, ⟨0, 0⟩, rfl⟩

/-- A circular import fails, also in a function that a module calls while it is loaded, and no run of such a program is
endless. -/
theorem circular_imports_ring :
    (∃ ds, History (fun _ _ => False) ds ⟨[], (Sample.run backCall [use "a"]).2⟩ ∧
      Nests ds ⟨[], (Sample.run backCall [use "a"]).2⟩) ∧
    complaint (Sample.run backCall [use "a"]).1 = some (.module "circular import: a.duo -> b.duo -> a.duo") ∧
    complaint (Sample.run ring [use "a"]).1 = some (.module "circular import: a.duo -> b.duo -> a.duo") ∧
    ∃ enough, ∀ requests, enough ≤ requests → (Sample.chunk [use "a"]).Loaded 0
      (ring.executeWithin { Sample.limits with requests } 0 (Sample.chunk [use "a"]) "" [] []) := by
  obtain ⟨ds, h⟩ := Sample.go (Sample.startLibrary (fun _ _ => False) [("a.duo", [use "b"]),
    ("b.duo", [Sample.command (.bare "fn") [.bare "back", Sample.lambda [use "a"]], Sample.command (.bare "back") []])])
    [use "a"]
  have hrest : ring.AtRest := by
    refine ⟨rfl, List.forall_mem_nil _, ?_, ?_, ?_⟩
    · exact fun hkey => (nomatch hkey)
    · exact fun hkey => (nomatch hkey)
    · exact fun hkey => (nomatch hkey)
  have htame : ring.Tame 0 ["a.duo", "b.duo"] := by
    refine @World.Tame.table ring [("a.duo", Sample.chunk [use "b"]), ("b.duo", Sample.chunk [use "a"])] rfl ?_ 0
    simp only [List.forall_mem_cons]
    exact ⟨onlyUses_chunk ["b"], onlyUses_chunk ["a"], List.forall_mem_nil _⟩
  exact ⟨⟨_, h, h.circular_imports.2.1⟩, by cbv, by cbv,
    h.circular_imports.2.2 hrest rfl htame (onlyUses_chunk ["a"]) "" [] [] (by decide) (by decide)⟩

end History

end DualShell
