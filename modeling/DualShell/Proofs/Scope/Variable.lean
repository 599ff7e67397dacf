import DualShell.Eval.Operand
import DualShell.Proofs.Scope.Layout

/-!
# Variables in place

Code in place reaches its variables and stays in place. What it reads is sound (`Ref.read_safe`), and a lambda it makes
takes along the cells that resolution chose for it, so the closure sits right (`Code.Lambda.close_safe`).
-/

namespace DualShell

open Eval

variable {closed : Prop} {G : Layout} {ctx : Context}

/-- Code that leaves everything in place. -/
abbrev aside (closed : Prop) : Course (layout closed) := (layout closed).aside

/-- A value that is sound for a layout. -/
abbrev soundValue (closed : Prop) : Value → Layout → Prop := fun v G => v.Sound (G.quality closed)

/-! ## Variables -/

/-- The cell of a variable that is bound is asked for safely. -/
theorem ask_cell {f : FrameId} {name : String} {access : Access} (h : G.binds f name) :
    (ask (.cell f name access)).Safe (aside closed) (fun c G' => G'.slot c = some (f, name)) G :=
  .ask (D := layout closed) h fun _ _ hx => ⟨hx.1, hx.2.2⟩

/-- A cell that can be taken along is asked for safely. -/
theorem ask_taken {f : FrameId} {captures : List (String × CellId)} {name : String} {level : Nat} {access : Access}
    (h : closed → 0 < level ∧ G.Reaches f captures name level) :
    (ask (.taken f captures name level access)).Safe (aside closed) (fun x _ => x = takenCell? captures name) G :=
  .ask (D := layout closed) h fun _ _ hx => ⟨hx.1, hx.2.2⟩

/-- A fixed variable is asked for safely. -/
theorem ask_fixed {name : String} (h : closed → isFixedVariable name = true) :
    (ask (.fixed name)).Safe (aside closed) (fun x _ => x = fixedValue? name) G :=
  .ask (D := layout closed) h fun _ _ hx => ⟨hx.1, hx.2.2⟩

/-- A member is asked for safely, and if there is none, that is told. -/
theorem ask_member {ns : Namespace} {qualifier name : String} :
    (ask (.member ns qualifier name)).Safe (aside closed) (fun x G' => x = none → G'.missing (qualifier ++ name)) G :=
  .ask (D := layout closed) trivial fun _ _ hx => ⟨hx.1, hx.2.2⟩

/-- A closure that sits right has taken along what its body reaches for. -/
theorem missing_of_reaches {f : FrameId} {captures : List (String × CellId)} {name : String} {level : Nat} {n : String}
    (h : closed → 0 < level ∧ G.Reaches f captures name level) (hnone : none = takenCell? captures name) (G' : Layout) :
    (G'.quality closed).cause (.noSuchVariable n) := by
  intro hclosed
  obtain ⟨-, c, -, hc, -⟩ := h hclosed
  rw [← hnone] at hc
  nomatch hc

/-- Every fixed variable has a value. -/
theorem fixedValue?_ne_none {name : String} (h : isFixedVariable name = true) : fixedValue? name ≠ none := by
  simp only [isFixedVariable, fixedVariables, List.contains_eq_mem, List.mem_cons, List.not_mem_nil, or_false,
    decide_eq_true_eq] at h
  rcases h with rfl | rfl | rfl | rfl <;> exact Option.some_ne_none _

namespace Ref

/-- A variable that fits is read safely. -/
theorem read_safe : (ref : Ref) → ∀ {G : Layout}, ctx.Fits closed G ref.mentions →
    (ref.read ctx).Safe (aside closed) (soundValue closed) G
  | .builtin name, G, h => by
    unfold read
    have hfixed := h _ List.mem_cons_self
    refine Safe.bind (ask_fixed hfixed) fun x G' _ hx => ?_
    split
    · exact .pure (.fixedValue? hx.symm)
    · exact .fail fun hclosed => (fixedValue?_ne_none (hfixed hclosed) hx.symm).elim
  | .env name, G, h => by
    unfold read
    exact Safe.andThen (Safe.ask_plain trivial trivial) fun _ _ _ => .pure (.string _)
  | .local name, G, h => by
    unfold read cell
    exact Safe.andThen (ask_cell (h _ List.mem_cons_self)) fun c G' _ => .ask_plain trivial trivial
  | @Ref.captured level name, G, h => by
    unfold read cell
    have hreach := h _ List.mem_cons_self
    refine Safe.andThen (Q := anything) (Safe.bind (ask_taken hreach) fun x G' _ hx => ?_) fun c G' _ =>
      .ask_plain trivial trivial
    split
    · exact .pure trivial
    · exact .fail (missing_of_reaches hreach hx G')
  | .member ns name, G, h => by
    unfold read
    refine (read_safe ns h).andThen fun v G' _ => ?_
    split
    · refine Safe.bind ask_member fun x G'' _ hx => ?_
      split
      · exact .ask_plain trivial trivial
      · exact .fail fun _ => hx rfl
    · exact .fail trivial

/-- A variable that fits is reached safely. -/
theorem cell_safe (ref : Ref) (access : Access) (h : ctx.Fits closed G ref.mentions) :
    (ref.cell ctx access).Safe (aside closed) anything G := by
  cases ref with
  | «local» name =>
    unfold cell
    exact (ask_cell (h _ List.mem_cons_self)).trivially
  | captured name =>
    have hreach := h _ List.mem_cons_self
    unfold cell
    refine Safe.bind (ask_taken hreach) fun x G' _ hx => ?_
    split
    · exact .pure trivial
    · exact .fail (missing_of_reaches hreach hx G')
  | member ns name =>
    unfold cell
    refine (read_safe ns h).andThen fun v G' _ => ?_
    split
    · refine Safe.bind ask_member fun x G'' _ hx => ?_
      split
      · exact .pure trivial
      · exact .fail fun _ => hx rfl
    · exact .fail trivial
  | builtin name =>
    unfold cell
    exact .fail trivial
  | env name =>
    unfold cell
    exact .fail trivial

/-- A variable that fits is written safely. -/
theorem write_safe (ref : Ref) {v : Value} (h : ctx.Fits closed G ref.mentions) (hv : v.Sound (G.quality closed)) :
    (ref.write ctx v).Safe (aside closed) anything G := by
  unfold write
  split
  · rename_i name
    refine Safe.andThen (Safe.ofPlain (.expectString _ _)) fun text G' _ => ?_
    have hset : (ask (.setEnv ctx.kernel name text)).Harmless (aside closed) := .ask trivial fun _ => trivial
    exact hset G'
  · refine (cell_safe _ .write h).andThen fun c G' hG => ?_
    have hstore : (ask (.store c v)).Safe (aside closed) anything G' :=
      .ask (D := layout closed) (hv.mono hG.quality) fun _ _ hx => ⟨hx.1, trivial⟩
    exact hstore

/-- A variable that fits is looked at safely. -/
theorem peek_safe (ref : Ref) (h : ctx.Fits closed G ref.mentions) :
    (ref.peek ctx).Safe (aside closed) (fun o G' => ∀ v, o = some v → v.Sound (G'.quality closed)) G := by
  unfold peek
  split
  · exact .ask_plain trivial trivial
  · refine Safe.andThen (Safe.ask_plain trivial trivial) fun o G' _ => .pure fun v hv => ?_
    obtain ⟨text, -, rfl⟩ := Option.map_eq_some_iff.1 hv
    exact .string _
  · exact (read_safe _ h).bind fun v G' _ hv => .pure fun v' hv' => by cases hv'; exact hv

/-- A variable that fits is changed safely. -/
theorem edit_safe (ref : Ref) {change : Edit} (h : ctx.Fits closed G ref.mentions) (hc : change.Sound (G.quality closed)) :
    (ref.edit ctx change).Safe (aside closed) anything G := by
  unfold edit
  refine (cell_safe ref .edit h).andThen fun c G' hG => ?_
  have hedit : (ask (.edit c change)).Safe (aside closed) (fun x G'' => (G''.quality closed).Plain x) G' :=
    .ask (D := layout closed) (hc.mono hG.quality) fun _ _ hx => ⟨hx.1, hx.2.1⟩
  exact hedit.bind fun x G'' _ hx => .ofPlain hx

end Ref

/-! ## Closures -/

/-- The first cell under a name is the one that was taken along. -/
theorem takenCell?_cons_self (name : String) (c : CellId) (cells : List (String × CellId)) :
    takenCell? ((name, c) :: cells) name = some c := by
  simp [takenCell?]

/-- Cells under other names do not matter. -/
theorem takenCell?_cons_ne {name n : String} (h : n ≠ name) (c : CellId) (cells : List (String × CellId)) :
    takenCell? ((name, c) :: cells) n = takenCell? cells n := by
  simp [takenCell?, h.symm]

/-- Each name that a closure takes along leads to the cell that resolution chose for it. -/
theorem takeAlong_safe (defined : Option String) : (caps : List Capture) → ∀ {G : Layout},
    ctx.Fits closed G (caps.map Capture.mention) →
    (takeAlong defined ctx caps).Safe (aside closed) (fun cells G' =>
      closed → (caps.map (·.name)).Nodup → ∀ cap ∈ caps, G'.Reaches ctx.frame cells cap.name cap.source.level) G
  | [], G, h => .pure fun _ _ _ hcap => nomatch hcap
  | ⟨name, source⟩ :: caps, G, h => by
    have hhead := h _ List.mem_cons_self
    have hrest : ∀ cell G', G.Le G' →
        (closed → ∃ g, G'.ancestor? ctx.frame source.level = some g ∧ G'.slot cell = some (g, name)) →
        Safe (aside closed) (fun cells G'' => closed → ((⟨name, source⟩ :: caps).map (·.name)).Nodup →
            ∀ cap ∈ ⟨name, source⟩ :: caps, G''.Reaches ctx.frame cells cap.name cap.source.level)
          (do return (name, cell) :: (← takeAlong defined ctx caps)) G' := by
      intro cell G' hG hcell
      refine (takeAlong_safe defined caps ((h.sub (List.subset_cons_self _ _)).mono hG)).bind fun cells G'' hG' hcells => ?_
      refine .pure fun hclosed hnodup => List.forall_mem_cons.2 ⟨?_, fun cap hcap => ?_⟩
      · obtain ⟨g, hg, hslot⟩ := hcell hclosed
        exact ⟨cell, g, takenCell?_cons_self _ _ _, hG'.ancestor? hg, hG'.slot _ _ hslot⟩
      · obtain ⟨hnot, hnodup⟩ := List.nodup_cons.1 hnodup
        obtain ⟨cell', g, hcell', hg, hslot⟩ := hcells hclosed hnodup cap hcap
        have hne : cap.name ≠ name := fun heq => hnot (List.mem_map.2 ⟨cap, hcap, heq⟩)
        exact ⟨cell', g, (takenCell?_cons_ne hne _ _).trans hcell', hg, hslot⟩
    cases source with
    | «local» => exact (ask_cell hhead).bind fun cell G' hG hslot => hrest cell G' hG fun _ => ⟨ctx.frame, rfl, hslot⟩
    | @captured level =>
      unfold takeAlong
      refine (ask_taken hhead).bind fun x G' hG hx => ?_
      split
      · refine hrest _ G' hG fun hclosed => ?_
        obtain ⟨-, cell, g, hcell, hg, hslot⟩ := hhead hclosed
        cases hx.trans hcell
        exact ⟨g, hG.ancestor? hg, hG.slot _ _ hslot⟩
      · exact Safe.bind (P := fun _ _ => False) (.fail (missing_of_reaches hhead hx G')) fun _ _ _ h => h.elim

/-- A closure made in place sits right. -/
theorem Code.Lambda.close_safe {op : Code.Lambda} (defined : Option String) (h : ctx.Fits closed G op.mentions) :
    (op.close defined ctx).Safe (aside closed) (soundValue closed) G := by
  have hlinked : closed → op.Linked := h _ List.mem_cons_self
  unfold Code.Lambda.close
  refine (takeAlong_safe defined op.captures (h.sub (List.subset_cons_self _ _))).bind fun cells G' hG hcells => ?_
  refine Safe.andThen (Safe.ask_plain trivial trivial) fun identity G'' hG' =>
    .pure (.closure fun hclosed => ⟨hlinked hclosed, ?_⟩)
  intro cap hcap
  exact hG'.reaches (hcells hclosed (hlinked hclosed).nodup cap hcap)

end DualShell
