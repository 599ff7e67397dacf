import DualShell.Proofs.Machine.Follow
import DualShell.Proofs.Scope.Change
import DualShell.Proofs.Scope.Lexical
import DualShell.Proofs.Scope.Origin

/-!
# Read-only variables

No program changes a fixed variable or a member of a namespace under that name (`Source.Chunk.compile_changes`), and
running code reaches the cells that it changes by names that can be written: whoever stores to a cell has just been led
to it to do so (`writing`). The cell was made for that name of that frame, so the members of a namespace are changed
only by code that runs in the frame of the module or was made within it (`History.read_only`).
-/

namespace DualShell

open Eval

instance : DecidablePred Access.Changes
  | .write => isTrue trivial
  | .edit => isTrue trivial
  | .read => isFalse id
  | .capture _ => isFalse id

/-- The contract that a cell is changed only by who has just been led to it for that; the state is the cell. Code that
may run changes nothing but what can be written. -/
def writing : Protocol where
  State := Option CellId
  start _ := none
  closure c := Changes.Allowed c.op.body.mentions
  Needs aim r := ∀ c, r.ChangesCell c → aim = some c
  after aim r x :=
    match r with
    | .cell _ _ access => if access.Changes then some x else aim
    | .taken _ _ _ _ access => if access.Changes then x else aim
    | .store .. | .edit .. => none
    | _ => aim
  Told _ _ := True
  Admits aim _ ms := aim = none ∧ Changes.Allowed ms
  needs_common {_ r} hr _ hc := by
    cases r with
    | store | edit => exact hr.elim
    | _ => exact hc.elim
  after_common {_ r} _ hr := by
    cases r with
    | cell | taken => exact if_neg hr
    | store | edit => exact hr.elim
    | _ => rfl
  sub h hsub := ⟨h.1, h.2.sub hsub⟩
  withDescriptors h _ := h

namespace Writing

variable {ctx : Context}

/-- What is changed can be written. -/
theorem isWritable {aim : writing.State} {ref : Ref} (h : writing.Admits aim ctx ref.changeMentions) :
    ref.isWritable = true :=
  h.2 ref (.here (List.mem_append_right _ (List.mem_singleton_self _)))

/-- Code may be led to a cell that it then makes one change to. -/
theorem aimed {ref : Ref} {access : Access} (hwritable : ref.isWritable = true) (haccess : access.Changes)
    {f : CellId → Eval Unit} (hf : ∀ c : CellId, (f c).SafeSince writing.discipline.aside anything none (some c)) :
    (ref.cell ctx access >>= f).Safe writing.discipline.aside anything none := by
  refine SafeSince.safe ?_
  cases ref with
  | builtin | member => nomatch hwritable
  | env name =>
    unfold Ref.cell
    exact .throw rfl (.cause trivial)
  | «local» name =>
    unfold Ref.cell
    refine .ask (D := writing.discipline) ⟨trivial, fun _ hc => hc.elim, fun _ hb => hb.elim⟩ fun c s' hx => ?_
    cases hx.1.trans (if_pos haccess)
    exact hf c
  | captured name =>
    unfold Ref.cell
    rw [bind_assoc]
    refine .ask (D := writing.discipline) ⟨trivial, fun _ hc => hc.elim, fun _ hb => hb.elim⟩ fun x s' hx => ?_
    cases hx.1.trans (if_pos haccess)
    cases x with
    | none => exact .throw rfl (.cause trivial)
    | some c => exact hf c

/-- To write a variable that may be aimed at is safe. -/
theorem write_safe (ref : Ref) {aim : writing.State} {v : Value} (h : writing.Admits aim ctx ref.changeMentions)
    (hv : v.Sound writing.quality) : (ref.write ctx v).Safe writing.discipline.aside anything aim := by
  have hwritable := isWritable h
  obtain ⟨rfl, -⟩ := h
  unfold Ref.write
  split
  · rename_i name
    refine (Safe.ofPlain (.expectString v _)).andThen fun text s' _ => ?_
    have hset : (ask (.setEnv ctx.kernel name text)).Harmless writing.discipline.aside := .ask trivial fun _ => trivial
    exact hset s'
  · refine aimed hwritable (show Access.Changes .write from trivial) fun c => ?_
    exact ⟨⟨hv, fun c' hc => congrArg some hc, fun _ hb => hb.elim⟩, fun x s' hx => ⟨hx.1.symm, trivial⟩⟩

/-- To change a variable that may be aimed at is safe. -/
theorem edit_safe (ref : Ref) {aim : writing.State} {change : Edit} (h : writing.Admits aim ctx ref.changeMentions)
    (hc : change.Sound writing.quality) : (ref.edit ctx change).Safe writing.discipline.aside anything aim := by
  have hwritable := isWritable h
  obtain ⟨rfl, -⟩ := h
  unfold Ref.edit
  refine aimed hwritable (show Access.Changes .edit from trivial) fun c => ?_
  refine .ask (D := writing.discipline) ⟨hc, fun c' hc => congrArg some hc, fun _ hb => hb.elim⟩ fun x s' hx => ?_
  exact .ofPlain hx.1.symm hx.2.1

/-- The bodies of modules change only what can be written. -/
theorem ignoresModules : writing.placement.IgnoresModules where
  free s r hr := by
    cases r with
    | findModule | claimModule | fetchModule | settleModule =>
      exact ⟨⟨trivial, fun _ hc => hc.elim, fun _ hb => hb.elim⟩, fun x s' hx => hx.1.symm⟩
    | _ => exact hr.elim
  enter {key chunk body scope ctx s} hbody h := by
    refine .ask (D := writing.discipline) ⟨List.forall_mem_nil _, fun _ hc => hc.elim, fun _ hb => hb.elim⟩ fun f s' hx => ?_
    cases hx.1
    exact ⟨rfl, h.1, Source.Chunk.compile_changes hbody⟩

/-- The contract is kept by what a module makes and takes. -/
theorem lawful : writing.Lawful where
  restart h := ⟨rfl, h.2⟩
  closes h := h.2.of_lambda
  enter _ h hc := ⟨h.1, hc⟩
  activate _ _ _ := ⟨fun _ hc => hc.elim, fun _ => rfl⟩
  write ref _ h hv := write_safe ref h hv
  edit ref _ h hc := edit_safe ref h hc
  loads := ignoresModules.loadsSafely
  program h _ := ⟨rfl, Source.Chunk.compile_changes h⟩

end Writing

/-! ## Who changes what -/

/-- A task that ran in the frame `f` was led to the cell of a name of a frame, to change what it holds. -/
def Deed.Aims (who : TaskId) (f g : FrameId) (n : String) (c : CellId) : Deed → Prop
  | .answered actor _ (.cell f' name access) x _ => actor = who ∧ access.Changes ∧ f' = f ∧ f = g ∧ name = n ∧ x = c
  | .answered actor w (.taken f' _ name level access) x _ =>
    actor = who ∧ access.Changes ∧ f' = f ∧ w.store.ancestor? f level = some g ∧ name = n ∧ x = some c
  | _ => False

/-- Whoever aims at a cell is told its place. -/
theorem Deed.Aims.places {d : Deed} {who : TaskId} {f g : FrameId} {n : String} {c : CellId} (h : d.Aims who f g n c) :
    d.Places g n c := by
  cases d with
  | answered actor w r x w' =>
    cases r with
    | cell f' name access =>
      obtain ⟨-, -, rfl, rfl, rfl, rfl⟩ := h
      exact ⟨rfl, rfl, rfl⟩
    | taken f' captures name level access =>
      obtain ⟨-, -, rfl, hg, rfl, rfl⟩ := h
      exact ⟨rfl, hg, rfl⟩
    | _ => exact h.elim
  | _ => exact h.elim

/-- A task was led to a cell to change what it holds. -/
def Deed.Leads (who : TaskId) (c : CellId) : Deed → Prop
  | .answered actor _ (.cell _ _ access) x _ => actor = who ∧ access.Changes ∧ x = c
  | .answered actor _ (.taken _ _ _ _ access) x _ => actor = who ∧ access.Changes ∧ x = some c
  | _ => False

/-- A task that may change a cell was led to it. -/
theorem Writing.led {who : TaskId} {ds : List Deed} {c : CellId} (h : writing.stateOf who ds = some c) :
    ∃ d ∈ ds, d.Leads who c := by
  induction ds using List.reverseRecOn with
  | nil => nomatch h
  | append_singleton ds d ih =>
    rw [Protocol.stateOf_concat] at h
    have hbefore : writing.stateOf who ds = some c → ∃ d' ∈ ds ++ [d], d'.Leads who c := fun h =>
      let ⟨d', hd', hleads⟩ := ih h
      ⟨d', List.mem_append_left _ hd', hleads⟩
    unfold Protocol.move at h
    split at h
    · nomatch h
    · cases d with
      | answered actor w r x w' =>
        dsimp only at h
        split at h
        · rename_i hactor
          cases r with
          | cell f name access =>
            simp only [writing] at h
            split at h
            · rename_i haccess
              exact ⟨_, List.mem_append_right _ (List.mem_singleton_self _), hactor, haccess, Option.some.inj h⟩
            · exact hbefore h
          | taken f captures name level access =>
            simp only [writing] at h
            split at h
            · rename_i haccess
              exact ⟨_, List.mem_append_right _ (List.mem_singleton_self _), hactor, haccess, h⟩
            · exact hbefore h
          | store | edit => nomatch h
          | _ => exact hbefore h
        · exact hbefore h
      | _ => exact hbefore h

/-- What is within a frame stays so. -/
theorem Within.mono {ds ds' : List Deed} {m f : FrameId} (h : Within ds m f) (hsub : ds ⊆ ds') : Within ds' m f := by
  induction h with
  | self => exact .self
  | call hd _ ih => exact .call (hsub hd) ih

/-- Who changes variables while programs run. -/
structure ReadOnly (ds : List Deed) : Prop where
  /-- A fixed variable has its value. -/
  fixed : ∀ {who w name x w'}, .answered who w (.fixed name) x w' ∈ ds → x = fixedValue? name
  /-- A cell is changed only by a task that was led to it, as the one of a variable of the frame the task runs in or of
  one around it. -/
  changed : ∀ {earlier later : List Deed} {who : TaskId} {w : World} {r : Request} {x : r.Response} {w' : World}
    {c : CellId}, ds = earlier ++ .answered who w r x w' :: later → c < w.store.cells.size →
    w'.store.get c ≠ w.store.get c → ∃ d ∈ earlier, ∃ f g n, d.Aims who f g n c
  /-- If the cell is a member of a namespace, then that is the variable of the frame of the module, and the task runs in
  this frame or in that of a call of a closure made within it. -/
  member : ∀ {earlier later : List Deed} {who : TaskId} {w : World} {r : Request} {x : r.Response} {w' : World} {c : CellId}
    {maker : TaskId} {wm : World} {spec : String} {m : FrameId} {ns : Namespace} {wm' : World} {n : String},
    ds = earlier ++ .answered who w r x w' :: later → c < w.store.cells.size → w'.store.get c ≠ w.store.get c →
    .answered maker wm (.freeze spec m) ns wm' ∈ ds → (n, c) ∈ ns.members →
    ∃ d ∈ earlier, ∃ f, d.Aims who f m n c ∧ Within earlier m f

namespace History

variable {ds : List Deed} {p : Pool}

/-- Who was led to a cell to change it was led there by a name of the frame it ran in, or of one around. -/
theorem aims {earlier later : List Deed} {d : Deed} {who : TaskId} {c : CellId} (h : History Made (earlier ++ d :: later) p)
    (hd : d.Leads who c) : ∃ f g n, d.Aims who f g n c ∧ Within earlier g f := by
  cases d with
  | answered actor w r x w' =>
    cases r with
    | cell f name access =>
      obtain ⟨hactor, haccess, hx⟩ := hd
      exact ⟨f, f, name, ⟨hactor, haccess, rfl, rfl, rfl, hx⟩, .self⟩
    | taken f captures name level access =>
      obtain ⟨hactor, haccess, hx⟩ := hd
      obtain ⟨G, hw, hneeds, -⟩ := h.asked_fits
      obtain ⟨-, -, g, -, hg, -⟩ := hneeds trivial
      rw [hw.store.ancestor?] at hg
      obtain ⟨before, next, after, hearlier, -⟩ := h.asked
      exact ⟨f, g, name, ⟨hactor, haccess, rfl, hg, rfl, hx⟩, hearlier.traced.within level hg⟩
    | _ => exact hd.elim
  | _ => exact hd.elim

/-- A member of a namespace has the cell that the frame of the module had under the name. -/
theorem member_places {who : TaskId} {w w' : World} {spec n : String} {m : FrameId} {ns : Namespace} {c : CellId}
    (h : History Made ds p) (hd : .answered who w (.freeze spec m) ns w' ∈ ds) (hc : (n, c) ∈ ns.members) :
    (Deed.answered who w (.freeze spec m) ns w').Places m n c := by
  obtain ⟨earlier, later, rfl⟩ := List.append_of_mem hd
  obtain ⟨before, next, after, hearlier, hx⟩ := h.asked
  refine ⟨rfl, hc, ?_⟩
  cases hx
  rw [Store.lookup?_eq]
  change (n, c) ∈ (w.store.frame m).sorted at hc
  unfold Store.frame at hc
  rw [Array.getD_eq_getD_getElem?] at hc
  cases hm : w.store.frames[m]? with
  | none =>
    rw [hm] at hc
    nomatch hc
  | some frame =>
    rw [hm] at hc
    exact (hearlier.traced.tidy m frame hm).get?_of_mem_sorted hc

/-- What a cell holds is changed only by a task that was led to it. -/
theorem changes_leads {earlier later : List Deed} {who : TaskId} {w w' : World} {r : Request} {x : r.Response} {c : CellId}
    (h : History Made (earlier ++ .answered who w r x w' :: later) p) (hr : r.ChangesCell c) : ∃ d ∈ earlier,
    d.Leads who c := by
  obtain ⟨-, hneeds, -⟩ := h.conforms Writing.lawful (fun _ _ hv => hv _) fun _ _ _ _ _ _ => trivial
  exact Writing.led (hneeds c hr)

/-- A cell changes only at the hand of a task that was led to it. -/
theorem changed_leads {earlier later : List Deed} {who : TaskId} {w w' : World} {r : Request} {x : r.Response} {c : CellId}
    (h : History Made (earlier ++ .answered who w r x w' :: later) p) (hc : c < w.store.cells.size)
    (hchanged : w'.store.get c ≠ w.store.get c) : ∃ d ∈ earlier, d.Leads who c := by
  obtain ⟨before, next, after, -, hx⟩ := h.asked
  refine h.changes_leads ?_
  by_contra hnot
  have hsame := @World.get_perform w who r c hc hnot
  rw [hx] at hsame
  exact hchanged hsame

/-- Resolution accepts no program that changes a fixed variable or a member of a namespace under that name. While
programs run, whatever they are and however they take turns, what a member of a namespace holds is changed only by code
of the module it comes from: by its body, or in a call of a closure that was made there. -/
theorem read_only (h : History Made ds p) :
    (∀ {chunk : Source.Chunk} {src : String} {s t : Scope} {block : Code.Block} {ref : Ref},
      chunk.compile src s = (.ok block, t) →
      Changes ref block.mentions → (∀ name, ref ≠ .builtin name) ∧ ∀ ns name, ref ≠ .member ns name) ∧
    ReadOnly ds := by
  refine ⟨fun {chunk src s t block ref} hcompile hchanges => ?_, ?_, ?_, ?_⟩
  · have hwritable := Source.Chunk.compile_changes hcompile ref hchanges
    cases ref with
    | builtin | member => nomatch hwritable
    | _ => exact ⟨fun _ heq => (nomatch heq), fun _ _ heq => (nomatch heq)⟩
  · intro who w name x w' hd
    obtain ⟨earlier, later, rfl⟩ := List.append_of_mem hd
    obtain ⟨before, next, after, -, hx⟩ := h.asked
    exact (Option.some.inj (congrArg Prod.fst hx)).symm
  · rintro earlier later who w r x w' c rfl hc hchanged
    obtain ⟨d, hd, hleads⟩ := h.changed_leads hc hchanged
    obtain ⟨before, between, rfl⟩ := List.append_of_mem hd
    rw [List.append_assoc] at h
    obtain ⟨f, g, n, haims, -⟩ := h.aims hleads
    exact ⟨d, hd, f, g, n, haims⟩
  · rintro earlier later who w r x w' c maker wm spec m ns wm' n rfl hc hchanged hmade hmember
    obtain ⟨d, hd, hleads⟩ := h.changed_leads hc hchanged
    have hplaces := h.member_places hmade hmember
    obtain ⟨G, hG⟩ := History.fits True (fun _ _ hv _ => hv) h
    obtain ⟨before, between, rfl⟩ := List.append_of_mem hd
    rw [List.append_assoc] at h
    obtain ⟨f, g, n', haims, hwithin⟩ := h.aims hleads
    -- One cell is told to be that of two variables, so these are one.
    have hslot := hG.places trivial d (List.mem_append_left _ hd) g n' c haims.places
    have hslot' := hG.places trivial _ hmade m n c hplaces
    cases hslot.symm.trans hslot'
    exact ⟨d, hd, f, haims, hwithin.mono (List.subset_append_left _ _)⟩

/-- A module with a variable and a function that changes it. -/
def counter : World :=
  Sample.library [("counter.duo", [Sample.assign "n" (.bare "zero"),
    Sample.command (.bare "fn") [.bare "step", Sample.lambda [Sample.assign "n" (.bare "one")]]])]

/-- The program `use counter; put $counter:n; counter:step; put $counter:n`. -/
def stepping : List Source.Body :=
  [Sample.command (.bare "use") [.bare "counter"], Sample.command (.bare "put") [Sample.value "counter:n"],
    Sample.command (.bare "counter:step") [], Sample.command (.bare "put") [Sample.value "counter:n"]]

/-- A function of a module changes its variable; the importer may not. -/
theorem read_only_stepping : ∃ ds, History Made ds ⟨[], (Sample.run counter stepping).2⟩ ∧ ReadOnly ds ∧
    Sample.texts (Sample.run counter stepping).1 = [some "zero", some "one"] ∧
    Sample.fault (Sample.run (Sample.run counter stepping).2 [Sample.assign "counter:n" (.bare "two")]).1 =
      some (.readOnly "counter:n") := by
  obtain ⟨ds, h⟩ := Sample.go (Sample.startLibrary Made _) stepping
  exact ⟨[] ++ ds, h, h.read_only.2, by cbv, by cbv⟩

end History

end DualShell
