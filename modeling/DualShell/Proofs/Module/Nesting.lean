import Mathlib.Data.List.Induction
import Mathlib.Data.List.Perm.Subperm
import DualShell.Proofs.Module.Cache

/-!
# Modules within modules

Which modules are being loaded around a task can be read off the deeds (`Around`): those that it evaluates, and those
that were being loaded around whoever began it. The chain of imports that code carries with it holds exactly their keys,
each once (`History.nests`). So evaluations are nested no deeper than there are modules, and nobody waits for a module
whose evaluation waits for him.
-/

namespace DualShell

/-- A module is being loaded around a task: the task evaluates it, or it was being loaded around whoever began the task,
when it was begun. -/
inductive Around : List Deed → TaskId → String → PlaceId → Prop
  | own {begun ds : List Deed} {who : TaskId} {key : String} {place : PlaceId} (h : Evaluates begun ds who key place) :
      Around ds who key place
  | begun {earlier later : List Deed} {actor : TaskId} {w w' : World} {r : Request} {x : r.Response} {work : Work}
      {key : String} {place : PlaceId} (hwork : r.Begins work) (h : Around earlier actor key place) :
      Around (earlier ++ .answered actor w r x w' :: later) w.nextTask key place

/-- The chain of imports that a request carries: that of the surroundings of code that is to run. -/
def Request.Carries (imports : List String) : Request → Prop
  | .activate _ _ chain => chain = imports
  | .spawn work => work.ctx.imports = imports
  | .startJob _ ctx => ctx.imports = imports
  | _ => False

/-- A task is begun by an answer. -/
theorem Deed.begins?_eq_some {who : TaskId} {d : Deed} {imports : List String} (h : d.begins? who = some imports) :
    ∃ actor w r x w' work, d = .answered actor w r x w' ∧ r.Begins work ∧ w.nextTask = who ∧ work.ctx.imports = imports := by
  cases d with
  | answered actor w r x w' =>
    cases r with
    | spawn work =>
      simp only [Deed.begins?] at h
      split at h
      · rename_i hwho
        exact ⟨actor, w, _, x, w', work, rfl, rfl, hwho, Option.some.inj h⟩
      · nomatch h
    | startJob p ctx =>
      simp only [Deed.begins?] at h
      split at h
      · rename_i hwho
        exact ⟨actor, w, _, x, w', .job p ctx 0, rfl, ⟨0, rfl⟩, hwho, Option.some.inj h⟩
      · nomatch h
    | _ => nomatch h
  | _ => nomatch h

namespace Loading

variable {known : String → Prop} {ds : List Deed} {who : TaskId}

/-- No value is of concern. -/
theorem supplied {v : Value} : v.Sound (loading known).quality :=
  Value.sound_of_isOpen ⟨fun _ => trivial, fun _ => trivial⟩ v

/-- What carries a chain of imports carries that of the task. -/
theorem chain_of_carries {s : Loading} {r : Request} {imports : List String} (h : (loading known).discipline.Needs s r)
    (hr : r.Carries imports) : Chain known s imports := by
  obtain ⟨-, hneeds, hbegins⟩ := h
  cases r with
  | activate home vars chain =>
    cases hr
    exact hneeds.1
  | spawn work =>
    cases hr
    exact (hbegins work rfl).1.2
  | startJob p ctx =>
    cases hr
    exact (hbegins (.job p ctx 0) ⟨0, rfl⟩).1.2
  | _ => exact hr.elim

/-- Work that is begun goes on with the chain of who begins it. -/
theorem chain_of_begins {s : Loading} {r : Request} {work : Work} (h : (loading known).discipline.Needs s r)
    (hr : r.Begins work) : Chain known s work.ctx.imports := (h.2.2 work hr).1.2

/-- No answer changes the chain that a task began with. -/
theorem base_after (s : Loading) (r : Request) (x : r.Response) : ((loading known).after s r x).base = s.base := by
  cases r with
  | claimModule key place => cases x <;> rfl
  | _ => rfl

/-- The surroundings in which a task began stay those. -/
theorem base_concat {d : Deed} (h : d.begins? who = none) :
    ((loading known).stateOf who (ds ++ [d])).base = ((loading known).stateOf who ds).base := by
  rw [Protocol.stateOf_concat]
  unfold Protocol.move
  rw [h]
  cases d with
  | answered actor w r x w' =>
    dsimp only
    split
    · exact base_after _ r x
    · rfl
  | _ => rfl

/-- A task that no other began started with an empty chain. -/
theorem base_origin : ((loading known).stateOf who ds).base = [] ∨
    ∃ earlier d later, ds = earlier ++ d :: later ∧ d.begins? who = some ((loading known).stateOf who ds).base := by
  induction ds using List.reverseRecOn with
  | nil => exact .inl rfl
  | append_singleton ds d ih =>
    cases hbegins : d.begins? who with
    | some imports =>
      refine .inr ⟨ds, d, [], rfl, ?_⟩
      rw [Protocol.stateOf_begun hbegins, hbegins]
      rfl
    | none =>
      rw [base_concat hbegins]
      rcases ih with hnil | ⟨earlier, d', later, hds, hd'⟩
      · exact .inl hnil
      · exact .inr ⟨earlier, d', later ++ [d], by simp [hds], hd'⟩

end Loading

namespace History

variable {Supplied : List Deed → Value → Prop} {known : String → Prop} {ds earlier later : List Deed} {d : Deed}
    {p : Pool} {who : TaskId}
  {key : String} {place : PlaceId}

/-- All tasks of a history have numbers of their own. -/
theorem numbered (h : History Supplied ds p) : p.Numbered ds :=
  (h.follows (P := loading fun _ => True) Loading.lawful (fun _ _ _ _ => Loading.supplied) fun _ _ r _ _ _ => by
    cases r <;> first | trivial | exact fun _ _ => trivial).numbered

/-- A task that did something, or was begun, is not begun again. -/
theorem not_begun (h : History Supplied (earlier ++ d :: later) p)
    (hwho : (∃ w r x w', .answered who w r x w' ∈ earlier) ∨ ∃ d' ∈ earlier, d'.begins? who ≠ none) :
    d.begins? who = none := by
  refine Deed.begins?_eq_none fun actor w r x w' hd => ?_
  subst hd
  obtain ⟨before, next, after, hearlier, -⟩ := h.asked
  rcases hwho with ⟨w₁, r₁, x₁, w₁', hacted⟩ | ⟨d', hd', hbegun⟩
  · exact Nat.ne_of_gt (hearlier.numbered.acted who w₁ r₁ x₁ w₁' hacted).1
  · intro heq
    exact hbegun (hearlier.numbered.begun who (Nat.le_of_eq heq) d' hd')

/-- The requests of a history, with what they needed. -/
theorem needed {w w' : World} {r : Request} {x : r.Response}
    (h : History Supplied (earlier ++ .answered who w r x w' :: later) p)
    (htold : ∀ who w r x w', .answered who w r x w' ∈ earlier → (loading known).Told r x) :
    (loading known).discipline.Needs ((loading known).stateOf who earlier) r :=
  h.conforms Loading.lawful (fun _ _ _ _ => Loading.supplied) htold

/-- A task that was begun has the chain of the surroundings it was begun in. -/
theorem base_begun {imports : List String} (h : History Supplied (earlier ++ d :: later) p)
    (hd : d.begins? who = some imports) : ((loading known).stateOf who (earlier ++ d :: later)).base = imports := by
  induction later using List.reverseRecOn generalizing p with
  | nil =>
    rw [Protocol.stateOf_begun hd]
    rfl
  | append_singleton later d' ih =>
    have hsplit : earlier ++ d :: (later ++ [d']) = (earlier ++ d :: later) ++ [d'] := by simp
    rw [hsplit] at h ⊢
    have hbegun : d.begins? who ≠ none := by simp [hd]
    obtain ⟨p', hbefore⟩ := h.upTo
    rw [Loading.base_concat (h.not_begun (.inr ⟨d, by simp, hbegun⟩)), ih hbefore]

/-- A place that was granted to a task and not settled since is held by the task. -/
theorem mem_opened {w w' : World}
    (h : History Supplied (earlier ++ .answered who w (.claimModule key place) none w' :: later) p)
    (htold : ∀ who₁ w₁ r x w₁', .answered who₁ w₁ r x w₁' ∈ earlier ++ .answered who w (.claimModule key place) none
      w' :: later → (loading known).Told r x)
    (hsince : ∀ d ∈ later, ∀ ns, ¬d.Settles place ns) :
    (key, place) ∈
    ((loading known).stateOf who (earlier ++ .answered who w (.claimModule key place) none w' :: later)).opened := by
  induction later using List.reverseRecOn generalizing p with
  | nil =>
    rw [Protocol.stateOf_answered who earlier w (.claimModule key place) none w' rfl]
    exact List.mem_append_right _ (List.mem_singleton_self _)
  | append_singleton later d ih =>
    have hsplit : earlier ++ .answered who w (.claimModule key place) none w' :: (later ++ [d]) =
        (earlier ++ .answered who w (.claimModule key place) none w' :: later) ++ [d] := by simp
    rw [hsplit] at h htold ⊢
    obtain ⟨p', hbefore⟩ := h.upTo
    have htold' := fun who₁ w₁ r x w₁' hd => htold who₁ w₁ r x w₁' (List.mem_append_left _ hd)
    have hheld := ih hbefore htold' fun d' hd' => hsince d' (List.mem_append_left _ hd')
    have hbegun : d.begins? who = none := h.not_begun (.inl ⟨w, _, _, w', List.mem_append_right _ List.mem_cons_self⟩)
    by_cases hmine : ∃ w₁ r x w₁', d = .answered who w₁ r x w₁'
    · obtain ⟨w₁, r, x, w₁', rfl⟩ := hmine
      have hneeds := (h.needed htold').2.1
      rw [Protocol.stateOf_answered who _ w₁ r x w₁' hbegun]
      cases r with
      | claimModule k place' => cases x <;> first | exact hheld | exact List.mem_append_left _ hheld
      | settleModule k place' ns =>
        obtain ⟨rest, hrest⟩ := hneeds
        have hne : place' ≠ place := fun heq =>
          hsince _ (List.mem_append_right _ (List.mem_singleton_self _)) ns ⟨heq, rfl⟩
        change (key, place) ∈ List.dropLast _
        rw [hrest, List.dropLast_concat]
        rw [hrest] at hheld
        refine (List.mem_append.1 hheld).resolve_right fun hlast => hne ?_
        exact (Prod.mk.inj (List.mem_singleton.1 hlast)).2.symm
      | _ => exact hheld
    · rw [Protocol.stateOf_others (fun w₁ r x w₁' heq => hmine ⟨w₁, r, x, w₁', heq⟩) hbegun]
      exact hheld

/-- The chain of a task holds the keys of the modules that are being loaded around it. -/
theorem mem_chain_of_around (h : History Supplied ds p)
    (htold : ∀ who w r x w', .answered who w r x w' ∈ ds → (loading known).Told r x)
    (haround : Around ds who key place) : key ∈ ((loading known).stateOf who ds).chain := by
  induction haround generalizing p with
  | own hev =>
    obtain ⟨w₁, w₁', between, w₂, w₂', since, rfl, hsince⟩ := hev
    rw [← List.cons_append, ← List.append_assoc] at h htold ⊢
    exact List.mem_append_right _ (List.mem_map_of_mem (h.mem_opened htold hsince))
  | @begun earlier later actor w w' r x work key place hwork _ ih =>
    have htold' := fun who₁ w₁ r₁ x₁ w₁' hd => htold who₁ w₁ r₁ x₁ w₁' (List.mem_append_left _ hd)
    obtain ⟨p', hearlier⟩ := h.upTo
    have hkey := ih hearlier htold'
    rw [(Loading.chain_of_begins (h.needed htold') hwork).exact] at hkey
    refine List.mem_append_left _ ?_
    rwa [h.base_begun (Deed.begins?_of_begins hwork)]

/-- The modules whose keys are in the chain of a task are being loaded around it. -/
theorem around_of_mem_chain (h : History Supplied ds p)
    (htold : ∀ who w r x w', .answered who w r x w' ∈ ds → (loading known).Told r x)
    (hkey : key ∈ ((loading known).stateOf who ds).chain) : ∃ place, Around ds who key place := by
  induction hlength : ds.length using Nat.strongRecOn generalizing ds who p with
  | ind n ih =>
    rcases List.mem_append.1 hkey with hbase | hopened
    · obtain hnil | ⟨earlier, d, later, rfl, hd⟩ := @Loading.base_origin known ds who
      · rw [hnil] at hbase
        nomatch hbase
      · obtain ⟨actor, w, r, x, w', work, rfl, hwork, rfl, himports⟩ := Deed.begins?_eq_some hd
        have htold' := fun who₁ w₁ r₁ x₁ w₁' hd => htold who₁ w₁ r₁ x₁ w₁' (List.mem_append_left _ hd)
        obtain ⟨p', hearlier⟩ := h.upTo
        rw [← himports, ← (Loading.chain_of_begins (h.needed htold') hwork).exact] at hbase
        obtain ⟨place, haround⟩ := ih earlier.length (by simp [← hlength]) hearlier htold' hbase rfl
        exact ⟨place, .begun hwork haround⟩
    · obtain ⟨⟨key, place⟩, hmem, rfl⟩ := List.mem_map.1 hopened
      obtain ⟨begun, hev⟩ := (h.caches htold).evaluates hmem
      exact ⟨place, .own hev⟩

end History

/-! ## Nesting -/

/-- The keys that specs were resolved to. -/
def Resolved (ds : List Deed) (key : String) : Prop :=
  ∃ who w k spec w', .answered who w (.resolveModule k spec) (.ok key) w' ∈ ds

/-- How the modules are nested that are being loaded. -/
structure Nests (ds : List Deed) (p : Pool) : Prop where
  /-- The chain of code that is to run has no key twice, and its keys are those of the modules that are being loaded
  around the code. -/
  chain : ∀ {earlier later who w r x w' imports}, ds = earlier ++ .answered who w r x w' :: later → r.Carries imports →
    imports.Nodup ∧ ∀ key, key ∈ imports ↔ ∃ place, Around earlier who key place
  /-- It is no longer than there are modules. -/
  depth : ∀ {who w r x w' imports}, .answered who w r x w' ∈ ds → r.Carries imports → ∀ keys : List String,
    (∀ key, Resolved ds key → key ∈ keys) → imports.length ≤ keys.length
  /-- A task that claims a place, or waits for it, does so for a module that is not being loaded around the task, at a
  place of its own. -/
  claims : ∀ {who key place next}, (who, .request (.claimModule key place) next) ∈ p.tasks →
    ∀ {key' place'}, Around ds who key' place' → key' ≠ key ∧ place' ≠ place

namespace History

variable {Supplied : List Deed → Value → Prop} {known : String → Prop} {ds : List Deed} {p : Pool} {who : TaskId}
    {key : String}
  {place : PlaceId}

/-- The place of a module that is being loaded was found. -/
theorem found_of_around (haround : Around ds who key place) : Placed ds key place := by
  induction haround with
  | own hev =>
    obtain ⟨w₁, w₁', between, w₂, w₂', since, rfl, -⟩ := hev
    exact ⟨_, List.mem_append_right _ List.mem_cons_self, rfl, rfl⟩
  | begun _ _ ih =>
    obtain ⟨d, hd, hfinds⟩ := ih
    exact ⟨d, List.mem_append_left _ hd, hfinds⟩

/-- Keys that a machine resolved to are known afterwards. -/
theorem told_resolved {who : TaskId} {w w' : World} {r : Request} {x : r.Response} (hd : .answered who w r x w' ∈ ds) :
    (loading (Resolved ds)).Told r x := by
  cases r with
  | resolveModule k spec =>
    rintro key rfl
    exact ⟨who, w, k, spec, w', hd⟩
  | _ => trivial

section Carried

variable {earlier later : List Deed} {w w' : World} {r : Request} {x : r.Response} {imports : List String}

/-- Keys that were resolved to before a deed are known at it. -/
theorem told_before (hds : ds = earlier ++ .answered who w r x w' :: later) {who₁ : TaskId} {w₁ w₁' : World} {r₁ : Request}
    {x₁ : r₁.Response} (hd : .answered who₁ w₁ r₁ x₁ w₁' ∈ earlier) : (loading (Resolved ds)).Told r₁ x₁ :=
  told_resolved (hds ▸ List.mem_append_left _ hd)

/-- Code that is to run carries the chain of its task. -/
theorem carried (h : History Supplied ds p) (hds : ds = earlier ++ .answered who w r x w' :: later)
    (hr : r.Carries imports) : Loading.Chain (Resolved ds) ((loading (Resolved ds)).stateOf who earlier) imports := by
  have htold := fun who₁ w₁ r₁ x₁ w₁' (hd : .answered who₁ w₁ r₁ x₁ w₁' ∈ earlier) => told_before hds hd
  generalize Resolved ds = known at htold ⊢
  subst hds
  exact Loading.chain_of_carries (h.needed htold) hr

end Carried

/-- Modules are nested within different ones, and nobody waits for a module whose evaluation waits for him. -/
theorem nests (h : History Supplied ds p) : Nests ds p where
  chain {earlier later who w r x w' imports} heq hr := by
    have hchain := h.carried heq hr
    have htold := fun who₁ w₁ r₁ x₁ w₁' (hd : .answered who₁ w₁ r₁ x₁ w₁' ∈ earlier) => told_before heq hd
    refine ⟨hchain.nodup, fun key => ?_⟩
    rw [← hchain.exact]
    rw [heq] at h
    obtain ⟨p', hearlier⟩ := h.upTo
    exact ⟨hearlier.around_of_mem_chain htold, fun ⟨place, haround⟩ => hearlier.mem_chain_of_around htold haround⟩
  depth {who w r x w' imports} hd hr keys hkeys := by
    obtain ⟨earlier, later, heq⟩ := List.append_of_mem hd
    have hchain := h.carried heq hr
    exact (List.Nodup.subperm hchain.nodup fun key hkey => hkeys key (hchain.known key hkey)).length_le
  claims {who key place next} hmem {key' place'} haround := by
    obtain ⟨before, after, hp⟩ := List.append_of_mem hmem
    obtain ⟨tasks, w⟩ := p
    cases hp
    have htold : ∀ who₁ w₁ r₁ x₁ w₁', .answered who₁ w₁ r₁ x₁ w₁' ∈ ds → (loading (Resolved ds)).Told r₁ x₁ :=
      fun _ _ _ _ _ => told_resolved
    obtain ⟨hfound, hnot⟩ := (h.stands Loading.lawful (fun _ _ _ _ => Loading.supplied) htold).2.1
    have hkey : key' ≠ key := fun heq => hnot (heq ▸ h.mem_chain_of_around htold haround)
    have hcaches := h.caches htold
    exact ⟨hkey, fun hplace => hkey (hcaches.owner (hplace ▸ found_of_around haround) (hcaches.found_of_told hfound))⟩

end History

end DualShell
