import Mathlib
import DualShell.Proofs.Module.Loading

/-!
# Places of modules

What the deeds of a history say about the places of modules (`World.Caches`). While the modules are not forgotten, a key
has one place, and a place never has two keys. A place is being filled exactly while one task holds it, which found it
and was granted it (`Evaluates`), and from the moment that task settles it with a namespace on it holds that namespace
for good.
-/

namespace DualShell

/-! ## The cache -/

namespace ModuleCache

variable {c : ModuleCache} {place p : PlaceId} {st : PlaceState}

/-- A place is as it was put. -/
theorem state_put_self (h : place < c.places.size) (st : PlaceState) : (c.put place st).state place = st := by
  simp [put, state, h]

/-- Other places are as they were. -/
theorem state_put_ne (h : p ≠ place) (st : PlaceState) : (c.put place st).state p = c.state p := by
  simp [put, state, Array.getElem?_setIfInBounds_ne h.symm]

/-- A place is as it was settled. -/
theorem state_settle_self (h : place < c.places.size) (ns : Option Namespace) :
    (c.settle place ns).state place = ns.elim .vacant .loaded := by
  cases ns <;> exact state_put_self h _

/-- Other places are as they were. -/
theorem state_settle_ne (h : p ≠ place) (ns : Option Namespace) : (c.settle place ns).state p = c.state p := by
  cases ns <;> exact state_put_ne h _

/-- No place is made or taken away. -/
theorem size_settle (c : ModuleCache) (place : PlaceId) (ns : Option Namespace) :
    (c.settle place ns).places.size = c.places.size := by
  cases ns <;> simp [settle, put]

/-- A new place is vacant, as a missing one is. -/
theorem state_push (entries : List (String × PlaceId)) (p : PlaceId) :
    (ModuleCache.mk entries (c.places.push .vacant)).state p = c.state p := by
  simp only [state, Array.getElem?_push]
  split
  · rename_i heq
    subst heq
    simp
  · rfl

/-- The place of a key that is asked for was there, or is made now. -/
theorem find_cases (c : ModuleCache) (key : String) :
    Named.get? c.entries key = some (c.find key).1 ∧ (c.find key).2 = c ∨
      Named.get? c.entries key = none ∧ (c.find key).1 = c.places.size ∧
        (c.find key).2 = ⟨Named.insert key (c.find key).1 c.entries, c.places.push .vacant⟩ := by
  unfold find
  cases hget : Named.get? c.entries key with
  | some place => exact .inl ⟨rfl, rfl⟩
  | none => exact .inr ⟨rfl, rfl, rfl⟩

/-- To find a place changes none. -/
theorem state_find (c : ModuleCache) (key : String) (p : PlaceId) : (c.find key).2.state p = c.state p := by
  rcases c.find_cases key with ⟨-, heq⟩ | ⟨-, -, heq⟩
  · rw [heq]
  · rw [heq, state_push]

/-- To find a place takes none away. -/
theorem size_le_find (c : ModuleCache) (key : String) : c.places.size ≤ (c.find key).2.places.size := by
  rcases c.find_cases key with ⟨-, heq⟩ | ⟨-, -, heq⟩ <;> simp [heq]

/-- Then the key has that place, and the other keys have the places that they had. -/
theorem get?_find (c : ModuleCache) (key k : String) (p : PlaceId) :
    Named.get? (c.find key).2.entries k = some p ↔ Named.get? c.entries k = some p ∨ key = k ∧ (c.find key).1 = p := by
  rcases c.find_cases key with ⟨hget, heq⟩ | ⟨hget, -, heq⟩
  · rw [heq]
    refine ⟨.inl, ?_⟩
    rintro (hk | ⟨rfl, rfl⟩)
    · exact hk
    · exact hget
  · rw [heq]
    by_cases hk : k = key
    · subst hk
      rw [Named.get?_insert_self, hget]
      simp
    · rw [Named.get?_insert_ne hk]
      simp [Ne.symm hk]

/-- A module is there exactly if its place was settled with a namespace. -/
theorem get?_eq_some {key : String} {ns : Namespace} :
    c.get? key = some ns ↔ ∃ place, Named.get? c.entries key = some place ∧ c.state place = .loaded ns := by
  unfold get?
  cases hentry : Named.get? c.entries key with
  | none => simp
  | some place => cases hstate : c.state place <;> simp [hstate]

/-- The keys are those of the modules that can be had. -/
theorem mem_keys {key : String} : key ∈ c.keys ↔ (c.get? key).isSome = true := by
  unfold keys
  simp only [List.mem_map, List.mem_filter]
  constructor
  · rintro ⟨entry, ⟨-, hsome⟩, rfl⟩
    exact hsome
  · intro hsome
    cases hentry : Named.get? c.entries key with
    | none => simp [get?, hentry] at hsome
    | some place =>
      obtain ⟨entry, hfind, -⟩ := Option.map_eq_some_iff.1 hentry
      have hkey : entry.1 = key := by simpa using List.find?_some hfind
      exact ⟨entry, ⟨List.mem_of_find?_eq_some hfind, hkey ▸ hsome⟩, hkey⟩

end ModuleCache

/-- Only requests about the place of a module touch the places. -/
theorem World.modules_perform (w : World) (who : TaskId) {r : Request} (h : ¬r.ConcernsPlace) :
    (w.perform who r).2.modules = w.modules := by
  by_cases hr : r.LeavesFrames
  · exact (World.Quiet.perform w who hr h).modules
  · cases r <;> first | rfl | exact absurd trivial hr

/-! ## What deeds say about places -/

/-- The place of a module was found. -/
def Deed.Finds (key : String) (place : PlaceId) : Deed → Prop
  | .answered _ _ (.findModule k) x _ => k = key ∧ x = place
  | _ => False

/-- A place was settled. -/
def Deed.Settles (place : PlaceId) (ns : Option Namespace) : Deed → Prop
  | .answered _ _ (.settleModule _ p n) _ _ => p = place ∧ n = ns
  | _ => False

/-- Requests about the place of a module that were answered. -/
def Deed.MovesPlaces : Deed → Prop
  | .answered _ _ r _ _ => r.ConcernsPlace
  | _ => False

/-- The place of a module was found at some time. -/
def Placed (ds : List Deed) (key : String) (place : PlaceId) : Prop := ∃ d ∈ ds, d.Finds key place

/-- The place of a module was found, and the modules were not forgotten since. -/
def PlacedSince (ds : List Deed) (key : String) (place : PlaceId) : Prop :=
  ∃ earlier later, ds = earlier ++ later ∧ .cleared ∉ later ∧ Placed later key place

/-- What a deed makes of a place. -/
def Deed.leaves (place : PlaceId) (st : PlaceState) : Deed → PlaceState
  | .answered _ _ (.claimModule _ p) none _ => if p = place then .loading else st
  | .answered _ _ (.settleModule _ p ns) _ _ => if p = place then ns.elim .vacant .loaded else st
  | _ => st

/-- How a place stands after the deeds. -/
def standing (ds : List Deed) (place : PlaceId) : PlaceState := ds.foldl (Deed.leaves place) .vacant

/-- After the deeds `begun` a task found the place of a module, was granted it, and has not settled it since. -/
def Evaluates (begun ds : List Deed) (who : TaskId) (key : String) (place : PlaceId) : Prop :=
  ∃ w₁ w₁' between w₂ w₂' since, ds = begun ++ .answered who w₁ (.findModule key) place w₁' ::
      (between ++ .answered who w₂ (.claimModule key place) none w₂' :: since) ∧ ∀ d ∈ since, ∀ ns, ¬d.Settles place ns

section Concat

variable {begun ds : List Deed} {d : Deed} {who : TaskId} {key : String} {place : PlaceId}

/-- A key has a place after one deed more if it had it, or if the deed finds it. -/
theorem placed_concat : Placed (ds ++ [d]) key place ↔ Placed ds key place ∨ d.Finds key place := by
  simp [Placed, or_and_right, exists_or]

theorem placed_concat_of_not (h : ¬d.Finds key place) : Placed (ds ++ [d]) key place ↔ Placed ds key place :=
  placed_concat.trans (or_iff_left h)

theorem PlacedSince.placed (h : PlacedSince ds key place) : Placed ds key place := by
  obtain ⟨earlier, later, rfl, -, d, hd, hfinds⟩ := h
  exact ⟨d, List.mem_append_right _ hd, hfinds⟩

/-- The same since the modules were forgotten. -/
theorem placedSince_concat (hd : d ≠ .cleared) :
    PlacedSince (ds ++ [d]) key place ↔ PlacedSince ds key place ∨ d.Finds key place := by
  constructor
  · rintro ⟨earlier, later, heq, hlater, hfound⟩
    rcases List.eq_nil_or_concat later with rfl | ⟨later, d', rfl⟩
    · obtain ⟨_, hmem, _⟩ := hfound
      nomatch hmem
    · rw [List.concat_eq_append, ← List.append_assoc] at heq
      obtain ⟨rfl, hd'⟩ := List.append_inj' heq rfl
      cases hd'
      rw [List.concat_eq_append] at hlater hfound
      exact (placed_concat.1 hfound).imp_left fun hfound =>
        ⟨earlier, later, rfl, fun hc => hlater (List.mem_append_left _ hc), hfound⟩
  · rintro (⟨earlier, later, rfl, hlater, hfound⟩ | hfinds)
    · refine ⟨earlier, later ++ [d], by simp, fun hc => ?_, placed_concat.2 (.inl hfound)⟩
      rcases List.mem_append.1 hc with hc | hc
      · exact hlater hc
      · exact hd (List.mem_singleton.1 hc).symm
    · exact ⟨ds, [d], rfl, fun hc => hd (List.mem_singleton.1 hc).symm, d, List.mem_singleton_self d, hfinds⟩

/-- After modules are forgotten no key has a place. -/
theorem not_placedSince_cleared : ¬PlacedSince (ds ++ [.cleared]) key place := by
  rintro ⟨earlier, later, heq, hlater, hfound⟩
  rcases List.eq_nil_or_concat later with rfl | ⟨later, d', rfl⟩
  · obtain ⟨_, hmem, _⟩ := hfound
    nomatch hmem
  · rw [List.concat_eq_append, ← List.append_assoc] at heq
    obtain ⟨-, hd'⟩ := List.append_inj' heq rfl
    cases hd'
    simp at hlater

/-- An evaluation goes on as long as its place is not settled. -/
theorem Evaluates.concat (h : Evaluates begun ds who key place) (hd : ∀ ns, ¬d.Settles place ns) :
    Evaluates begun (ds ++ [d]) who key place := by
  obtain ⟨w₁, w₁', between, w₂, w₂', since, rfl, hsince⟩ := h
  refine ⟨w₁, w₁', between, w₂, w₂', since ++ [d], by simp, fun d' hd' => ?_⟩
  rcases List.mem_append.1 hd' with hd' | hd'
  · exact hsince d' hd'
  · cases List.mem_singleton.1 hd'
    exact hd

theorem standing_concat : standing (ds ++ [d]) place = d.leaves place (standing ds place) := by simp [standing]

/-- A deed that is no request about places leaves them. -/
theorem Deed.leaves_of_quiet (h : ¬d.MovesPlaces) (st : PlaceState) : d.leaves place st = st := by
  cases d with
  | answered who w r x w' =>
    cases r with
    | claimModule | settleModule => exact absurd trivial h
    | _ => rfl
  | _ => rfl

/-- To find a place is a request about places. -/
theorem Deed.Finds.moves (h : d.Finds key place) : d.MovesPlaces := by
  cases d with
  | answered who w r x w' =>
    cases r with
    | findModule => trivial
    | _ => exact h.elim
  | _ => exact h.elim

/-- To settle a place is a request about places. -/
theorem Deed.Settles.moves {ns : Option Namespace} (h : d.Settles place ns) : d.MovesPlaces := by
  cases d with
  | answered who w r x w' =>
    cases r with
    | settleModule => trivial
    | _ => exact h.elim
  | _ => exact h.elim

end Concat

/-! ## Machines -/

variable {known : String → Prop} {ds : List Deed} {w w' : World}

namespace Loading

/-- Other deeds move no task, but one that is begun is where it begins. -/
theorem stateOf_quiet {d : Deed} (hd : ¬d.MovesPlaces) (who : TaskId) :
    (∃ imports, (loading known).stateOf who (ds ++ [d]) = ⟨imports, none, []⟩) ∨
      (loading known).stateOf who (ds ++ [d]) = (loading known).stateOf who ds := by
  cases hbegins : d.begins? who with
  | some imports => exact .inl ⟨imports, Protocol.stateOf_begun hbegins⟩
  | none =>
    refine .inr ?_
    rw [Protocol.stateOf_concat]
    unfold Protocol.move
    rw [hbegins]
    cases d with
    | answered actor w r x w' =>
      dsimp only
      split
      · cases r with
        | findModule | claimModule | settleModule => exact absurd trivial hd
        | _ => rfl
      · rfl
    | _ => rfl

/-- A deed that is no request about places grants nobody any. -/
theorem opened_quiet {d : Deed} (hd : ¬d.MovesPlaces) (who : TaskId) :
    ((loading known).stateOf who (ds ++ [d])).opened.Sublist ((loading known).stateOf who ds).opened := by
  obtain ⟨imports, hbegun⟩ | hsame := @Loading.stateOf_quiet known ds d hd who
  · rw [hbegun]
    exact List.nil_sublist _
  · exact hsame ▸ List.Sublist.refl _

/-- A deed that is no request about places shows nobody any. -/
theorem found_quiet {d : Deed} (hd : ¬d.MovesPlaces) {who : TaskId} {at_ : String × PlaceId}
    (hf : ((loading known).stateOf who (ds ++ [d])).found = some at_) : ((loading known).stateOf who ds).found =
    some at_ := by
  obtain ⟨imports, hbegun⟩ | hsame := @Loading.stateOf_quiet known ds d hd who
  · rw [hbegun] at hf
    nomatch hf
  · rwa [hsame] at hf

/-- A task that asked about places knows what it was answered. -/
theorem stateOf_self {who : TaskId} {w : World} {r : Request} {x : r.Response} {w' : World} (hr : r.ConcernsPlace) :
    (loading known).stateOf who (ds ++ [.answered who w r x w']) =
    (loading known).after ((loading known).stateOf who ds) r x :=
  Protocol.stateOf_answered who ds w r x w' (by cases r <;> first | rfl | exact hr.elim)

/-- The other tasks know what they knew. -/
theorem stateOf_ne {who actor : TaskId} (h : actor ≠ who) {w : World} {r : Request} {x : r.Response} {w' : World}
    (hr : r.ConcernsPlace) :
    (loading known).stateOf who (ds ++ [.answered actor w r x w']) = (loading known).stateOf who ds :=
  Protocol.stateOf_others (fun _ _ _ _ heq => by cases heq; exact h rfl) (by cases r <;> first | rfl | exact hr.elim)

section Answers

variable {who who' : TaskId} {key : String} {place : PlaceId}

/-- To find a place changes nothing of what is held. -/
theorem opened_find : ((loading known).stateOf who' (ds ++ [.answered who w (.findModule key) place w'])).opened =
    ((loading known).stateOf who' ds).opened := by
  by_cases hwho : who = who'
  · subst hwho
    rw [stateOf_self (r := .findModule key) trivial]
    rfl
  · rw [stateOf_ne hwho (r := .findModule key) trivial]

/-- A place that a task knows of is the one that it has found just now, or it knew it before. -/
theorem found_find {at_ : String × PlaceId}
    (hf : ((loading known).stateOf who' (ds ++ [.answered who w (.findModule key) place w'])).found = some at_) :
    who' = who ∧ at_ = (key, place) ∨ ((loading known).stateOf who' ds).found = some at_ := by
  by_cases hwho : who = who'
  · subst hwho
    rw [stateOf_self (r := .findModule key) trivial] at hf
    exact .inl ⟨rfl, (Option.some.inj hf).symm⟩
  · rw [stateOf_ne hwho (r := .findModule key) trivial] at hf
    exact .inr hf

/-- What a task holds it held before, or it is granted it now. -/
theorem opened_claim {k : String} {p : PlaceId}
    (ho : (k, p) ∈ ((loading known).stateOf who' (ds ++ [.answered who w (.claimModule key place) none w'])).opened) :
    (k, p) ∈ ((loading known).stateOf who' ds).opened ∨ who' = who ∧ k = key ∧ p = place := by
  by_cases hwho : who = who'
  · subst hwho
    rw [stateOf_self (r := .claimModule key place) trivial] at ho
    exact (List.mem_append.1 ho).imp_right fun ho => ⟨rfl, Prod.mk.inj (List.mem_singleton.1 ho)⟩
  · rw [stateOf_ne hwho (r := .claimModule key place) trivial] at ho
    exact .inl ho

/-- A module that is there already is held by nobody. -/
theorem opened_claim_loaded {ns : Namespace} :
    ((loading known).stateOf who' (ds ++ [.answered who w (.claimModule key place) (some ns) w'])).opened =
      ((loading known).stateOf who' ds).opened := by
  by_cases hwho : who = who'
  · subst hwho
    rw [stateOf_self (r := .claimModule key place) trivial]
    rfl
  · rw [stateOf_ne hwho (r := .claimModule key place) trivial]

/-- To claim a place shows nobody another one. -/
theorem found_claim {x : Option Namespace} {at_ : String × PlaceId}
    (hf : ((loading known).stateOf who' (ds ++ [.answered who w (.claimModule key place) x w'])).found = some at_) :
    ((loading known).stateOf who' ds).found = some at_ := by
  by_cases hwho : who = who'
  · subst hwho
    rw [stateOf_self (r := .claimModule key place) trivial] at hf
    cases x <;> cases hf
  · rwa [stateOf_ne hwho (r := .claimModule key place) trivial] at hf

/-- To settle a place shows nobody another one. -/
theorem found_settle {ns : Option Namespace} {x : Unit} {at_ : String × PlaceId}
    (hf : ((loading known).stateOf who' (ds ++ [.answered who w (.settleModule key place ns) x w'])).found = some at_) :
    ((loading known).stateOf who' ds).found = some at_ := by
  by_cases hwho : who = who'
  · subst hwho
    rwa [stateOf_self (r := .settleModule key place ns) trivial] at hf
  · rwa [stateOf_ne hwho (r := .settleModule key place ns) trivial] at hf

end Answers

end Loading

/-- How places stand is as the deeds tell. -/
structure World.Holds (known : String → Prop) (ds : List Deed) (w : World) : Prop where
  owner : ∀ {key key' place}, Placed ds key place → Placed ds key' place → key = key'
  made : ∀ {key place}, Placed ds key place → place < w.modules.places.size
  stands : ∀ place, w.modules.state place = standing ds place
  loaded : ∀ place ns, w.modules.state place = .loaded ns ↔ ∃ d ∈ ds, d.Settles place (some ns)
  held : ∀ {who key place}, (key, place) ∈ ((loading known).stateOf who ds).opened → w.modules.state place = .loading
  alone : ∀ {who who' key key' place}, (key, place) ∈ ((loading known).stateOf who ds).opened →
    (key', place) ∈ ((loading known).stateOf who' ds).opened → who = who'
  once : ∀ who, (((loading known).stateOf who ds).opened.map (·.2)).Nodup
  found : ∀ {who key place}, ((loading known).stateOf who ds).found = some (key, place) →
    ∃ begun w w' between, ds = begun ++ .answered who w (.findModule key) place w' :: between
  evaluates : ∀ {who key place}, (key, place) ∈ ((loading known).stateOf who ds).opened →
    ∃ begun, Evaluates begun ds who key place

/-- The places of modules are as the deeds tell: a key has the place that was found for it since the modules were last
forgotten. -/
structure World.Caches (known : String → Prop) (ds : List Deed) (w : World) : Prop extends World.Holds known ds w where
  entries : ∀ key place, Named.get? w.modules.entries key = some place ↔ PlacedSince ds key place

/-- How a place stands is read off the places alone. -/
theorem ModuleCache.state_congr {c c' : ModuleCache} (h : c'.places = c.places) (place : PlaceId) :
    c'.state place = c.state place := by
  simp only [state, h]

namespace World.Holds

/-- No place is found or settled, and no task takes one. -/
theorem keep (h : w.Holds known ds) {d : Deed} (hfinds : ∀ key place, ¬d.Finds key place)
    (hsettles : ∀ place ns, ¬d.Settles place ns) (hleaves : ∀ place st, d.leaves place st = st)
    (hopened : ∀ who, ((loading known).stateOf who (ds ++ [d])).opened.Sublist ((loading known).stateOf who ds).opened)
    (hfound : ∀ who at_, ((loading known).stateOf who (ds ++ [d])).found = some at_ →
      ((loading known).stateOf who ds).found = some at_)
    (hplaces : w'.modules.places = w.modules.places) : w'.Holds known (ds ++ [d]) where
  owner hk hk' :=
    h.owner ((placed_concat.1 hk).resolve_right (hfinds _ _)) ((placed_concat.1 hk').resolve_right (hfinds _ _))
  made hk := hplaces ▸ h.made ((placed_concat.1 hk).resolve_right (hfinds _ _))
  stands place := by rw [ModuleCache.state_congr hplaces, h.stands, standing_concat, hleaves]
  loaded place ns := by
    rw [ModuleCache.state_congr hplaces, h.loaded place ns]
    refine ⟨fun ⟨d', hd', hs⟩ => ⟨d', List.mem_append_left _ hd', hs⟩, fun ⟨d', hd', hs⟩ => ⟨d', ?_, hs⟩⟩
    refine (List.mem_append.1 hd').resolve_right fun hd' => ?_
    cases List.mem_singleton.1 hd'
    exact hsettles _ _ hs
  held ho := (ModuleCache.state_congr hplaces _).trans (h.held ((hopened _).subset ho))
  alone ho ho' := h.alone ((hopened _).subset ho) ((hopened _).subset ho')
  once who := (h.once who).sublist ((hopened who).map _)
  found hf := by
    obtain ⟨begun, w₁, w₁', between, hds⟩ := h.found (hfound _ _ hf)
    exact ⟨begun, w₁, w₁', between ++ [d], by simp [hds]⟩
  evaluates ho := by
    obtain ⟨begun, hev⟩ := h.evaluates ((hopened _).subset ho)
    exact ⟨begun, hev.concat (hsettles _)⟩

/-- Nothing happens to places. -/
theorem tell (h : w.Holds known ds) {d : Deed} (hd : ¬d.MovesPlaces) (hplaces : w'.modules.places = w.modules.places) :
    w'.Holds known (ds ++ [d]) :=
  h.keep (fun _ _ hf => hd hf.moves) (fun _ _ hs => hd hs.moves) (fun _ => Deed.leaves_of_quiet hd) (Loading.opened_quiet hd)
    (fun _ _ => Loading.found_quiet hd) hplaces

/-- The deeds tell the same of machines with the same places. -/
theorem congr (h : w.Holds known ds) (hplaces : w'.modules.places = w.modules.places) : w'.Holds known ds where
  owner := h.owner
  made := hplaces ▸ h.made
  stands place := (ModuleCache.state_congr hplaces place).trans (h.stands place)
  loaded place ns := ModuleCache.state_congr hplaces place ▸ h.loaded place ns
  held ho := (ModuleCache.state_congr hplaces _).trans (h.held ho)
  alone := h.alone
  once := h.once
  found := h.found
  evaluates := h.evaluates

/-- What is held was found. -/
theorem found_of_opened (h : w.Holds known ds) {who : TaskId} {key : String} {place : PlaceId}
    (ho : (key, place) ∈ ((loading known).stateOf who ds).opened) : Placed ds key place := by
  obtain ⟨begun, w₁, w₁', between, w₂, w₂', since, rfl, -⟩ := h.evaluates ho
  exact ⟨_, List.mem_append_right _ List.mem_cons_self, rfl, rfl⟩

/-- What a task was told of was found. -/
theorem found_of_told (h : w.Holds known ds) {who : TaskId} {key : String} {place : PlaceId}
    (hf : ((loading known).stateOf who ds).found = some (key, place)) : Placed ds key place := by
  obtain ⟨begun, w₁, w₁', between, rfl⟩ := h.found hf
  exact ⟨.answered who w₁ (.findModule key) place w₁', List.mem_append_right _ List.mem_cons_self, rfl, rfl⟩

/-- It was found before the next deed, too. -/
theorem found_concat (h : w.Holds known ds) {who : TaskId} {key : String} {place : PlaceId}
    (hf : ((loading known).stateOf who ds).found = some (key, place)) (d : Deed) :
    ∃ begun w₁ w₁' between, ds ++ [d] = begun ++ .answered who w₁ (.findModule key) place w₁' :: between := by
  obtain ⟨begun, w₁, w₁', between, hds⟩ := h.found hf
  exact ⟨begun, w₁, w₁', between ++ [d], by simp [hds]⟩

/-- One place stands otherwise after a deed. -/
theorem stands_set (h : w.Holds known ds) {d : Deed} {place : PlaceId} {st : PlaceState}
    (hleaves : ∀ p st', d.leaves p st' = if place = p then st else st') (hself : w'.modules.state place = st)
    (hset : ∀ p, p ≠ place → w'.modules.state p = w.modules.state p) (p : PlaceId) :
    w'.modules.state p = standing (ds ++ [d]) p := by
  rw [standing_concat, hleaves]
  split
  · rename_i hp
    exact hp ▸ hself
  · rename_i hp
    rw [hset p (Ne.symm hp), h.stands]

/-- A vacant place is held by no task. -/
theorem apart_of_vacant (h : w.Holds known ds) {who : TaskId} {key : String} {place p : PlaceId}
    (hvacant : w.modules.state place = .vacant)
    (ho : (key, p) ∈ ((loading known).stateOf who ds).opened) : p ≠ place := by
  rintro rfl
  rw [h.held ho] at hvacant
  cases hvacant

end World.Holds

namespace World.Caches

/-- A machine on which nothing was done holds no modules. -/
theorem create (files : FileTree) (source : ModuleSource) : (World.create files source).Caches known [] where
  entries key place := by
    simp only [World.create, ModuleCache.empty, Named.get?, List.find?_nil, Option.map_none]
    refine ⟨fun h => (by cases h), ?_⟩
    rintro ⟨earlier, later, heq, -, d, hd, -⟩
    rw [(List.append_eq_nil_iff.1 heq.symm).2] at hd
    cases hd
  owner h := by
    obtain ⟨d, hd, -⟩ := h
    cases hd
  made h := by
    obtain ⟨d, hd, -⟩ := h
    cases hd
  stands place := by simp [World.create, ModuleCache.empty, ModuleCache.state, standing]
  loaded place ns := by simp [World.create, ModuleCache.empty, ModuleCache.state]
  held h := by cases h
  alone h := by cases h
  once _ := List.nodup_nil
  found h := by cases h
  evaluates h := by cases h

/-- The deeds tell the same of machines with the same modules. -/
theorem congr (h : w.Caches known ds) (hmodules : w'.modules = w.modules) : w'.Caches known ds where
  toHolds := h.toHolds.congr (congrArg ModuleCache.places hmodules)
  entries := hmodules ▸ h.entries

/-- A deed that has nothing to do with places. -/
theorem tell (h : w.Caches known ds) {d : Deed} (hd : ¬d.MovesPlaces) (hcleared : d ≠ .cleared)
    (hmodules : w'.modules = w.modules) : w'.Caches known (ds ++ [d]) where
  toHolds := h.toHolds.tell hd (congrArg ModuleCache.places hmodules)
  entries key place := by
    rw [placedSince_concat hcleared, or_iff_left fun hf : d.Finds key place => hd hf.moves, hmodules]
    exact h.entries key place

/-- The modules are forgotten. -/
theorem clear (h : w.Caches known ds) : World.Caches known (ds ++ [.cleared]) { w with modules := w.modules.clear } where
  toHolds := h.toHolds.tell id rfl
  entries _ _ := ⟨fun hk => (nomatch hk), fun hf => (not_placedSince_cleared hf).elim⟩

/-- A place that is found for a key is no other key's. -/
theorem eq_of_placed (h : w.Caches known ds) {key k : String} (hk : Placed ds k (w.modules.find key).1) : k = key := by
  rcases w.modules.find_cases key with ⟨hget, -⟩ | ⟨-, hnew, -⟩
  · exact h.owner hk ((h.entries key _).1 hget).placed
  · exact absurd (hnew ▸ h.made hk) (Nat.lt_irrefl _)

/-- A place that is found is there. -/
theorem find_lt (h : w.Caches known ds) (key : String) : (w.modules.find key).1 < (w.modules.find key).2.places.size := by
  rcases w.modules.find_cases key with ⟨hget, heq⟩ | ⟨-, hnew, heq⟩
  · rw [heq]
    exact h.made ((h.entries key _).1 hget).placed
  · rw [heq, hnew, Array.size_push]
    exact Nat.lt_succ_self _

/-- A place is found, or made. -/
theorem find (h : w.Caches known ds) {who : TaskId} {key : String} {place : PlaceId}
    (hx : w.perform who (.findModule key) = (some place, w')) :
    w'.Caches known (ds ++ [.answered who w (.findModule key) place w']) := by
  have hplace : (w.modules.find key).1 = place := Option.some.inj (congrArg Prod.fst hx)
  have hmodules : w'.modules = (w.modules.find key).2 := congrArg (fun x => x.2.modules) hx.symm
  have hstate (p : PlaceId) : w'.modules.state p = w.modules.state p := hmodules ▸ w.modules.state_find key p
  have hfinds {k : String} {p : PlaceId} : Deed.Finds k p (.answered who w (.findModule key) place w') ↔ key = k ∧
    place = p := Iff.rfl
  refine ⟨⟨fun {k k' p} hk hk' => ?_, fun {k p} hk => ?_, fun p => ?_, fun p ns => ?_, fun ho => ?_, fun ho ho' => ?_,
    fun who' => ?_, fun {who' k p} hf => ?_, fun {who' k p} ho => ?_⟩, fun k p => ?_⟩
  · rw [placed_concat, hfinds] at hk hk'
    rcases hk with hk | ⟨hk, rfl⟩
    · rcases hk' with hk' | ⟨hk', rfl⟩
      · exact h.owner hk hk'
      · exact (h.eq_of_placed (hplace ▸ hk)).trans hk'
    · rcases hk' with hk' | ⟨hk', -⟩
      · exact hk.symm.trans (h.eq_of_placed (hplace ▸ hk')).symm
      · exact hk.symm.trans hk'
  · rw [hmodules]
    rcases placed_concat.1 hk with hk | ⟨rfl, rfl⟩
    · exact Nat.lt_of_lt_of_le (h.made hk) (w.modules.size_le_find key)
    · exact hplace ▸ h.find_lt key
  · rw [hstate, h.stands, standing_concat]
    rfl
  · rw [hstate, h.loaded]
    simp [or_and_right, exists_or, Deed.Settles]
  · rw [Loading.opened_find] at ho
    exact (hstate _).trans (h.held ho)
  · rw [Loading.opened_find] at ho ho'
    exact h.alone ho ho'
  · rw [Loading.opened_find]
    exact h.once who'
  · rcases Loading.found_find hf with ⟨rfl, heq⟩ | hf
    · obtain ⟨rfl, rfl⟩ := Prod.mk.inj heq
      exact ⟨ds, w, w', [], rfl⟩
    · exact h.found_concat hf _
  · rw [Loading.opened_find] at ho
    obtain ⟨begun, hev⟩ := h.evaluates ho
    exact ⟨begun, hev.concat fun _ => id⟩
  · rw [placedSince_concat (d := .answered who w (.findModule key) place w') (fun heq => by cases heq), hfinds,
      ← h.entries k p, hmodules, ModuleCache.get?_find, hplace]

/-- A vacant place is granted to the task that claims it. -/
theorem grant (h : w.Caches known ds) {who : TaskId} {key : String} {place : PlaceId}
    (hfound : ((loading known).stateOf who ds).found = some (key, place)) (hvacant : w.modules.state place = .vacant)
    (hmodules : w'.modules = w.modules.put place .loading) :
    w'.Caches known (ds ++ [.answered who w (.claimModule key place) none w']) := by
  have hlt : place < w.modules.places.size := h.made (h.found_of_told hfound)
  have hnone (k : String) (p : PlaceId) : ¬Deed.Finds k p (.answered who w (.claimModule key place) none w') := id
  have hset : ∀ p, p ≠ place → w'.modules.state p = w.modules.state p :=
    fun p hne => hmodules ▸ ModuleCache.state_put_ne hne _
  have hloading : w'.modules.state place = .loading := hmodules ▸ ModuleCache.state_put_self hlt _
  refine ⟨⟨fun hk hk' => h.owner ((placed_concat_of_not (hnone _ _)).1 hk) ((placed_concat_of_not (hnone _ _)).1 hk'),
    fun hk => ?_,
    h.stands_set (fun _ _ => rfl) hloading hset, fun p ns => ?_, fun {who' k p} ho => ?_,
    fun {who' who'' k k' p} ho ho' => ?_, fun who' => ?_,
    fun hf => h.found_concat (Loading.found_claim hf) _, fun {who' k p} ho => ?_⟩, fun k p => ?_⟩
  · rw [hmodules]
    simpa [ModuleCache.put] using h.made ((placed_concat_of_not (hnone _ _)).1 hk)
  · have hdeeds : (∃ d ∈ ds ++ [.answered who w (.claimModule key place) none w'], d.Settles p (some ns)) ↔
        ∃ d ∈ ds, d.Settles p (some ns) := by
      simp [or_and_right, exists_or, Deed.Settles]
    rw [hdeeds, ← h.loaded]
    by_cases hp : p = place
    · subst hp
      rw [hloading, hvacant]
      simp
    · rw [hset p hp]
  · rcases Loading.opened_claim ho with hold | ⟨-, -, rfl⟩
    · exact (hset p (h.apart_of_vacant hvacant hold)).trans (h.held hold)
    · exact hloading
  · rcases Loading.opened_claim ho with hold | ⟨hwho, -, hp⟩
    · rcases Loading.opened_claim ho' with hold' | ⟨-, -, hp⟩
      · exact h.alone hold hold'
      · exact absurd hp (h.apart_of_vacant hvacant hold)
    · rcases Loading.opened_claim ho' with hold' | ⟨hwho', -, -⟩
      · exact absurd hp (h.apart_of_vacant hvacant hold')
      · exact hwho.trans hwho'.symm
  · by_cases hwho : who = who'
    · subst hwho
      rw [Loading.stateOf_self (r := .claimModule key place) trivial]
      change (((((loading known).stateOf who ds).opened ++ [(key, place)]).map (·.2))).Nodup
      rw [List.map_append, List.nodup_append]
      refine ⟨h.once who, by simp, fun p hp p' hp' heq => ?_⟩
      obtain ⟨⟨k, p⟩, ho, rfl⟩ := List.mem_map.1 hp
      exact h.apart_of_vacant hvacant ho (heq.trans (List.mem_singleton.1 hp'))
    · rw [Loading.stateOf_ne hwho (r := .claimModule key place) trivial]
      exact h.once who'
  · rcases Loading.opened_claim ho with hold | ⟨rfl, rfl, rfl⟩
    · obtain ⟨begun, hev⟩ := h.evaluates hold
      exact ⟨begun, hev.concat fun _ => id⟩
    · obtain ⟨begun, w₁, w₁', between, hds⟩ := h.found hfound
      exact ⟨begun, w₁, w₁', between, w, w', [], by simp [hds], fun _ hd => by cases hd⟩
  · rw [placedSince_concat (d := .answered who w (.claimModule key place) none w') (fun heq => by cases heq),
      or_iff_left (hnone k p), hmodules]
    exact h.entries k p

/-- A place is claimed. -/
theorem claim (h : w.Caches known ds) {who : TaskId} {key : String} {place : PlaceId} {x : Option Namespace}
    (hneeds : (loading known).Needs ((loading known).stateOf who ds) (.claimModule key place))
    (hx : w.perform who (.claimModule key place) = (some x, w')) :
    w'.Caches known (ds ++ [.answered who w (.claimModule key place) x w']) := by
  simp only [World.perform, ModuleCache.claim] at hx
  cases hstate : w.modules.state place with
  | loading =>
    rw [hstate] at hx
    cases hx
  | loaded ns =>
    rw [hstate] at hx
    obtain ⟨rfl, rfl⟩ : some ns = x ∧ w = w' := ⟨Option.some.inj (congrArg Prod.fst hx), congrArg Prod.snd hx⟩
    refine ⟨h.toHolds.keep (fun _ _ => id) (fun _ _ => id) (fun _ _ => rfl) (fun who' => ?_)
      (fun _ _ => Loading.found_claim) rfl, fun k p => ?_⟩
    · rw [Loading.opened_claim_loaded]
    · rw [placedSince_concat (d := .answered who w (.claimModule key place) (some ns) w) (fun heq => by cases heq)]
      exact (h.entries k p).trans (or_iff_left id).symm
  | vacant =>
    rw [hstate] at hx
    obtain rfl : none = x := Option.some.inj (congrArg Prod.fst hx)
    exact h.grant hneeds.1 hstate (congrArg (fun x => x.2.modules) hx.symm)

/-- What is still held when a place has been settled was held before, and is another place. -/
theorem opened_settle (h : w.Caches known ds) {who who' : TaskId} {key k : String} {place p : PlaceId}
    {ns : Option Namespace} {x : Unit} {rest : List (String × PlaceId)}
    (hrest : ((loading known).stateOf who ds).opened = rest ++ [(key, place)])
    (ho : (k, p) ∈ ((loading known).stateOf who' (ds ++ [.answered who w (.settleModule key place ns) x w'])).opened) :
    (k, p) ∈ ((loading known).stateOf who' ds).opened ∧ p ≠ place := by
  have hr : Request.ConcernsPlace (.settleModule key place ns) := trivial
  have hheld : (key, place) ∈ ((loading known).stateOf who ds).opened :=
    hrest ▸ List.mem_append_right _ (List.mem_singleton_self _)
  by_cases hwho : who = who'
  · subst hwho
    rw [Loading.stateOf_self hr] at ho
    change (k, p) ∈ ((loading known).stateOf who ds).opened.dropLast at ho
    rw [hrest, List.dropLast_concat] at ho
    refine ⟨hrest ▸ List.mem_append_left _ ho, ?_⟩
    have honce := h.once who
    rw [hrest, List.map_append, List.nodup_append] at honce
    exact honce.2.2 p (List.mem_map_of_mem ho) place (List.mem_singleton_self _)
  · rw [Loading.stateOf_ne hwho hr] at ho
    refine ⟨ho, ?_⟩
    rintro rfl
    exact hwho (h.alone hheld ho)

/-- A place that is held was not settled with a namespace. -/
theorem not_settled_of_held (h : w.Caches known ds) {who : TaskId} {key : String} {place : PlaceId}
    (hheld : (key, place) ∈ ((loading known).stateOf who ds).opened) (ns : Namespace) :
    ¬∃ d ∈ ds, d.Settles place (some ns) := by
  intro hd
  have hstate := (h.loaded place ns).2 hd
  rw [h.held hheld] at hstate
  nomatch hstate

/-- A place is settled. -/
theorem settle (h : w.Caches known ds) {who : TaskId} {key : String} {place : PlaceId} {ns : Option Namespace} {x : Unit}
    (hneeds : (loading known).Needs ((loading known).stateOf who ds) (.settleModule key place ns))
    (hx : w.perform who (.settleModule key place ns) = (some x, w')) :
    w'.Caches known (ds ++ [.answered who w (.settleModule key place ns) x w']) := by
  have hr : Request.ConcernsPlace (.settleModule key place ns) := trivial
  obtain ⟨rest, hrest⟩ := hneeds
  have hheld : (key, place) ∈ ((loading known).stateOf who ds).opened :=
    hrest ▸ List.mem_append_right _ (List.mem_singleton_self _)
  have hlt : place < w.modules.places.size := h.made (h.found_of_opened hheld)
  have hmodules : w'.modules = w.modules.settle place ns := congrArg (fun x => x.2.modules) hx.symm
  have hself : w'.modules.state place = ns.elim .vacant .loaded := hmodules ▸ ModuleCache.state_settle_self hlt ns
  have hset : ∀ p, p ≠ place → w'.modules.state p = w.modules.state p :=
    fun p hne => hmodules ▸ ModuleCache.state_settle_ne hne ns
  have hsize : w'.modules.places.size = w.modules.places.size := hmodules ▸ ModuleCache.size_settle w.modules place ns
  have hnone : ∀ k p, ¬Deed.Finds k p (.answered who w (.settleModule key place ns) x w') := fun _ _ => id
  refine ⟨⟨fun hk hk' => h.owner ((placed_concat_of_not (hnone _ _)).1 hk) ((placed_concat_of_not (hnone _ _)).1 hk'),
    fun hk => hsize ▸ h.made ((placed_concat_of_not (hnone _ _)).1 hk), h.stands_set (fun _ _ => rfl) hself hset,
    fun p ns' => ?_, fun ho => ?_,
    fun ho ho' => h.alone (h.opened_settle hrest ho).1 (h.opened_settle hrest ho').1, fun who' => ?_,
    fun hf => h.found_concat (Loading.found_settle hf) _, fun {who' k p} ho => ?_⟩, fun k p => ?_⟩
  · have hdeeds : (∃ d ∈ ds ++ [.answered who w (.settleModule key place ns) x w'], d.Settles p (some ns')) ↔
        (∃ d ∈ ds, d.Settles p (some ns')) ∨ place = p ∧ ns = some ns' := by
      simp [or_and_right, exists_or, Deed.Settles]
    rw [hdeeds]
    by_cases hp : p = place
    · subst hp
      rw [hself, or_iff_right (h.not_settled_of_held hheld ns')]
      cases ns <;> simp
    · rw [hset p hp, h.loaded, or_iff_left fun hd => hp hd.1.symm]
  · obtain ⟨ho, hne⟩ := h.opened_settle hrest ho
    exact (hset _ hne).trans (h.held ho)
  · by_cases hwho : who = who'
    · subst hwho
      rw [Loading.stateOf_self hr]
      exact (h.once who).sublist ((List.dropLast_sublist _).map _)
    · rw [Loading.stateOf_ne hwho hr]
      exact h.once who'
  · obtain ⟨ho, hne⟩ := h.opened_settle hrest ho
    obtain ⟨begun, hev⟩ := h.evaluates ho
    exact ⟨begun, hev.concat fun ns' hs => hne hs.1.symm⟩
  · rw [placedSince_concat (d := .answered who w (.settleModule key place ns) x w') (fun heq => by cases heq),
      or_iff_left (hnone k p), hmodules]
    cases ns <;> exact h.entries k p

/-- A request is answered. -/
theorem answer (h : w.Caches known ds) {who : TaskId} {r : Request} {x : r.Response}
    (hneeds : (loading known).Needs ((loading known).stateOf who ds) r) (hx : w.perform who r = (some x, w')) :
    w'.Caches known (ds ++ [.answered who w r x w']) := by
  by_cases hr : r.ConcernsPlace
  · cases r with
    | findModule key => exact h.find hx
    | claimModule key place => exact h.claim hneeds hx
    | settleModule key place ns => exact h.settle hneeds hx
    | _ => exact hr.elim
  · have hmodules := w.modules_perform who hr
    rw [hx] at hmodules
    exact h.tell hr (fun heq => nomatch heq) hmodules

end World.Caches

/-- After every history the places of modules are as its deeds tell. -/
theorem History.caches {Supplied : List Deed → Value → Prop} {p : Pool} (h : History Supplied ds p)
    (hknown : ∀ who w r x w', .answered who w r x w' ∈ ds → (loading known).Told r x) : p.world.Caches known ds := by
  have hsupplied : ∀ ds v, Supplied ds v → (∀ u, .handed u ∈ ds → u.Sound (loading known).quality) →
    v.Sound (loading known).quality :=
    fun _ v _ _ => Value.sound_of_isOpen ⟨fun _ => trivial, fun _ => trivial⟩ v
  induction h with
  | create files source => exact .create files source
  | @step ds p ds' p' h hs ih =>
    have hknown' := fun who w r x w' hd => hknown who w r x w' (List.mem_append_left _ hd)
    have ih := ih hknown'
    cases hs with
    | answer hx => exact ih.answer (h.stands Loading.lawful hsupplied hknown').2.1 hx
    | @wait before who r next after w w' hx =>
      rw [List.append_nil]
      refine ih.congr ?_
      by_cases hr : r.ConcernsPlace
      · cases r with
        | findModule | settleModule => cases hx
        | claimModule key place =>
          simp only [World.perform] at hx
          split at hx
          · cases hx
            rfl
          · cases hx
          · cases hx
        | _ => exact hr.elim
      · have hmodules := w.modules_perform who hr
        rwa [hx] at hmodules
    | finish => exact ih.tell id (fun heq => by cases heq) rfl
    | giveUp | takeUp =>
      rw [List.append_nil]
      exact ih.congr rfl
  | addKernel config env h ih => exact (ih hknown).congr rfl
  | compile h hk hcompile ih =>
    obtain ⟨scope, -, rfl⟩ := compile_block hcompile
    exact (ih fun who w r x w' hd => hknown who w r x w' (List.mem_append_left _ hd)).tell id (fun heq => by cases heq) rfl
  | launch l input h hblock hk hvalues hlaunch ih =>
    cases hlaunch
    exact (ih hknown).congr rfl
  | setVar name h hk hv ih =>
    refine (ih fun who w r x w' hd => hknown who w r x w' (List.mem_append_left _ hd)).tell id (fun heq => by cases heq) ?_
    unfold World.setVar
    rw [hk]
    rfl
  | handOut h hv ih =>
    exact (ih fun who w r x w' hd => hknown who w r x w' (List.mem_append_left _ hd)).tell id (fun heq => by cases heq) rfl
  | @takeCollected ds tasks w c h ih => exact (ih hknown).congr (World.Quiet.takeCollected w c).modules
  | takeEnded h ht ih => exact (ih hknown).congr (World.Quiet.takeEnded ht).modules
  | setEnv k name text h ih => exact (ih hknown).congr rfl
  | identify fresh h ih => exact (ih hknown).congr rfl
  | clearModules h ih => exact (ih fun who w r x w' hd => hknown who w r x w' (List.mem_append_left _ hd)).clear

end DualShell
