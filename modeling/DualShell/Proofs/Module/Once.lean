import DualShell.Proofs.Flow.Ends
import DualShell.Proofs.Module.Cache

/-!
# Modules are loaded once

What a `use` does is settled by what it is answered (`Evaluator.ends_use`): it binds the namespace that was there at the
place of the module, or evaluates the module and settles the place with what came of it. So once an evaluation ended in
success, every `use` that finds the place binds that namespace, and the module is not evaluated again; one that failed
leaves nothing behind (`History.loads_once`). The places are those that were found since the modules were last
forgotten: an evaluation that was under way then goes on at a place of its own.
-/

namespace DualShell

open Eval

/-! ## What a use does -/

namespace Evaluator

/-- How the loading of a module whose place was found ends. -/
inductive Inits (e : Evaluator) (spec key : String) (place : PlaceId) (ctx : Context) :
    List Exchange → Except Exception Namespace → Prop
  /-- The module was there. -/
  | had (ns : Namespace) : Inits e spec key place ctx [⟨.claimModule key place, some ns⟩] (.ok ns)
  /-- The module is evaluated here, and the place is settled with what comes of it. -/
  | evaluated {es : List Exchange} {o : Except Exception Namespace} (h : (e.evalModule spec key ctx).Ends es o) :
      Inits e spec key place ctx (⟨.claimModule key place, none⟩ :: es ++ [⟨.settleModule key place o.toOption, ()⟩]) o

/-- How the loading of a module ends. -/
inductive Loads (e : Evaluator) (spec : String) (ctx : Context) : List Exchange → Except Exception Namespace → Prop
  | unresolved (err : ModuleError) :
      Loads e spec ctx [⟨.resolveModule ctx.kernel spec, .error err⟩] (.error (.ofCause err.cause))
  /-- The module is being loaded around here. -/
  | circular {key : String} (hkey : key ∈ ctx.imports) :
      Loads e spec ctx [⟨.resolveModule ctx.kernel spec, .ok key⟩] (.error (.ofCause (circularImport ctx.imports key)))
  | found {key : String} {place : PlaceId} {es : List Exchange} {r : Except Exception Namespace} (hkey : key ∉ ctx.imports)
      (h : e.Inits spec key place ctx es r) :
      Loads e spec ctx (⟨.resolveModule ctx.kernel spec, .ok key⟩ :: ⟨.findModule key, place⟩ :: es) r

variable {e : Evaluator} {spec key : String} {place : PlaceId} {ref : Ref} {ctx : Context} {es : List Exchange}
  {r : Except Exception Namespace}

/-- The loading of a module whose place was found ends as `Inits` says. -/
theorem ends_initModule : (e.initModule spec key place ctx).Ends es r ↔ e.Inits spec key place ctx es r := by
  unfold initModule
  rw [ends_ask_bind]
  constructor
  · rintro ⟨x, rest, rfl, h⟩
    cases x with
    | some ns =>
      obtain ⟨rfl, rfl⟩ := ends_pure.1 h
      exact .had ns
    | none =>
      obtain ⟨es₁, es₂, o, rfl, heval, hsettle⟩ := ends_attempt_bind.1 h
      cases o with
      | ok ns =>
        obtain ⟨⟨⟩, rest, rfl, hlast⟩ := ends_ask_bind.1 hsettle
        obtain ⟨rfl, rfl⟩ := ends_pure.1 hlast
        exact .evaluated heval
      | error ex =>
        obtain ⟨⟨⟩, rest, rfl, hlast⟩ := ends_ask_bind.1 hsettle
        obtain ⟨rfl, rfl⟩ := ends_throw.1 hlast
        exact .evaluated heval
  · intro h
    cases h with
    | had ns => exact ⟨some ns, [], rfl, ends_pure.2 ⟨rfl, rfl⟩⟩
    | @evaluated es r heval =>
      refine ⟨none, _, rfl, ends_attempt_bind.2 ⟨es, [⟨.settleModule key place r.toOption, ()⟩], r, rfl, heval, ?_⟩⟩
      cases r with
      | ok ns => exact ends_ask_bind.2 ⟨(), [], rfl, ends_pure.2 ⟨rfl, rfl⟩⟩
      | error ex => exact ends_ask_bind.2 ⟨(), [], rfl, ends_throw.2 ⟨rfl, rfl⟩⟩

/-- The loading of a module ends as `Loads` says. -/
theorem ends_loadModule : (e.loadModule spec ctx).Ends es r ↔ e.Loads spec ctx es r := by
  unfold loadModule
  rw [ends_ask_bind]
  constructor
  · rintro ⟨x, rest, rfl, h⟩
    rcases ends_ofExcept_bind.1 h with ⟨c, hc, rfl, rfl⟩ | ⟨key, hkey, hload⟩
    · cases x with
      | error err =>
        cases hc
        exact .unresolved err
      | ok key => nomatch hc
    · cases x with
      | error err => nomatch hkey
      | ok key' =>
        cases hkey
        split at hload
        · rename_i hcontains
          obtain ⟨rfl, rfl⟩ := ends_fail.1 hload
          exact .circular (List.contains_iff_mem.1 hcontains)
        · rename_i hcontains
          obtain ⟨place, rest, rfl, hinit⟩ := ends_ask_bind.1 hload
          exact .found (fun hmem => hcontains (List.contains_iff_mem.2 hmem)) (ends_initModule.1 hinit)
  · intro h
    cases h with
    | unresolved err => exact ⟨.error err, [], rfl, ends_ofExcept_bind.2 (.inl ⟨err.cause, rfl, rfl, rfl⟩)⟩
    | @circular key hkey =>
      refine ⟨.ok key, [], rfl, ends_ofExcept_bind.2 (.inr ⟨key, rfl, ?_⟩)⟩
      rw [if_pos (List.contains_iff_mem.2 hkey)]
      exact ends_fail.2 ⟨rfl, rfl⟩
    | @found key place es r hkey h =>
      refine ⟨.ok key, _, rfl, ends_ofExcept_bind.2 (.inr ⟨key, rfl, ?_⟩)⟩
      rw [if_neg fun hcontains => hkey (List.contains_iff_mem.1 hcontains)]
      exact ends_ask_bind.2 ⟨place, es, rfl, ends_initModule.2 h⟩

/-- A `use` loads the module and binds its namespace. -/
theorem ends_use {o : Outcome} : (e.evalSpecial (.load spec ref) ctx).Ends es o ↔
    (∃ ex, e.Loads spec ctx es (.error ex) ∧ o = .error ex) ∨
    ∃ es₁ es₂ ns, es = es₁ ++ es₂ ∧ e.Loads spec ctx es₁ (.ok ns) ∧ (ref.write ctx (.ns ns)).Ends es₂ o := by
  refine ends_bind.trans ?_
  simp only [ends_loadModule]

/-- The evaluation of a module begins with its text. -/
theorem evalModule_fetches (h : (e.evalModule spec key ctx).Ends es r) : ∃ x rest, es = ⟨.fetchModule key, x⟩ :: rest := by
  obtain ⟨x, rest, rfl, -⟩ := ends_ask_bind.1 h
  exact ⟨x, rest, rfl⟩

end Evaluator

/-! ## Spellings -/

namespace ModuleSpec

/-- Texts are split alike at either separator. -/
theorem split_separator {c c' : Char} (hc : isSeparator c = true) (hc' : isSeparator c' = true) (as bs : List Char) :
    split (as ++ c :: bs) = split (as ++ c' :: bs) := by
  induction as with
  | nil => simp [split, hc, hc']
  | cons a as ih => simp only [List.cons_append, split, ih]

/-- Both separators mean the same. -/
theorem segments_separator (a b : String) : segments (a ++ ":" ++ b) = segments (a ++ "/" ++ b) := by
  have hsplit : split (a.toList ++ ':' :: b.toList) = split (a.toList ++ '/' :: b.toList) := split_separator rfl rfl _ _
  simp only [segments, String.toList_append, List.append_assoc]
  exact congrArg (List.map String.ofList) hsplit

end ModuleSpec

/-- A module has one key, whichever separators its spec is written with. -/
theorem World.resolveModule_separator {w : World} {k : KernelId} {a b key : String} :
    w.resolveModule k (a ++ ":" ++ b) = .ok key ↔ w.resolveModule k (a ++ "/" ++ b) = .ok key := by
  unfold World.resolveModule ModuleSpec.path
  rw [ModuleSpec.segments_separator]
  dsimp only
  split
  · exact Iff.rfl
  · exact ⟨fun h => (nomatch h), fun h => (nomatch h)⟩

/-! ## What a history shows -/

/-- A request that belongs to the evaluation of a module: its text is fetched, or a frame is made for its body. -/
def Request.Evaluates (key : String) : Request → Prop
  | .fetchModule k => k = key
  | .activate none _ imports => imports.getLast? = some key
  | _ => False

/-- A place is claimed. -/
def Deed.Claims (place : PlaceId) : Deed → Prop
  | .answered _ _ (.claimModule _ p) _ _ => p = place
  | _ => False

/-- The loading of modules in a stretch of deeds in which they are not forgotten. -/
structure LoadsOnce (before stretch : List Deed) : Prop where
  /-- Uses that find a place find the same one if they are of one module, and different ones otherwise. -/
  place : ∀ {key key' : String} {place place' : PlaceId}, Placed stretch key place → Placed stretch key' place' →
    (key = key' ↔ place = place')
  /-- A module is fetched, and its body run, only by a task that found its place, was granted it, and has not settled it. -/
  inside : ∀ {earlier later : List Deed} {who : TaskId} {w : World} {r : Request} {x : r.Response} {w' : World}
    {key : String}, stretch = earlier ++ .answered who w r x w' :: later → r.Evaluates key →
    ∃ begun place, Evaluates begun (before ++ earlier) who key place
  /-- After an evaluation that ended in success no other evaluation at the place ends. -/
  once : ∀ {earlier later : List Deed} {d : Deed} {key : String} {place : PlaceId} {ns : Namespace},
    stretch = earlier ++ d :: later → Placed stretch key place → d.Settles place (some ns) →
    ∀ d' ∈ later, ∀ ns', ¬d'.Settles place ns'
  /-- Every use that finds the place gets the namespace. -/
  same : ∀ {earlier later : List Deed} {d : Deed} {key : String} {place : PlaceId} {ns : Namespace},
    stretch = earlier ++ d :: later → Placed stretch key place → d.Settles place (some ns) →
    ∀ {who : TaskId} {w : World} {k : String} {x : Option Namespace} {w' : World},
    .answered who w (.claimModule k place) x w' ∈ later → x = some ns
  /-- The module is fetched and run only where it was being loaded before the stretch. -/
  quiet : ∀ {earlier later : List Deed} {d : Deed} {key : String} {place : PlaceId} {ns : Namespace},
    stretch = earlier ++ d :: later → Placed stretch key place → d.Settles place (some ns) →
    ∀ {middle latest : List Deed} {who : TaskId} {w : World} {r : Request} {x : r.Response} {w' : World},
    later = middle ++ .answered who w r x w' :: latest → r.Evaluates key →
      ∃ begun place', Evaluates begun (before ++ (earlier ++ d :: middle)) who key place' ∧ begun.length < before.length
  /-- After an evaluation that failed there is no such module, and who claims the place next evaluates it again. -/
  failed : ∀ {earlier later : List Deed} {who : TaskId} {w w' : World} {key : String} {place : PlaceId},
    stretch = earlier ++ .answered who w (.settleModule key place none) () w' :: later →
    Placed earlier key place → w'.modules.get? key = none ∧ key ∉ w'.modules.keys ∧
      ∀ {middle latest : List Deed} {who₁ : TaskId} {w₁ : World} {k : String} {x : Option Namespace} {w₁' : World},
      later = middle ++ .answered who₁ w₁ (.claimModule k place) x w₁' :: latest →
        (∀ d ∈ middle, ¬d.Claims place) → x = none

/-- Any key may be that of a module. -/
abbrev anyKey : String → Prop := fun _ => True

section Deeds

variable {ds ds' : List Deed} {place : PlaceId}

/-- A deed that neither claims nor settles a place leaves it as it is. -/
theorem Deed.leaves_of_not {d : Deed} (hclaims : ¬d.Claims place) (hsettles : ∀ ns, ¬d.Settles place ns) (st : PlaceState) :
    d.leaves place st = st := by
  cases d with
  | answered who w r x w' =>
    cases r with
    | claimModule k p =>
      cases x with
      | none => exact if_neg hclaims
      | some ns => rfl
    | settleModule k p ns => exact if_neg fun hp => hsettles ns ⟨hp, rfl⟩
    | _ => rfl
  | _ => rfl

/-- A deed that settles a place leaves it vacant or with the namespace. -/
theorem Deed.leaves_of_settles {d : Deed} {ns : Option Namespace} (h : d.Settles place ns) (st : PlaceState) :
    d.leaves place st = ns.elim .vacant .loaded := by
  cases d with
  | answered who w r x w' =>
    cases r with
    | settleModule k p ns' =>
      obtain ⟨rfl, rfl⟩ := h
      exact if_pos rfl
    | _ => exact h.elim
  | _ => exact h.elim

/-- Deeds that neither claim nor settle a place leave it as it is. -/
theorem standing_append (h : ∀ d ∈ ds', ¬d.Claims place ∧ ∀ ns, ¬d.Settles place ns) :
    standing (ds ++ ds') place = standing ds place := by
  unfold standing
  rw [List.foldl_append]
  generalize ds.foldl (Deed.leaves place) .vacant = st
  induction ds' with
  | nil => rfl
  | cons d ds' ih =>
    obtain ⟨hclaims, hsettles⟩ := h d List.mem_cons_self
    rw [List.foldl_cons, d.leaves_of_not hclaims hsettles]
    exact ih fun d' hd' => h d' (List.mem_cons_of_mem _ hd')

/-- What stands after the first of two lists belongs to the second. -/
theorem mem_of_append_eq {α : Type} {as bs cs es : List α} {x : α} (h : as ++ bs = cs ++ x :: es)
    (hlen : as.length ≤ cs.length) : x ∈ bs := by
  rcases List.append_eq_append_iff.1 h with ⟨mid, rfl, rfl⟩ | ⟨mid, rfl, hrest⟩
  · exact List.mem_append_right _ List.mem_cons_self
  · rw [List.length_append] at hlen
    obtain rfl := List.length_eq_zero_iff.1 (by omega : mid.length = 0)
    rw [List.nil_append] at hrest
    exact hrest ▸ List.mem_cons_self

/-- What stands neither before a member of a list nor in its place stands after it. -/
theorem mem_after {α : Type} {as bs cs es : List α} {x y : α} (h : as ++ x :: bs = cs ++ y :: es) (hne : x ≠ y)
    (hx : x ∉ es) : y ∈ bs := by
  rcases List.append_eq_append_iff.1 h with ⟨mid, rfl, hrest⟩ | ⟨mid, rfl, hrest⟩
  · cases mid with
    | nil => exact absurd (List.cons.inj hrest).1 hne
    | cons x' mid =>
      rw [(List.cons.inj hrest).2]
      exact List.mem_append_right _ List.mem_cons_self
  · cases mid with
    | nil => exact absurd (List.cons.inj hrest).1.symm hne
    | cons y' mid =>
      rw [(List.cons.inj hrest).2] at hx
      exact absurd (List.mem_append_right _ List.mem_cons_self) hx

end Deeds

namespace History

variable {Supplied : List Deed → Value → Prop} {ds before stretch after earlier later : List Deed} {p : Pool}
    {who : TaskId} {w w' : World}
  {r : Request} {x : r.Response}

/-- In every history the deeds tell which modules are held. -/
theorem anyCaches (h : History Supplied ds p) : p.world.Caches anyKey ds :=
  h.caches fun _ _ r _ _ _ => by cases r <;> first | trivial | exact fun _ _ => trivial

/-- When a request was answered, the places were as the deeds before it tell, and the request was allowed. -/
theorem asked_caches (h : History Supplied (earlier ++ .answered who w r x w' :: later) p) :
    w.Caches anyKey earlier ∧ (loading anyKey).Needs ((loading anyKey).stateOf who earlier) r ∧
    w.perform who r = (some x, w') := by
  obtain ⟨before, next, after, hearlier, hx⟩ := h.asked
  refine ⟨hearlier.anyCaches, ?_, hx⟩
  have hneeds := h.conforms (P := loading anyKey) Loading.lawful
    (fun _ v _ _ => Value.sound_of_isOpen ⟨fun _ => trivial, fun _ => trivial⟩ v)
    fun _ _ r _ _ _ => by cases r <;> first | trivial | exact fun _ _ => trivial
  exact hneeds.2.1

/-- What belongs to the evaluation of a module is asked by a task that holds the place of the module, the latest that it
claimed. -/
theorem opened_of_evaluates {s : Loading} {key : String} (h : (loading anyKey).Needs s r) (hr : r.Evaluates key) :
    ∃ place, (key, place) ∈ s.opened := by
  cases r with
  | fetchModule k =>
    obtain rfl : k = key := hr
    obtain ⟨place, rest, hopened⟩ := h
    exact ⟨place, hopened ▸ List.mem_append_right _ (List.mem_singleton_self _)⟩
  | activate home vars imports =>
    cases home with
    | some home => exact hr.elim
    | none =>
      obtain ⟨hchain, hne⟩ := h
      obtain ⟨rest, ⟨k, place⟩, hopened⟩ := (List.eq_nil_or_concat s.opened).resolve_left (hne rfl)
      rw [List.concat_eq_append] at hopened
      have hkey : imports.getLast? = some key := hr
      rw [← hchain.exact, Loading.chain, hopened] at hkey
      obtain rfl : k = key := by simpa using hkey
      exact ⟨place, hopened ▸ List.mem_append_right _ (List.mem_singleton_self _)⟩
  | _ => exact hr.elim

/-- What belongs to the evaluation of a module is asked in the course of one, at a place that is held. -/
theorem evaluates {key : String} (h : History Supplied (earlier ++ .answered who w r x w' :: later) p)
    (hr : r.Evaluates key) :
    ∃ begun place, (key, place) ∈ ((loading anyKey).stateOf who earlier).opened ∧ Evaluates begun earlier who key place := by
  obtain ⟨hcaches, hneeds, -⟩ := h.asked_caches
  obtain ⟨place, ho⟩ := opened_of_evaluates hneeds hr
  obtain ⟨begun, hev⟩ := hcaches.evaluates ho
  exact ⟨begun, place, ho, hev⟩

section Settled

variable {d d' : Deed} {place : PlaceId} {ns : Namespace}

/-- A place that was settled with a namespace holds it, and nobody holds the place. -/
theorem loaded_of_settled (h : History Supplied (earlier ++ .answered who w r x w' :: later) p) (hd : d ∈ earlier)
    (hsettles : d.Settles place (some ns)) :
    w.modules.state place = .loaded ns ∧ ∀ key, (key, place) ∉ ((loading anyKey).stateOf who earlier).opened := by
  obtain ⟨hcaches, -, -⟩ := h.asked_caches
  have hloaded := (hcaches.loaded place ns).2 ⟨d, hd, hsettles⟩
  refine ⟨hloaded, fun key ho => ?_⟩
  rw [hcaches.held ho] at hloaded
  nomatch hloaded

/-- A place that was settled with a namespace is settled no more. -/
theorem not_settles (h : History Supplied (earlier ++ d' :: later) p) (hd : d ∈ earlier)
    (hsettles : d.Settles place (some ns)) (ns' : Option Namespace) : ¬d'.Settles place ns' := by
  intro hs
  cases d' with
  | answered who w r x w' =>
    cases r with
    | settleModule key place' ns' =>
      obtain ⟨rfl, -⟩ := hs
      obtain ⟨-, ⟨rest, hrest⟩, -⟩ := h.asked_caches
      exact (h.loaded_of_settled hd hsettles).2 key (hrest ▸ List.mem_append_right _ (List.mem_singleton_self _))
    | _ => exact hs
  | _ => exact hs

/-- Who claims a place is told the namespace that it was settled with. -/
theorem claim_of_settled {key : String} {x : Option Namespace}
    (h : History Supplied (earlier ++ .answered who w (.claimModule key place) x w' :: later) p) (hd : d ∈ earlier)
    (hsettles : d.Settles place (some ns)) : x = some ns := by
  obtain ⟨-, -, hx⟩ := h.asked_caches
  simp only [World.perform, ModuleCache.claim, (h.loaded_of_settled hd hsettles).1] at hx
  exact (Option.some.inj (congrArg Prod.fst hx)).symm

/-- Who settles a place that was settled without a namespace claimed it in the meantime. -/
theorem claimed_of_settles {middle : List Deed} {ns' : Option Namespace}
    (h : History Supplied (earlier ++ d :: middle ++ d' :: later) p)
    (hd : d.Settles place none) (hd' : d'.Settles place ns') : ∃ c ∈ middle, c.Claims place := by
  cases d' with
  | answered who w r x w' =>
    cases r with
    | settleModule key place' ns' =>
      obtain ⟨rfl, rfl⟩ := hd'
      obtain ⟨hcaches, ⟨rest, hrest⟩, -⟩ := h.asked_caches
      obtain ⟨begun, w₁, w₁', between, w₂, w₂', since, hds, hsince⟩ :=
        hcaches.evaluates (hrest ▸ List.mem_append_right _ (List.mem_singleton_self _))
      rw [← List.cons_append, ← List.append_assoc] at hds
      refine ⟨_, mem_after hds ?_ fun hmem => hsince _ hmem none hd, rfl⟩
      rintro rfl
      exact hd
    | _ => exact hd'.elim
  | _ => exact hd'.elim

end Settled

section Stretch

variable {key key' : String} {place place' : PlaceId}

/-- While the modules are not forgotten, a key has one place. -/
theorem one_place (h : History Supplied (before ++ stretch ++ after) p) (hclear : .cleared ∉ stretch)
    (hfound : Placed stretch key place) (hfound' : Placed stretch key place') : place = place' := by
  obtain ⟨p', hstretch⟩ := h.upTo
  have hentries := hstretch.anyCaches.entries
  have hget := (hentries key place).2 ⟨before, stretch, rfl, hclear, hfound⟩
  have hget' := (hentries key place').2 ⟨before, stretch, rfl, hclear, hfound'⟩
  exact Option.some.inj (hget.symm.trans hget')

/-- A place has one key. -/
theorem one_key (h : History Supplied (before ++ stretch ++ after) p) (hfound : Placed stretch key place)
    (hfound' : Placed stretch key' place) : key = key' := by
  obtain ⟨p', hstretch⟩ := h.upTo
  obtain ⟨d, hd, hfinds⟩ := hfound
  obtain ⟨d', hd', hfinds'⟩ := hfound'
  exact hstretch.anyCaches.owner ⟨d, List.mem_append_right _ hd, hfinds⟩ ⟨d', List.mem_append_right _ hd', hfinds'⟩

/-- An evaluation that goes on at a place other than the one its module was found at in the stretch began before it. -/
theorem begun_before {begun : List Deed} (h : History Supplied (before ++ stretch ++ after) p) (hclear : .cleared ∉ stretch)
    (hearlier : earlier <+: stretch) (hev : Evaluates begun (before ++ earlier) who key place')
    (hfound : Placed stretch key place) (hne : place ≠ place') : begun.length < before.length := by
  refine Nat.lt_of_not_le fun hle => hne ?_
  obtain ⟨w₁, w₁', between, w₂, w₂', since, hds, -⟩ := hev
  exact h.one_place hclear hfound ⟨.answered who w₁ (.findModule key) place' w₁',
    hearlier.subset (mem_of_append_eq hds hle), rfl, rfl⟩

/-- A place that is settled without a namespace is no module that can be had. -/
theorem unloaded_of_settled {earlier later : List Deed} {x : Unit}
    (h : History Supplied (before ++ earlier ++ .answered who w (.settleModule key place none) x w' :: later) p)
    (hclear : .cleared ∉ earlier) (hfound : Placed earlier key place) : w'.modules.get? key = none := by
  obtain ⟨hcaches, hneeds, hx⟩ := h.asked_caches
  have hcaches' := hcaches.answer hneeds hx
  have hsettles : Deed.Settles place none (.answered who w (.settleModule key place none) x w') := ⟨rfl, rfl⟩
  cases hget : w'.modules.get? key with
  | none => rfl
  | some ns =>
    obtain ⟨place', hentry, hstate⟩ := ModuleCache.get?_eq_some.1 hget
    have hsince : PlacedSince (before ++ earlier ++ [.answered who w (.settleModule key place none) x w']) key place :=
      (placedSince_concat (d := .answered who w (.settleModule key place none) x w') fun heq => by cases heq).2
        (.inl ⟨before, earlier, rfl, hclear, hfound⟩)
    obtain rfl : place = place' := Option.some.inj (((hcaches'.entries key place).2 hsince).symm.trans hentry)
    rw [hcaches'.stands, standing_concat, Deed.leaves_of_settles hsettles] at hstate
    nomatch hstate

/-- Who claims a place first after it was settled without a namespace is granted it. -/
theorem claim_of_vacated {middle : List Deed} {x : Option Namespace} {d : Deed}
    (h : History Supplied (earlier ++ d :: middle ++ .answered who w (.claimModule key place) x w' :: later) p)
    (hd : d.Settles place none) (hclaims : ∀ c ∈ middle, ¬c.Claims place) : x = none := by
  obtain ⟨hcaches, -, hx⟩ := h.asked_caches
  have hsettles : ∀ d' ∈ middle, ∀ ns, ¬d'.Settles place ns := by
    intro d' hd' ns hs
    obtain ⟨middle, rest, rfl⟩ := List.append_of_mem hd'
    obtain ⟨c, hc, hclaimed⟩ := claimed_of_settles (by simpa using h) hd hs
    exact hclaims c (List.mem_append_left _ hc) hclaimed
  have hvacant : standing (earlier ++ [d]) place = .vacant := by
    rw [standing_concat, d.leaves_of_settles hd]
    rfl
  have hstate : w.modules.state place = .vacant := by
    rw [hcaches.stands, List.append_cons, standing_append fun d hd => ⟨hclaims d hd, hsettles d hd⟩, hvacant]
  simp only [World.perform, ModuleCache.claim, hstate] at hx
  exact (Option.some.inj (congrArg Prod.fst hx)).symm

/-- As long as the modules are not forgotten, they are loaded once. -/
theorem loadsOnce (h : History Supplied (before ++ stretch ++ after) p) (hclear : .cleared ∉ stretch) :
    LoadsOnce before stretch where
  place hk hk' := by
    constructor
    · rintro rfl
      exact h.one_place hclear hk hk'
    · rintro rfl
      exact h.one_key hk hk'
  inside {earlier later who w r x w' key} heq hr := by
    subst heq
    have h' : History Supplied ((before ++ earlier) ++ .answered who w r x w' :: (later ++ after)) p := by simpa using h
    obtain ⟨begun, place, -, hev⟩ := h'.evaluates hr
    exact ⟨begun, place, hev⟩
  once {earlier later d key place ns} heq _ hsettles d' hd' ns' := by
    subst heq
    obtain ⟨middle, latest, rfl⟩ := List.append_of_mem hd'
    have h' : History Supplied ((before ++ (earlier ++ d :: middle)) ++ d' :: (latest ++ after)) p := by simpa using h
    exact h'.not_settles (by simp) hsettles ns'
  same {earlier later d key place ns} heq _ hsettles who w k x w' hd' := by
    subst heq
    obtain ⟨middle, latest, rfl⟩ := List.append_of_mem hd'
    have h' : History Supplied ((before ++ (earlier ++ d :: middle)) ++
        .answered who w (.claimModule k place) x w' :: (latest ++ after)) p := by
      simpa using h
    exact h'.claim_of_settled (d := d) (by simp) hsettles
  quiet {earlier later d key place ns} heq hfound hsettles middle latest who w r x w' hlater hr := by
    subst hlater heq
    have h' : History Supplied ((before ++ (earlier ++ d :: middle)) ++ .answered who w r x w' :: (latest ++ after))
      p := by simpa using h
    obtain ⟨begun, place', ho, hev⟩ := h'.evaluates hr
    -- Nobody holds the place that was settled, so the evaluation is at another.
    have hne : place ≠ place' := by
      rintro rfl
      exact (h'.loaded_of_settled (d := d) (by simp) hsettles).2 key ho
    have hearlier : earlier ++ d :: middle <+: earlier ++ d :: (middle ++ .answered who w r x w' :: latest) := by simp
    exact ⟨begun, place', hev, h.begun_before hclear hearlier hev hfound hne⟩
  failed {earlier later who w w' key place} heq hfound := by
    subst heq
    have hnone : w'.modules.get? key = none :=
      unloaded_of_settled (by simpa using h) (fun hc => hclear (List.mem_append_left _ hc)) hfound
    refine ⟨hnone, fun hkey => ?_, fun {middle latest who₁ w₁ k x w₁'} hlater hclaims => ?_⟩
    · rw [ModuleCache.mem_keys, hnone] at hkey
      cases hkey
    · subst hlater
      have h' : History Supplied (before ++ earlier ++ .answered who w (.settleModule key place none) () w' :: middle ++
          .answered who₁ w₁ (.claimModule k place) x w₁' :: (latest ++ after)) p := by simpa using h
      exact h'.claim_of_vacated ⟨rfl, rfl⟩ hclaims

end Stretch

/-- What can be had of the modules are the namespaces that their places were settled with since they were forgotten last. -/
theorem visible {key : String} {ns : Namespace} (h : History Supplied ds p) :
    p.world.modules.get? key = some ns ↔ ∃ place, PlacedSince ds key place ∧ ∃ d ∈ ds, d.Settles place (some ns) := by
  rw [ModuleCache.get?_eq_some]
  simp only [h.anyCaches.entries, h.anyCaches.loaded]

/-- Modules are loaded once. A `use` binds the namespace that it finds or that it evaluates the module for, and settles
the place with what that came to; how its spec is spelled does not matter. As long as the modules are not forgotten,
whatever kernels and tasks there are and however they take turns, a module is evaluated to success at most once among
the uses that find its place, later ones bind the same namespace and evaluate nothing, and an evaluation that fails
leaves nothing behind, so that the next one evaluates again. -/
theorem modules_once (h : History Supplied (before ++ stretch ++ after) p) (hclear : .cleared ∉ stretch) :
    (∀ {e : Evaluator} {spec : String} {ref : Ref} {ctx : Context} {es : List Exchange} {o : Outcome},
      (e.evalSpecial (.load spec ref) ctx).Ends es o ↔ (∃ ex, e.Loads spec ctx es (.error ex) ∧ o = .error ex) ∨
        ∃ es₁ es₂ ns, es = es₁ ++ es₂ ∧ e.Loads spec ctx es₁ (.ok ns) ∧ (ref.write ctx (.ns ns)).Ends es₂ o) ∧
    (∀ {e : Evaluator} {spec key : String} {ctx : Context} {es : List Exchange} {r : Except Exception Namespace},
      (e.evalModule spec key ctx).Ends es r → ∃ x rest, es = ⟨.fetchModule key, x⟩ :: rest) ∧
    (∀ {w : World} {k : KernelId} {a b key : String},
      w.resolveModule k (a ++ ":" ++ b) = .ok key ↔ w.resolveModule k (a ++ "/" ++ b) = .ok key) ∧
    LoadsOnce before stretch ∧
    ∀ {key : String} {ns : Namespace}, p.world.modules.get? key = some ns ↔
      ∃ place, PlacedSince (before ++ stretch ++ after) key place ∧ ∃ d ∈ before ++ stretch ++ after,
      d.Settles place (some ns) :=
  ⟨Evaluator.ends_use, Evaluator.evalModule_fetches, World.resolveModule_separator, h.loadsOnce hclear, h.visible⟩

/-- A module that says when it is evaluated. -/
def speaking : World :=
  Sample.library [("lib/loud.duo", [Sample.command (.bare "put") [.bare "evaluated"], Sample.assign "n" (.bare "zero")])]

/-- The program `use lib:loud; use lib/loud again; put $again:n`. -/
def twice : List Source.Body :=
  [Sample.command (.bare "use") [.bare "lib:loud"], Sample.command (.bare "use") [.bare "lib/loud", .bare "again"],
    Sample.command (.bare "put") [Sample.value "again:n"]]

/-- Two uses of a module evaluate it once. -/
theorem modules_once_twice : ∃ ds, History (fun _ _ => False) ([] ++ ds ++ []) ⟨[], (Sample.run speaking twice).2⟩ ∧
    .cleared ∉ ds ∧ LoadsOnce [] ds ∧ Sample.texts (Sample.run speaking twice).1 = [some "evaluated", some "zero"] := by
  have hstart : History (fun _ _ => False) [] ⟨[], speaking⟩ := Sample.startLibrary _ _
  obtain ⟨ds, hclear, h⟩ := Sample.goOn hstart twice
  have h' : History (fun _ _ => False) ([] ++ ds ++ []) ⟨[], (Sample.run speaking twice).2⟩ := by rwa [List.append_nil]
  exact ⟨ds, h', hclear, (h'.modules_once hclear).2.2.2.1, by cbv⟩

end History

end DualShell
