import Mathlib.Data.List.Forall2
import Mathlib.Data.List.Perm.Basic
import DualShell.Source.Json

/-!
# Spellings of a program

A program has many spellings as a document. Wherever a record stands, a field that holds its default may be missing, the
members may be in any order, and members of other names may be added. What is written is the spelling in which nothing
is missing and nothing is added (`Chunk.spells_toJson`), and every spelling that is not nested too deep is read as the
program it spells (`Chunk.decodes`).
-/

namespace DualShell

/-! ## Nesting -/

namespace Json

mutual

/-- How deep arrays and objects are nested in a document. -/
def nesting : Json → Nat
  | .array items => nestingItems items + 1
  | .object members => nestingMembers members + 1
  | .null | .bool _ | .number _ | .string _ => 0

/-- How deep they are nested in the items of an array. -/
def nestingItems : List Json → Nat
  | [] => 0
  | j :: js => max j.nesting (nestingItems js)

/-- How deep they are nested in the members of an object. -/
def nestingMembers : List (String × Json) → Nat
  | [] => 0
  | (_, j) :: ms => max j.nesting (nestingMembers ms)

end

/-- An item is nested no deeper than the items. -/
theorem nesting_le_items {j : Json} {items : List Json} (h : j ∈ items) : j.nesting ≤ nestingItems items := by
  induction items with
  | nil => nomatch h
  | cons i is ih =>
    rw [nestingItems]
    rcases List.mem_cons.1 h with rfl | h
    · exact Nat.le_max_left _ _
    · exact Nat.le_trans (ih h) (Nat.le_max_right _ _)

/-- A member is nested no deeper than the members. -/
theorem nesting_le_members {m : String × Json} {members : List (String × Json)} (h : m ∈ members) :
    m.2.nesting ≤ nestingMembers members := by
  induction members with
  | nil => nomatch h
  | cons i is ih =>
    rw [nestingMembers]
    rcases List.mem_cons.1 h with rfl | h
    · exact Nat.le_max_left _ _
    · exact Nat.le_trans (ih h) (Nat.le_max_right _ _)

end Json

namespace Source

/-! ## Spellings -/

/-- A field of a record: its name, when it may be missing, and how its value is spelled. -/
structure Field where
  name : String
  mayMiss : Prop
  spells : Json → Prop

/-- Members that give the fields in order, except for some that may be missing. -/
inductive Written : List Field → List (String × Json) → Prop
  | nil : Written [] []
  | keep {f fs j ms} (h : f.spells j) (hs : Written fs ms) : Written (f :: fs) ((f.name, j) :: ms)
  | miss {f fs ms} (h : f.mayMiss) (hs : Written fs ms) : Written (f :: fs) ms

/-- A record: its fields and members of other names, in any order. -/
def Record (fields : List Field) (j : Json) : Prop :=
  ∃ members written extra, j = .object members ∧ members.Perm (written ++ extra) ∧ Written fields written ∧
    ∀ m ∈ extra, m.1 ∉ fields.map Field.name

/-- An array with an item for each spelling. -/
def Items (spellings : List (Json → Prop)) (j : Json) : Prop :=
  ∃ items, j = .array items ∧ List.Forall₂ (fun spells j => spells j) spellings items

/-- An alternative with its payload. -/
def Tagged (tag : String) (spells : Json → Prop) (j : Json) : Prop :=
  ∃ payload, j = tagged tag payload ∧ spells payload

/-- A field that has to be there. -/
def required (name : String) (spells : Json → Prop) : Field := ⟨name, False, spells⟩

/-- A field that may be missing when it has its default. -/
def optional (name : String) (isDefault : Prop) (spells : Json → Prop) : Field := ⟨name, isDefault, spells⟩

end Source

open Source

/-- The spellings of a position. -/
def Span.Spells (s : Span) : Json → Prop :=
  Record [required "start" (· = ofNat s.start.toNat), required "end" (· = ofNat s.stop.toNat)]

/-- The spellings of a parameter. -/
def Param.Spells (p : Param) : Json → Prop :=
  Record [required "name" (· = .string p.name), optional "rest" (p.rest = false) (· = .bool p.rest)]

namespace Source

mutual

/-- The spellings of a chunk. -/
def Chunk.Spells : Chunk → Json → Prop
  | ⟨pipelines⟩ => Record [optional "pipelines" (pipelines = []) (Items (pipelinesSpell pipelines))]

/-- The spellings of each pipeline. -/
def pipelinesSpell : List Pipeline → List (Json → Prop)
  | [] => []
  | p :: ps => p.Spells :: pipelinesSpell ps

/-- The spellings of a pipeline. -/
def Pipeline.Spells : Pipeline → Json → Prop
  | ⟨forms, background, span⟩ =>
    Record [required "forms" (Items (formsSpell forms)), optional "background" (background = false) (· = .bool background),
      optional "span" (span = default) span.Spells]

/-- The spellings of each form. -/
def formsSpell : List Form → List (Json → Prop)
  | [] => []
  | f :: fs => f.Spells :: formsSpell fs

/-- The spellings of a form. -/
def Form.Spells : Form → Json → Prop
  | ⟨temps, body, redirs, span⟩ =>
    Record [optional "temp_assigns" (temps = []) (Items (assignmentsSpell temps)), required "body" body.Spells,
      optional "redirs" (redirs = []) (Items (redirsSpell redirs)), optional "span" (span = default) span.Spells]

/-- The spellings of the body of a form. -/
def Body.Spells : Body → Json → Prop
  | .assign a => Tagged "assign" a.Spells
  | .command c => Tagged "command" c.Spells

/-- The spellings of a command. -/
def Command.Spells : Command → Json → Prop
  | ⟨head, args, opts⟩ =>
    Record [required "head" head.Spells, optional "args" (args = []) (Items (wordsSpell args)),
      optional "opts" (opts = []) (Items (optsSpell opts))]

/-- The spellings of each option. -/
def optsSpell : List Opt → List (Json → Prop)
  | [] => []
  | ⟨name, value⟩ :: os => Record [required "name" (· = .string name), required "value" value.Spells] :: optsSpell os

/-- The spellings of an assignment. -/
def Assignment.Spells : Assignment → Json → Prop
  | ⟨targets, values⟩ =>
    Record [required "targets" (Items (targetsSpell targets)), required "values" (Items (wordsSpell values))]

/-- The spellings of each assignment. -/
def assignmentsSpell : List Assignment → List (Json → Prop)
  | [] => []
  | a :: as => a.Spells :: assignmentsSpell as

/-- The spellings of each target. -/
def targetsSpell : List Target → List (Json → Prop)
  | [] => []
  | ⟨name, indices, rest⟩ :: ts =>
    Record [required "name" (· = .string name), optional "indices" (indices = []) (Items (wordsSpell indices)),
      optional "rest" (rest = false) (· = .bool rest)] :: targetsSpell ts

/-- The spellings of each redirection. -/
def redirsSpell : List Redir → List (Json → Prop)
  | [] => []
  | ⟨fd, mode, target⟩ :: rs =>
    Record [required "fd" (· = ofNat fd.toNat), required "mode" (· = .string mode.tag), required "target" target.Spells]
      :: redirsSpell rs

/-- The spellings of what a redirection names. -/
def RedirTarget.Spells : RedirTarget → Json → Prop
  | .path word => Tagged "path" word.Spells
  | .fd n => Tagged "fd" (· = ofNat n.toNat)
  | .close => (· = .string "close")

/-- The spellings of a word. -/
def Word.Spells : Word → Json → Prop
  | .bare s => Tagged "bareword" (· = .string s)
  | .quoted s => Tagged "quoted" (· = .string s)
  | .variable name explode =>
    Tagged "variable" (Record [required "name" (· = .string name), optional "explode" (explode = false) (· = .bool explode)])
  | .index base indices =>
    Tagged "index" (Record [required "base" base.Spells, required "indices" (Items (wordsSpell indices))])
  | .list items => Tagged "list" (Items (wordsSpell items))
  | .map pairs => Tagged "map" (Items (pairsSpell pairs))
  | .lambda params body =>
    Tagged "lambda" (Record [optional "params" (params = []) (Items (params.map Param.Spells)), required "body" body.Spells])
  | .capture body => Tagged "output_capture" body.Spells
  | .rescue body => Tagged "exception_capture" body.Spells
  | .compound parts => Tagged "compound" (Items (wordsSpell parts))
  | .wildcard pattern mayMiss =>
    Tagged "wildcard"
      (Record [required "pattern" (· = .string pattern), optional "nomatch_ok" (mayMiss = false) (· = .bool mayMiss)])

/-- The spellings of each word. -/
def wordsSpell : List Word → List (Json → Prop)
  | [] => []
  | w :: ws => w.Spells :: wordsSpell ws

/-- The spellings of each pair of a map. -/
def pairsSpell : List (Word × Word) → List (Json → Prop)
  | [] => []
  | (k, v) :: ps => Items [k.Spells, v.Spells] :: pairsSpell ps

end

/-! ## Reading a spelling -/

/-- What a reader that is given the depth left makes of every spelling that fits. -/
def Decodes {α : Type} (decode : Nat → Json → Option α) (spells : Json → Prop) (a : α) : Prop :=
  ∀ depth j, spells j → j.nesting ≤ depth → decode depth j = some a

/-- A field's value as it was found. -/
def Field.Found (depth : Nat) (f : Field) : Option Json → Prop
  | none => f.mayMiss
  | some j => f.spells j ∧ j.nesting ≤ depth

/-- The values of the fields as they were found, one for each. -/
def FoundAll (depth : Nat) : List Field → List (Option Json) → Prop
  | [], found => found = []
  | f :: fs, found => ∃ v rest, found = v :: rest ∧ f.Found depth v ∧ FoundAll depth fs rest

/-- Members that are written have the names of fields. -/
theorem Written.mem {fields : List Field} {members : List (String × Json)} (h : Written fields members) :
    ∀ m ∈ members, m.1 ∈ fields.map Field.name := by
  induction h with
  | nil => exact fun m hm => nomatch hm
  | keep h hs ih =>
    intro m hm
    rcases List.mem_cons.1 hm with rfl | hm
    · exact List.mem_cons_self
    · exact List.mem_cons_of_mem _ (ih m hm)
  | miss h hs ih => exact fun m hm => List.mem_cons_of_mem _ (ih m hm)

/-- Members of other names are none of this name. -/
theorem filter_name_eq_nil {members : List (String × Json)} {name : String} {names : List String} (hname : name ∉ names)
    (h : ∀ m ∈ members, m.1 ∈ names) : members.filter (·.1 == name) = [] := by
  refine List.filter_eq_nil_iff.2 fun m hm heq => hname ?_
  rw [← beq_iff_eq.1 heq]
  exact h m hm

/-- Of the members that give the fields there is one of each name, or none. -/
theorem Written.filter_name {fields : List Field} {members : List (String × Json)} (h : Written fields members)
    (hnames : (fields.map Field.name).Nodup) :
    ∀ f ∈ fields, (∃ j, f.spells j ∧ members.filter (·.1 == f.name) = [(f.name, j)]) ∨
      (f.mayMiss ∧ members.filter (·.1 == f.name) = []) := by
  induction h with
  | nil => exact fun f hf => nomatch hf
  | @keep f fs j ms h hs ih =>
    obtain ⟨hfresh, hnames⟩ := List.nodup_cons.1 hnames
    intro g hg
    rcases List.mem_cons.1 hg with rfl | hg
    · refine .inl ⟨j, h, ?_⟩
      rw [List.filter_cons_of_pos (by simp), filter_name_eq_nil hfresh hs.mem]
    · have hother : (f.name == g.name) = false := by
        refine beq_eq_false_iff_ne.2 fun heq => hfresh ?_
        rw [heq]
        exact List.mem_map_of_mem hg
      rw [List.filter_cons_of_neg (by simp [hother])]
      exact ih hnames g hg
  | @miss f fs ms h hs ih =>
    obtain ⟨hfresh, hnames⟩ := List.nodup_cons.1 hnames
    intro g hg
    rcases List.mem_cons.1 hg with rfl | hg
    · exact .inr ⟨h, filter_name_eq_nil hfresh hs.mem⟩
    · exact ih hnames g hg

/-- Every field of a record is found, by its name. -/
theorem Record.fields? {fields : List Field} {j : Json} {depth : Nat} (h : Record fields j)
    (hnames : (fields.map Field.name).Nodup) (hdepth : j.nesting ≤ depth + 1) :
    ∃ found, Source.fields? (fields.map Field.name) j = some found ∧ FoundAll depth fields found := by
  obtain ⟨members, written, extra, rfl, hperm, hwritten, hextra⟩ := h
  rw [Json.nesting] at hdepth
  have hfield (f : Field) (hf : f ∈ fields) : ∃ v, field? members f.name = some v ∧ f.Found depth v := by
    have hothers : extra.filter (·.1 == f.name) = [] := by
      refine List.filter_eq_nil_iff.2 fun m hm heq => hextra m hm ?_
      rw [beq_iff_eq.1 heq]
      exact List.mem_map_of_mem hf
    have hfilter := hperm.filter (·.1 == f.name)
    rw [List.filter_append, hothers, List.append_nil] at hfilter
    unfold field?
    rcases hwritten.filter_name hnames f hf with ⟨j, hj, hone⟩ | ⟨hmiss, hnone⟩
    · rw [hone, List.perm_singleton] at hfilter
      have hmem : (f.name, j) ∈ members := List.mem_of_mem_filter (hfilter ▸ List.mem_singleton_self _)
      have hle := Json.nesting_le_members hmem
      rw [hfilter]
      exact ⟨some j, rfl, hj, by dsimp only at hle; omega⟩
    · rw [hnone] at hfilter
      rw [hfilter.eq_nil]
      exact ⟨none, rfl, hmiss⟩
  clear hperm hwritten hextra hnames
  simp only [Source.fields?]
  induction fields with
  | nil => exact ⟨[], rfl, rfl⟩
  | cons f fs ih =>
    obtain ⟨v, hv, hfound⟩ := hfield f List.mem_cons_self
    obtain ⟨vs, hvs, hrest⟩ := ih fun g hg => hfield g (List.mem_cons_of_mem _ hg)
    exact ⟨v :: vs, by simp [hv, hvs], v, vs, rfl, hfound, hrest⟩

/-- A record is nested at least once. -/
theorem Record.pos {fields : List Field} {j : Json} (h : Record fields j) : 0 < j.nesting := by
  obtain ⟨members, -, -, rfl, -⟩ := h
  exact Nat.succ_pos _

/-! ## Parts of readers -/

/-- A text is read back from the string that it is spelled as. -/
theorem decodes_text (s : String) : Decodes (fun _ => text?) (· = .string s) s := by
  rintro _ _ rfl -
  rfl

/-- A flag is read back from the boolean that it is spelled as. -/
theorem decodes_flag (b : Bool) : Decodes (fun _ => flag?) (· = .bool b) b := by
  rintro _ _ rfl -
  rfl

/-- A number below a bound is read back. -/
theorem natBelow?_ofNat {bound n : Nat} (h : n < bound) : natBelow? bound (ofNat n) = some n := by
  simp [natBelow?, ofNat, h]

/-- A descriptor is read back from its number. -/
theorem decodes_fd (n : UInt32) : Decodes (fun _ => fd?) (· = ofNat n.toNat) n := by
  rintro _ _ rfl -
  change (natBelow? _ (ofNat n.toNat)).map UInt32.ofNat = some n
  rw [natBelow?_ofNat n.toNat_lt, Option.map_some, UInt32.ofNat_toNat]

/-- An offset is read back from its number. -/
theorem decodes_offset (n : UInt64) : Decodes (fun _ => offset?) (· = ofNat n.toNat) n := by
  rintro _ _ rfl -
  change (natBelow? _ (ofNat n.toNat)).map UInt64.ofNat = some n
  rw [natBelow?_ofNat n.toNat_lt, Option.map_some, UInt64.ofNat_toNat]

/-- A mode of a redirection is read back from its tag. -/
theorem decodes_mode (m : RedirMode) : Decodes mode? (· = .string m.tag) m := by
  rintro _ _ rfl -
  cases m <;> rfl

/-- A field that has to be there is there, and is read. -/
theorem Field.Found.read {α : Type} {decode : Nat → Json → Option α} {spells : Json → Prop} {a : α} {name : String}
    {depth : Nat} {v : Option Json} (h : (required name spells).Found depth v) (hdecode : Decodes decode spells a) :
    ∃ j, v = some j ∧ decode depth j = some a := by
  cases v with
  | none => exact h.elim
  | some j => exact ⟨j, rfl, hdecode depth j h.1 h.2⟩

/-- A field that may be missing has its default if it is. -/
theorem Field.Found.readOr {α : Type} {decode : Nat → Json → Option α} {spells : Json → Prop} {a : α} {name : String}
    {depth : Nat}
    {default : α} {v : Option Json} (h : (optional name (a = default) spells).Found depth v)
    (hdecode : Decodes decode spells a) : orDefault default (decode depth) v = some a := by
  cases v with
  | none => exact congrArg some (Eq.symm h)
  | some j => exact hdecode depth j h.1 h.2

/-- A list is read back if its items are. -/
theorem decodes_list {α : Type} {decode : Nat → Json → Option α} {spellings : List (Json → Prop)} {as : List α}
    (read : Nat → Json → Option (List α))
    (hread : ∀ depth items, read (depth + 1) (.array items) = items.mapM (decode depth))
    (h : List.Forall₂ (Decodes decode) spellings as) : Decodes read (Items spellings) as := by
  rintro depth j ⟨items, rfl, hitems⟩ hdepth
  rw [Json.nesting] at hdepth
  obtain ⟨depth, rfl⟩ : ∃ d, depth = d + 1 := ⟨depth - 1, by omega⟩
  have hfits : ∀ i ∈ items, i.nesting ≤ depth := fun i hi => by
    have := Json.nesting_le_items hi
    omega
  rw [hread]
  clear hdepth
  induction hitems generalizing as with
  | nil => cases h; rfl
  | cons hi his ih =>
    cases h with
    | cons ha has =>
      have hhead := ha depth _ hi (hfits _ List.mem_cons_self)
      have htail := ih has fun i hi => hfits i (List.mem_cons_of_mem _ hi)
      simp [hhead, htail]

/-! ## Reading programs -/

/-- A record is read if it is when every field is found. -/
theorem Record.decodes {α : Type} {decode : Nat → Json → Option α} {fields : List Field} {a : α} (names : List String)
    (hnames : fields.map Field.name = names) (hnodup : names.Nodup)
    (h : ∀ depth j found, Source.fields? names j = some found → FoundAll depth fields found →
      decode (depth + 1) j = some a) :
    Decodes decode (Record fields) a := by
  intro depth j hj hdepth
  subst hnames
  obtain ⟨depth, rfl⟩ : ∃ d, depth = d + 1 := ⟨depth - 1, by have := hj.pos; omega⟩
  obtain ⟨found, hfields, hfound⟩ := hj.fields? hnodup hdepth
  exact h depth j found hfields hfound

/-- An alternative is read if it is when its payload is. -/
theorem Tagged.decodes {α β : Type} {decode : Nat → Json → Option α} {payload : Nat → Json → Option β} {tag : String}
    {spells : Json → Prop} {a : α} {b : β} (hpayload : Decodes payload spells b)
    (h : ∀ depth j, payload depth j = some b → decode (depth + 1) (tagged tag j) = some a) :
    Decodes decode (Tagged tag spells) a := by
  rintro depth _ ⟨j, rfl, hj⟩ hdepth
  simp only [tagged, Json.nesting, Json.nestingMembers] at hdepth
  obtain ⟨depth, rfl⟩ : ∃ d, depth = d + 1 := ⟨depth - 1, by omega⟩
  exact h depth j (hpayload depth j hj (by omega))

/-- A span is read back from every spelling of it. -/
theorem span_decodes (s : Span) : Decodes span? s.Spells s := by
  refine Record.decodes ["start", "end"] rfl (by decide) fun depth j found hfields hfound => ?_
  obtain ⟨_, _, rfl, hstart, _, _, rfl, hstop, rfl⟩ := hfound
  obtain ⟨start, rfl, hstart'⟩ := hstart.read (decodes_offset s.start)
  obtain ⟨stop, rfl, hstop'⟩ := hstop.read (decodes_offset s.stop)
  simp [span?, hfields, hstart', hstop']

/-- A parameter is read back from every spelling of it. -/
theorem param_decodes (p : Param) : Decodes param? p.Spells p := by
  refine Record.decodes ["name", "rest"] rfl (by decide) fun depth j found hfields hfound => ?_
  obtain ⟨_, _, rfl, hname, _, _, rfl, hrest, rfl⟩ := hfound
  obtain ⟨name, rfl, hname'⟩ := hname.read (decodes_text p.name)
  have hrest := hrest.readOr (decodes_flag p.rest)
  simp [param?, hfields, hname', hrest]

/-- Parameters are read back one by one. -/
theorem params_decode (ps : List Param) : List.Forall₂ (Decodes param?) (ps.map Param.Spells) ps := by
  induction ps with
  | nil => exact .nil
  | cons p ps ih => exact .cons (param_decodes p) ih

mutual

/-- A chunk is read back from every spelling of it; the following say the same of the parts of a program, down to words. -/
theorem Chunk.decodes : ∀ c : Chunk, Decodes chunk? c.Spells c
  | ⟨pipelines⟩ => by
    refine Record.decodes ["pipelines"] rfl (by decide) fun depth j found hfields hfound => ?_
    obtain ⟨_, _, rfl, hpipelines, rfl⟩ := hfound
    have hpipelines := hpipelines.readOr (decodes_list pipelines? (fun _ _ => rfl) (pipelines_decode pipelines))
    simp [chunk?, hfields, hpipelines]

/-- Pipelines are read back one by one. -/
theorem pipelines_decode : ∀ ps : List Pipeline, List.Forall₂ (Decodes pipeline?) (pipelinesSpell ps) ps
  | [] => .nil
  | p :: ps => .cons p.decodes (pipelines_decode ps)

theorem Pipeline.decodes : ∀ p : Pipeline, Decodes pipeline? p.Spells p
  | ⟨forms, background, span⟩ => by
    refine Record.decodes ["forms", "background", "span"] rfl (by decide) fun depth j found hfields hfound => ?_
    obtain ⟨_, _, rfl, hforms, _, _, rfl, hbackground, _, _, rfl, hspan, rfl⟩ := hfound
    obtain ⟨formsJson, rfl, hforms'⟩ := hforms.read (decodes_list forms? (fun _ _ => rfl) (forms_decode forms))
    have hbackground := hbackground.readOr (decodes_flag background)
    have hspan := hspan.readOr (span_decodes span)
    simp [pipeline?, hfields, hforms', hbackground, hspan]

/-- Forms are read back one by one. -/
theorem forms_decode : ∀ fs : List Form, List.Forall₂ (Decodes form?) (formsSpell fs) fs
  | [] => .nil
  | f :: fs => .cons f.decodes (forms_decode fs)

theorem Form.decodes : ∀ f : Form, Decodes form? f.Spells f
  | ⟨temps, body, redirs, span⟩ => by
    refine Record.decodes ["temp_assigns", "body", "redirs", "span"] rfl (by decide) fun depth j found hfields hfound => ?_
    obtain ⟨_, _, rfl, htemps, _, _, rfl, hbody, _, _, rfl, hredirs, _, _, rfl, hspan, rfl⟩ := hfound
    have htemps := htemps.readOr (decodes_list assignments? (fun _ _ => rfl) (assignments_decode temps))
    obtain ⟨bodyJson, rfl, hbody'⟩ := hbody.read body.decodes
    have hredirs := hredirs.readOr (decodes_list redirs? (fun _ _ => rfl) (redirs_decode redirs))
    have hspan := hspan.readOr (span_decodes span)
    simp [form?, hfields, htemps, hbody', hredirs, hspan]

theorem Body.decodes : ∀ b : Body, Decodes body? b.Spells b
  | .assign a => Tagged.decodes a.decodes fun depth j ha => by simp [body?, variant?, tagged, ha]
  | .command c => Tagged.decodes c.decodes fun depth j hc => by simp [body?, variant?, tagged, hc]

theorem Command.decodes : ∀ c : Command, Decodes command? c.Spells c
  | ⟨head, args, opts⟩ => by
    refine Record.decodes ["head", "args", "opts"] rfl (by decide) fun depth j found hfields hfound => ?_
    obtain ⟨_, _, rfl, hhead, _, _, rfl, hargs, _, _, rfl, hopts, rfl⟩ := hfound
    obtain ⟨headJson, rfl, hhead'⟩ := hhead.read head.decodes
    have hargs := hargs.readOr (decodes_list words? (fun _ _ => rfl) (words_decode args))
    have hopts := hopts.readOr (decodes_list opts? (fun _ _ => rfl) (opts_decode opts))
    simp [command?, hfields, hhead', hargs, hopts]

theorem opts_decode : ∀ os : List Opt, List.Forall₂ (Decodes opt?) (optsSpell os) os
  | [] => .nil
  | ⟨name, value⟩ :: os => by
    refine .cons (Record.decodes ["name", "value"] rfl (by decide) fun depth j found hfields hfound => ?_) (opts_decode os)
    obtain ⟨_, _, rfl, hname, _, _, rfl, hvalue, rfl⟩ := hfound
    obtain ⟨nameJson, rfl, hname'⟩ := hname.read (decodes_text name)
    obtain ⟨valueJson, rfl, hvalue'⟩ := hvalue.read value.decodes
    simp [opt?, hfields, hname', hvalue']

theorem Assignment.decodes : ∀ a : Assignment, Decodes assignment? a.Spells a
  | ⟨targets, values⟩ => by
    refine Record.decodes ["targets", "values"] rfl (by decide) fun depth j found hfields hfound => ?_
    obtain ⟨_, _, rfl, htargets, _, _, rfl, hvalues, rfl⟩ := hfound
    obtain ⟨targetsJson, rfl, htargets'⟩ :=
      htargets.read (decodes_list targets? (fun _ _ => rfl) (targets_decode targets))
    obtain ⟨valuesJson, rfl, hvalues'⟩ := hvalues.read (decodes_list words? (fun _ _ => rfl) (words_decode values))
    simp [assignment?, hfields, htargets', hvalues']

theorem assignments_decode : ∀ as : List Assignment, List.Forall₂ (Decodes assignment?) (assignmentsSpell as) as
  | [] => .nil
  | a :: as => .cons a.decodes (assignments_decode as)

theorem targets_decode : ∀ ts : List Target, List.Forall₂ (Decodes target?) (targetsSpell ts) ts
  | [] => .nil
  | ⟨name, indices, rest⟩ :: ts => by
    refine .cons (Record.decodes ["name", "indices", "rest"] rfl (by decide) fun depth j found hfields hfound => ?_)
      (targets_decode ts)
    obtain ⟨_, _, rfl, hname, _, _, rfl, hindices, _, _, rfl, hrest, rfl⟩ := hfound
    obtain ⟨nameJson, rfl, hname'⟩ := hname.read (decodes_text name)
    have hindices := hindices.readOr (decodes_list words? (fun _ _ => rfl) (words_decode indices))
    have hrest := hrest.readOr (decodes_flag rest)
    simp [target?, hfields, hname', hindices, hrest]

theorem redirs_decode : ∀ rs : List Redir, List.Forall₂ (Decodes redir?) (redirsSpell rs) rs
  | [] => .nil
  | ⟨fd, mode, target⟩ :: rs => by
    refine .cons (Record.decodes ["fd", "mode", "target"] rfl (by decide) fun depth j found hfields hfound => ?_)
      (redirs_decode rs)
    obtain ⟨_, _, rfl, hfd, _, _, rfl, hmode, _, _, rfl, htarget, rfl⟩ := hfound
    obtain ⟨fdJson, rfl, hfd'⟩ := hfd.read (decodes_fd fd)
    obtain ⟨modeJson, rfl, hmode'⟩ := hmode.read (decodes_mode mode)
    obtain ⟨targetJson, rfl, htarget'⟩ := htarget.read target.decodes
    simp [redir?, hfields, hfd', hmode', htarget']

theorem RedirTarget.decodes : ∀ t : RedirTarget, Decodes redirTarget? t.Spells t
  | .path word => Tagged.decodes word.decodes fun depth j hword => by simp [redirTarget?, variant?, tagged, hword]
  | .fd n => Tagged.decodes (decodes_fd n) fun depth j hn => by simp [redirTarget?, variant?, tagged, hn]
  | .close => by
    rintro depth j rfl -
    cases depth <;> rfl

/-- A word is read back from every spelling of it, by its kind. -/
theorem Word.decodes : ∀ w : Word, Decodes word? w.Spells w
  | .bare s => Tagged.decodes (decodes_text s) fun depth j hs => by simp [word?, variant?, tagged, hs]
  | .quoted s => Tagged.decodes (decodes_text s) fun depth j hs => by simp [word?, variant?, tagged, hs]
  | .variable name explode => by
    refine Tagged.decodes (?_ : Decodes varWord? _ (.variable name explode)) fun depth j h => by
      simp [word?, variant?, tagged, h]
    refine Record.decodes ["name", "explode"] rfl (by decide) fun depth j found hfields hfound => ?_
    obtain ⟨_, _, rfl, hname, _, _, rfl, hexplode, rfl⟩ := hfound
    obtain ⟨nameJson, rfl, hname'⟩ := hname.read (decodes_text name)
    have hexplode := hexplode.readOr (decodes_flag explode)
    simp [varWord?, hfields, hname', hexplode]
  | .index base indices => by
    refine Tagged.decodes (?_ : Decodes index? _ (.index base indices)) fun depth j h => by
      simp [word?, variant?, tagged, h]
    refine Record.decodes ["base", "indices"] rfl (by decide) fun depth j found hfields hfound => ?_
    obtain ⟨_, _, rfl, hbase, _, _, rfl, hindices, rfl⟩ := hfound
    obtain ⟨baseJson, rfl, hbase'⟩ := hbase.read base.decodes
    obtain ⟨indicesJson, rfl, hindices'⟩ :=
      hindices.read (decodes_list words? (fun _ _ => rfl) (words_decode indices))
    simp [index?, hfields, hbase', hindices']
  | .list items => Tagged.decodes (decodes_list words? (fun _ _ => rfl) (words_decode items)) fun depth j h => by
    simp [word?, variant?, tagged, h]
  | .map pairs => Tagged.decodes (decodes_list pairs? (fun _ _ => rfl) (pairs_decode pairs)) fun depth j h => by
    simp [word?, variant?, tagged, h]
  | .lambda params body => by
    refine Tagged.decodes (?_ : Decodes lambda? _ (.lambda params body)) fun depth j h => by
      simp [word?, variant?, tagged, h]
    refine Record.decodes ["params", "body"] rfl (by decide) fun depth j found hfields hfound => ?_
    obtain ⟨_, _, rfl, hparams, _, _, rfl, hbody, rfl⟩ := hfound
    have hparams := hparams.readOr (decodes_list (list? param?) (fun _ _ => rfl) (params_decode params))
    obtain ⟨bodyJson, rfl, hbody'⟩ := hbody.read body.decodes
    simp [lambda?, hfields, hparams, hbody']
  | .capture body => Tagged.decodes body.decodes fun depth j h => by simp [word?, variant?, tagged, h]
  | .rescue body => Tagged.decodes body.decodes fun depth j h => by simp [word?, variant?, tagged, h]
  | .compound parts => Tagged.decodes (decodes_list words? (fun _ _ => rfl) (words_decode parts)) fun depth j h => by
    simp [word?, variant?, tagged, h]
  | .wildcard pattern mayMiss => by
    refine Tagged.decodes (?_ : Decodes wildcard? _ (.wildcard pattern mayMiss)) fun depth j h => by
      simp [word?, variant?, tagged, h]
    refine Record.decodes ["pattern", "nomatch_ok"] rfl (by decide) fun depth j found hfields hfound => ?_
    obtain ⟨_, _, rfl, hpattern, _, _, rfl, hmayMiss, rfl⟩ := hfound
    obtain ⟨patternJson, rfl, hpattern'⟩ := hpattern.read (decodes_text pattern)
    have hmayMiss := hmayMiss.readOr (decodes_flag mayMiss)
    simp [wildcard?, hfields, hpattern', hmayMiss]

/-- Words are read back one by one. -/
theorem words_decode : ∀ ws : List Word, List.Forall₂ (Decodes word?) (wordsSpell ws) ws
  | [] => .nil
  | w :: ws => .cons w.decodes (words_decode ws)

theorem pairs_decode : ∀ ps : List (Word × Word), List.Forall₂ (Decodes pair?) (pairsSpell ps) ps
  | [] => .nil
  | (k, v) :: ps => by
    refine .cons ?_ (pairs_decode ps)
    rintro depth _ ⟨_, rfl, hitems⟩ hdepth
    obtain _ | ⟨hk, _ | ⟨hv, _ | _⟩⟩ := hitems
    simp only [Json.nesting, Json.nestingItems] at hdepth
    obtain ⟨depth, rfl⟩ : ∃ d, depth = d + 1 := ⟨depth - 1, by omega⟩
    have hk := k.decodes depth _ hk (by omega)
    have hv := v.decodes depth _ hv (by omega)
    simp [pair?, hk, hv]

end


/-! ## Writing a spelling -/

/-- A record with all its fields in order. -/
theorem Written.record {fields : List Field} {members : List (String × Json)} (h : Written fields members) :
    Record fields (record members) :=
  ⟨members, members, [], rfl, by rw [List.append_nil], h, nofun⟩

/-- What is written for a span is a spelling of it. -/
theorem span_spells (s : Span) : s.Spells s.toJson :=
  Written.record (.keep rfl (.keep rfl .nil))

/-- What is written for parameters are spellings of them. -/
theorem params_spell (ps : List Param) :
    List.Forall₂ (fun spells j => spells j) (ps.map Param.Spells) (ps.map Param.toJson) := by
  induction ps with
  | nil => exact .nil
  | cons p ps ih => exact .cons (Written.record (.keep rfl (.keep rfl .nil))) ih

mutual

/-- The document that a chunk is written as spells it; the following say the same of the parts of a program. -/
theorem Chunk.spells_toJson : ∀ c : Chunk, c.Spells c.toJson
  | ⟨pipelines⟩ => Written.record (.keep ⟨_, rfl, pipelines_spell pipelines⟩ .nil)

theorem pipelines_spell : ∀ ps : List Pipeline,
    List.Forall₂ (fun spells j => spells j) (pipelinesSpell ps) (pipelinesToJson ps)
  | [] => .nil
  | p :: ps => .cons p.spells_toJson (pipelines_spell ps)

theorem Pipeline.spells_toJson : ∀ p : Pipeline, p.Spells p.toJson
  | ⟨forms, _, span⟩ =>
    Written.record (.keep ⟨_, rfl, forms_spell forms⟩ (.keep rfl (.keep (span_spells span) .nil)))

theorem forms_spell : ∀ fs : List Form, List.Forall₂ (fun spells j => spells j) (formsSpell fs) (formsToJson fs)
  | [] => .nil
  | f :: fs => .cons f.spells_toJson (forms_spell fs)

theorem Form.spells_toJson : ∀ f : Form, f.Spells f.toJson
  | ⟨temps, body, redirs, span⟩ =>
    Written.record (.keep ⟨_, rfl, assignments_spell temps⟩
      (.keep body.spells_toJson (.keep ⟨_, rfl, redirs_spell redirs⟩ (.keep (span_spells span) .nil))))

theorem Body.spells_toJson : ∀ b : Body, b.Spells b.toJson
  | .assign a => ⟨_, rfl, a.spells_toJson⟩
  | .command c => ⟨_, rfl, c.spells_toJson⟩

theorem Command.spells_toJson : ∀ c : Command, c.Spells c.toJson
  | ⟨head, args, opts⟩ =>
    Written.record (.keep head.spells_toJson (.keep ⟨_, rfl, words_spell args⟩ (.keep ⟨_, rfl, opts_spell opts⟩ .nil)))

theorem opts_spell : ∀ os : List Opt, List.Forall₂ (fun spells j => spells j) (optsSpell os) (optsToJson os)
  | [] => .nil
  | ⟨_, value⟩ :: os => .cons (Written.record (.keep rfl (.keep value.spells_toJson .nil))) (opts_spell os)

theorem Assignment.spells_toJson : ∀ a : Assignment, a.Spells a.toJson
  | ⟨targets, values⟩ =>
    Written.record (.keep ⟨_, rfl, targets_spell targets⟩ (.keep ⟨_, rfl, words_spell values⟩ .nil))

theorem assignments_spell :
    ∀ as : List Assignment, List.Forall₂ (fun spells j => spells j) (assignmentsSpell as) (assignmentsToJson as)
  | [] => .nil
  | a :: as => .cons a.spells_toJson (assignments_spell as)

theorem targets_spell : ∀ ts : List Target, List.Forall₂ (fun spells j => spells j) (targetsSpell ts) (targetsToJson ts)
  | [] => .nil
  | ⟨_, indices, _⟩ :: ts =>
    .cons (Written.record (.keep rfl (.keep ⟨_, rfl, words_spell indices⟩ (.keep rfl .nil)))) (targets_spell ts)

theorem redirs_spell : ∀ rs : List Redir, List.Forall₂ (fun spells j => spells j) (redirsSpell rs) (redirsToJson rs)
  | [] => .nil
  | ⟨_, _, target⟩ :: rs =>
    .cons (Written.record (.keep rfl (.keep rfl (.keep target.spells_toJson .nil)))) (redirs_spell rs)

theorem RedirTarget.spells_toJson : ∀ t : RedirTarget, t.Spells t.toJson
  | .path word => ⟨_, rfl, word.spells_toJson⟩
  | .fd _ => ⟨_, rfl, rfl⟩
  | .close => rfl

/-- What is written for a word is a spelling of it, by its kind. -/
theorem Word.spells_toJson : ∀ w : Word, w.Spells w.toJson
  | .bare _ => ⟨_, rfl, rfl⟩
  | .quoted _ => ⟨_, rfl, rfl⟩
  | .variable _ _ => ⟨_, rfl, Written.record (.keep rfl (.keep rfl .nil))⟩
  | .index base indices =>
    ⟨_, rfl, Written.record (.keep base.spells_toJson (.keep ⟨_, rfl, words_spell indices⟩ .nil))⟩
  | .list items => ⟨_, rfl, _, rfl, words_spell items⟩
  | .map pairs => ⟨_, rfl, _, rfl, pairs_spell pairs⟩
  | .lambda params body =>
    ⟨_, rfl, Written.record (.keep ⟨_, rfl, params_spell params⟩ (.keep body.spells_toJson .nil))⟩
  | .capture body => ⟨_, rfl, body.spells_toJson⟩
  | .rescue body => ⟨_, rfl, body.spells_toJson⟩
  | .compound parts => ⟨_, rfl, _, rfl, words_spell parts⟩
  | .wildcard _ _ => ⟨_, rfl, Written.record (.keep rfl (.keep rfl .nil))⟩

theorem words_spell : ∀ ws : List Word, List.Forall₂ (fun spells j => spells j) (wordsSpell ws) (wordsToJson ws)
  | [] => .nil
  | w :: ws => .cons w.spells_toJson (words_spell ws)

theorem pairs_spell : ∀ ps : List (Word × Word), List.Forall₂ (fun spells j => spells j) (pairsSpell ps) (pairsToJson ps)
  | [] => .nil
  | (k, v) :: ps => .cons ⟨_, rfl, .cons k.spells_toJson (.cons v.spells_toJson .nil)⟩ (pairs_spell ps)

end

/-! ## Main result -/

/-- What a program is written as is one of its spellings, and each spelling that is nested at most as deep as a text may
be is read as the program: the document, and every text that holds it. -/
theorem Chunk.survives (c : Chunk) :
    c.Spells c.toJson ∧ ∀ j, c.Spells j → j.nesting ≤ Json.nestingLimit →
      Chunk.ofJson? j = some c ∧ ∀ text, Json.read (Utf8.encode text) = .ok j → Chunk.ofText? text = some c := by
  refine ⟨c.spells_toJson, fun j hj hdepth => ?_⟩
  have hread : Chunk.ofJson? j = some c := c.decodes Json.nestingLimit j hj hdepth
  refine ⟨hread, fun text htext => ?_⟩
  rw [Chunk.ofText?, htext]
  exact hread

/-- A pipeline that leaves its defaults out, in a program with a member of another name in front. -/
theorem Chunk.survives_sparse :
    Chunk.ofJson? (.object [("note", .null), ("pipelines", .array [.object [("forms", .array [])]])]) =
      some ⟨[⟨[], false, default⟩]⟩ := by
  have hpipeline : Pipeline.Spells ⟨[], false, default⟩ (.object [("forms", .array [])]) :=
    ⟨_, _, [], rfl, .refl _, .keep ⟨_, rfl, .nil⟩ (.miss rfl (.miss rfl .nil)), nofun⟩
  have hchunk : Chunk.Spells ⟨[⟨[], false, default⟩]⟩
      (.object [("note", .null), ("pipelines", .array [.object [("forms", .array [])]])]) :=
    ⟨_, _, [("note", .null)], rfl, .swap _ _ _, .keep ⟨_, rfl, .cons hpipeline .nil⟩ .nil, by decide⟩
  exact ((Chunk.survives _).2 _ hchunk (by decide)).1

end Source

end DualShell
