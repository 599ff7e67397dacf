import DualShell.Module.Source

/-!
# Paths of modules

A spec is divided at its separators, and its path is made of the same segments, joined by slashes, with the extension
after the last one. To divide undoes to join, so that specs with one path have the same segments
(`ModuleSpec.parts_eq_of_path_eq`), and as every segment of a path leads down, no part of the path leads above the place
where it starts (`ModuleSpec.depth?_of_down`). `ModuleSpec.paths_faithful` has both, and says which specs have a path.
-/

namespace DualShell

namespace ModuleSpec

/-- The texts of a spec between its separators. -/
def parts (spec : String) : List (List Char) := spec.toList.splitOnP isSeparator

/-- A segment leads one step down. -/
def Down (segment : List Char) : Prop := segment ≠ [] ∧ segment ≠ ['.'] ∧ segment ≠ ['.', '.']

/-- The components of a path. -/
def steps (path : String) : List (List Char) := path.toList.splitOn '/'

/-- How deep the components of a path lead from depth `n`, unless they lead above the start on their way. -/
def depth? : Nat → List (List Char) → Option Nat
  | n, [] => some n
  | n, c :: cs =>
    if c = [] ∨ c = ['.'] then depth? n cs
    else if c = ['.', '.'] then
      match n with
      | 0 => none
      | n + 1 => depth? n cs
    else depth? (n + 1) cs

/-! ## Segments -/

/-- A text is split at its separators. -/
theorem split_eq_splitOnP (cs : List Char) : split cs = cs.splitOnP isSeparator := by
  induction cs with
  | nil => rfl
  | cons c cs ih =>
    rw [split, List.splitOnP_cons_eq_if_modifyHead, ih]
    cases isSeparator c with
    | true => rfl
    | false =>
      obtain ⟨first, rest, heq⟩ := List.exists_cons_of_ne_nil (List.splitOnP_ne_nil isSeparator cs)
      rw [heq]
      rfl

/-- The segments of a spec are its parts. -/
theorem segments_eq (spec : String) : segments spec = (parts spec).map String.ofList := by
  rw [segments, split_eq_splitOnP, parts]

/-- A spec has a segment at least. -/
theorem parts_ne_nil (spec : String) : parts spec ≠ [] := List.splitOnP_ne_nil _ _

/-- What is between separators holds none. -/
theorem not_mem_of_mem_splitOnP {p : Char → Bool} {cs s : List Char} (hs : s ∈ cs.splitOnP p) {c : Char}
    (hc : p c = true) : c ∉ s := by
  induction cs generalizing s with
  | nil =>
    obtain rfl : s = [] := by simpa using hs
    exact List.not_mem_nil
  | cons x xs ih =>
    rw [List.splitOnP_cons_eq_if_modifyHead] at hs
    split at hs
    · rcases List.mem_cons.1 hs with rfl | hs
      · exact List.not_mem_nil
      · exact ih hs
    · rename_i hx
      obtain ⟨first, rest, heq⟩ := List.exists_cons_of_ne_nil (List.splitOnP_ne_nil p xs)
      rw [heq, List.modifyHead_cons] at hs
      rcases List.mem_cons.1 hs with rfl | hs
      · rw [List.mem_cons, not_or]
        exact ⟨fun h => hx (h ▸ hc), ih (heq ▸ List.mem_cons_self)⟩
      · exact ih (heq ▸ List.mem_cons_of_mem _ hs)

/-- No segment has a slash in it. -/
theorem not_mem_parts {spec : String} : ∀ s ∈ parts spec, '/' ∉ s := fun _ hs => not_mem_of_mem_splitOnP hs rfl

/-- A segment leads down unless it is empty, one dot or two dots. -/
theorem isDown_iff (s : List Char) : isDown (String.ofList s) = true ↔ Down s := by
  simp [isDown, Down, ← String.toList_inj, and_assoc]

theorem all_isDown_iff (spec : String) : (segments spec).all isDown = true ↔ ∀ s ∈ parts spec, Down s := by
  rw [segments_eq, List.all_map, List.all_eq_true]
  exact forall₂_congr fun s _ => isDown_iff s

/-! ## Paths -/

/-- A path is made if every segment leads down: the segments, with slashes between them. -/
theorem path_eq_ok {spec extension p : String} :
    path spec extension = .ok p ↔ (∀ s ∈ parts spec, Down s) ∧ p = "/".intercalate (segments spec) ++ "." ++ extension := by
  unfold path
  split
  · rename_i h
    rw [Except.ok.injEq, eq_comm, and_iff_right ((all_isDown_iff spec).1 h)]
  · rename_i h
    exact ⟨nofun, fun hdown => absurd ((all_isDown_iff spec).2 hdown.1) h⟩

/-- No path is made if a segment does not lead down. -/
theorem path_eq_error {spec extension : String} (h : ¬∀ s ∈ parts spec, Down s) :
    path spec extension = .error (.invalidSpec spec) := by
  unfold path
  rw [if_neg fun hall => h ((all_isDown_iff spec).1 hall)]

/-- The text of a path. -/
theorem toList_path {spec extension p : String} (h : path spec extension = .ok p) :
    p.toList = ['/'].intercalate (parts spec) ++ '.' :: extension.toList := by
  rw [(path_eq_ok.1 h).2, segments_eq, String.toList_append, String.toList_append, String.toList_intercalate, List.map_map,
    List.append_assoc]
  congr 1
  simp [Function.comp_def]

/-- What is added to joined texts is added to the last of them. -/
theorem intercalate_append (sep : List Char) (front : List (List Char)) (last t : List Char) :
    sep.intercalate (front ++ [last]) ++ t = sep.intercalate (front ++ [last ++ t]) := by
  induction front with
  | nil => simp
  | cons s front ih =>
    have hne (x : List Char) : front ++ [x] ≠ [] := List.append_ne_nil_of_right_ne_nil _ (List.cons_ne_nil _ _)
    rw [List.cons_append, List.cons_append, List.intercalate_cons_of_ne_nil (hne _), List.intercalate_cons_of_ne_nil (hne _),
      List.append_assoc, ih]

/-- Specs with one path have the same segments. -/
theorem parts_eq_of_path_eq {spec other extension p : String} (h : path spec extension = .ok p)
    (h' : path other extension = .ok p) : parts spec = parts other := by
  have hjoined : ['/'].intercalate (parts spec) = ['/'].intercalate (parts other) :=
    List.append_cancel_right ((toList_path h).symm.trans (toList_path h'))
  rw [← List.splitOn_intercalate '/' not_mem_parts (parts_ne_nil spec), hjoined,
    List.splitOn_intercalate '/' not_mem_parts (parts_ne_nil other)]

/-- And specs with the same segments have one path. -/
theorem path_eq_of_parts_eq {spec other extension p q : String} (h : path spec extension = .ok p)
    (h' : path other extension = .ok q) (hparts : parts spec = parts other) : p = q := by
  rw [(path_eq_ok.1 h).2, (path_eq_ok.1 h').2, segments_eq, segments_eq, hparts]

/-! ## Depth -/

/-- Segments that lead down lead one step down each. -/
theorem depth?_of_down {cs : List (List Char)} (h : ∀ c ∈ cs, Down c) (n : Nat) : depth? n cs = some (n + cs.length) := by
  induction cs generalizing n with
  | nil => rfl
  | cons c cs ih =>
    obtain ⟨hempty, hdot, hdots⟩ := h c List.mem_cons_self
    unfold depth?
    rw [if_neg (not_or.2 ⟨hempty, hdot⟩), if_neg hdots, ih (fun x hx => h x (List.mem_cons_of_mem _ hx)),
      List.length_cons, Nat.add_assoc, Nat.add_comm 1]

/-- A segment still leads down when it has an extension. -/
theorem Down.extended {s : List Char} (h : Down s) (extension : List Char) : Down (s ++ '.' :: extension) := by
  obtain ⟨hempty, hdot, -⟩ := h
  refine ⟨?_, ?_, ?_⟩
  · simp
  · intro heq
    cases s with
    | nil => exact hempty rfl
    | cons c s => simp at heq
  · intro heq
    cases s with
    | nil => exact hempty rfl
    | cons c s =>
      cases s with
      | nil => simp_all
      | cons c' s => simp at heq

/-- A path of segments that lead down is divided into them. -/
theorem steps_path {spec extension p : String} {front : List (List Char)} {last : List Char}
    (h : path spec extension = .ok p) (hparts : parts spec = front ++ [last]) (hextension : '/' ∉ extension.toList) :
    steps p = front ++ [last ++ '.' :: extension.toList] := by
  rw [steps, toList_path h, hparts, intercalate_append]
  refine List.splitOn_intercalate '/' (fun s hs => ?_) (List.append_ne_nil_of_right_ne_nil _ (List.cons_ne_nil _ _))
  have hparts' : ∀ s ∈ front ++ [last], '/' ∉ s := hparts ▸ not_mem_parts
  rcases List.mem_append.1 hs with hs | hs
  · exact hparts' s (List.mem_append_left _ hs)
  · rw [List.mem_singleton.1 hs, List.mem_append, not_or]
    exact ⟨hparts' last (List.mem_append_right _ (List.mem_singleton_self _)), by simpa using hextension⟩

/-- A path does not start at the root. -/
theorem not_isAbsolute_path {spec extension p : String} (h : path spec extension = .ok p) :
    FilePath.isAbsolute p = false := by
  obtain ⟨s, ss, hparts⟩ := List.exists_cons_of_ne_nil (parts_ne_nil spec)
  have hs : s ∈ parts spec := hparts ▸ List.mem_cons_self
  obtain ⟨c, cs, rfl⟩ := List.exists_cons_of_ne_nil ((path_eq_ok.1 h).1 s hs).1
  have hc : c ≠ '/' := fun heq => not_mem_parts _ hs (heq ▸ List.mem_cons_self)
  rw [FilePath.isAbsolute, toList_path h, hparts]
  cases ss with
  | nil => simpa using hc
  | cons s' ss =>
    rw [List.intercalate_cons_of_ne_nil (List.cons_ne_nil _ _)]
    simpa using hc

end ModuleSpec

/-- Paths that a table of modules has are their own keys. -/
theorem ModuleSource.resolve_table {chunks : List (String × Source.Chunk)} {files : FileTree} {p key : String}
    (h : (ModuleSource.table chunks).resolve files p = .ok key) : key = p := by
  dsimp only [ModuleSource.resolve] at h
  split at h
  · exact (Except.ok.inj h).symm
  · cases h

/-- A spec has a path unless a segment is empty or leads nowhere or up; it is refused then. The path is relative and
consists of the segments, the last with the extension, and unless the extension brings in a slash, its components lead
down, each by one step. Specs have the same path, and the same key in a table of modules, if and only if their segments
are the same. -/
theorem ModuleSpec.paths_faithful (spec extension : String) :
    ((∃ p, path spec extension = .ok p) ↔ ∀ s ∈ parts spec, Down s) ∧
    ((¬∀ s ∈ parts spec, Down s) → path spec extension = .error (.invalidSpec spec)) ∧
    (∀ p, path spec extension = .ok p →
      FilePath.isAbsolute p = false ∧
      ∃ front last, parts spec = front ++ [last] ∧
        p.toList = ['/'].intercalate (front ++ [last ++ '.' :: extension.toList]) ∧
        ('/' ∉ extension.toList → steps p = front ++ [last ++ '.' :: extension.toList] ∧
          ∀ way, way <+: steps p → depth? 0 way = some way.length)) ∧
    ∀ other p q, path spec extension = .ok p → path other extension = .ok q →
      (p = q ↔ parts spec = parts other) ∧
      ∀ chunks files key key', (ModuleSource.table chunks).resolve files p = .ok key →
        (ModuleSource.table chunks).resolve files q = .ok key' → (key = key' ↔ parts spec = parts other) := by
  refine ⟨⟨fun ⟨p, h⟩ => (path_eq_ok.1 h).1, fun h => ⟨_, path_eq_ok.2 ⟨h, rfl⟩⟩⟩, path_eq_error,
    fun p h => ⟨not_isAbsolute_path h, ?_⟩, fun other p q h h' => ?_⟩
  · have hparts := (List.dropLast_concat_getLast (parts_ne_nil spec)).symm
    generalize (parts spec).dropLast = front, (parts spec).getLast (parts_ne_nil spec) = last at hparts
    refine ⟨front, last, hparts, ?_, fun hextension => ?_⟩
    · rw [toList_path h, hparts, intercalate_append]
    · have hsteps := steps_path h hparts hextension
      refine ⟨hsteps, fun way hway => ?_⟩
      have hdown : ∀ s ∈ front ++ [last], Down s := hparts ▸ (path_eq_ok.1 h).1
      rw [depth?_of_down fun c hc => ?_, Nat.zero_add]
      rcases List.mem_append.1 (hsteps ▸ hway.subset hc) with hc | hc
      · exact hdown c (List.mem_append_left _ hc)
      · rw [List.mem_singleton.1 hc]
        exact (hdown last (List.mem_append_right _ (List.mem_singleton_self _))).extended _
  · have hsame : p = q ↔ parts spec = parts other := ⟨fun heq => parts_eq_of_path_eq h (heq ▸ h'), path_eq_of_parts_eq h h'⟩
    refine ⟨hsame, fun chunks files key key' hkey hkey' => ?_⟩
    rw [ModuleSource.resolve_table hkey, ModuleSource.resolve_table hkey', hsame]

/-- Two spellings of one spec, with separators of both kinds. -/
theorem ModuleSpec.paths_faithful_spellings :
    (path "lib:a/b.c" "duo" = .ok "lib/a/b.c.duo" ∧ path "lib/a:b.c" "duo" = .ok "lib/a/b.c.duo" ∧
      path "lib:..:b" "duo" = .error (.invalidSpec "lib:..:b")) ∧
    parts "lib:a/b.c" = parts "lib/a:b.c" ∧ ∀ way, way <+: steps "lib/a/b.c.duo" → depth? 0 way = some way.length := by
  have hfirst : path "lib:a/b.c" "duo" = .ok "lib/a/b.c.duo" := rfl
  have hsecond : path "lib/a:b.c" "duo" = .ok "lib/a/b.c.duo" := rfl
  obtain ⟨-, -, hway, hsame⟩ := paths_faithful "lib:a/b.c" "duo"
  obtain ⟨-, front, last, -, -, hdown⟩ := hway _ hfirst
  obtain ⟨-, hrefused, -⟩ := paths_faithful "lib:..:b" "duo"
  refine ⟨⟨hfirst, hsecond, hrefused fun h => ?_⟩, (hsame _ _ _ hfirst hsecond).1.1 rfl, (hdown (by decide)).2⟩
  exact (h ['.', '.'] (by decide +kernel)).2.2 rfl

end DualShell
