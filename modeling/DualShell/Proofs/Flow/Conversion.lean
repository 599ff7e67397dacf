import DualShell.Proofs.Flow.Pipeline
import DualShell.Proofs.Json.Printed
import DualShell.Proofs.Value.Document

/-!
# Values through documents

Documents carry data: a value that has a document is what the document means, and what any document means has one
(`Value.json_faithful`). So values that are written as documents and read again come out of the pipeline one by one,
equal to what went in, as long as they are not nested deeper than a text may be.
-/

namespace DualShell

open Eval

/-! ## Nesting -/

namespace Value

mutual

/-- How many lists and maps lie around each other in a value. -/
def nesting : Value → Nat
  | .list items => itemsNesting items + 1
  | .map pairs => pairsNesting pairs + 1
  | _ => 0

/-- The deepest nesting of the items of a list. -/
def itemsNesting : List Value → Nat
  | [] => 0
  | v :: vs => max v.nesting (itemsNesting vs)

/-- The deepest nesting of the keys and values of a map. -/
def pairsNesting : List (Value × Value) → Nat
  | [] => 0
  | (k, v) :: ps => max (max k.nesting v.nesting) (pairsNesting ps)

end

/-- Items are nested no deeper than this if each is. -/
theorem itemsNesting_le_iff {vs : List Value} {d : Nat} : itemsNesting vs ≤ d ↔ ∀ v ∈ vs, v.nesting ≤ d := by
  induction vs with
  | nil => simp [itemsNesting]
  | cons v vs ih => rw [itemsNesting, List.forall_mem_cons, ← ih, Nat.max_le]

/-- Each value of a list has its document. -/
theorem forall₂_of_itemsToJson {vs : List Value} {js : List Json} (h : itemsToJson vs = .ok js) :
    List.Forall₂ (fun v j => v.toJson = .ok j) vs js := by
  induction vs generalizing js with
  | nil =>
    cases h
    exact .nil
  | cons v vs ih =>
    obtain ⟨j, js, hj, hjs, rfl⟩ := itemsToJson_cons.1 h
    exact .cons hj (ih hjs)

mutual

/-- A document is nested as deep as its value. -/
theorem within_of_toJson : (v : Value) → {d : Nat} → {j : Json} → v.nesting ≤ d → v.toJson = .ok j → Json.Within d j
  | .string s, d, _, _, h => by
    cases h
    exact .string d s
  | .bool b, d, _, _, h => by
    cases h
    exact .bool d b
  | .list items, d, _, hd, h => by
    obtain ⟨js, hjs, rfl⟩ := toJson_list.1 h
    rw [nesting] at hd
    obtain ⟨d, rfl⟩ := Nat.exists_eq_add_of_le' (Nat.le_trans (Nat.le_add_left 1 _) hd)
    exact .array (within_of_itemsToJson items (Nat.le_of_succ_le_succ hd) hjs)
  | .map pairs, d, _, hd, h => by
    obtain ⟨ms, hms, rfl⟩ := toJson_map.1 h
    rw [nesting] at hd
    obtain ⟨d, rfl⟩ := Nat.exists_eq_add_of_le' (Nat.le_trans (Nat.le_add_left 1 _) hd)
    refine .object fun m hm => ?_
    obtain ⟨p, hp, -, hdocument⟩ := ((membersOf_membersInto .nil hms).come m hm).resolve_left List.not_mem_nil
    exact within_of_pairs pairs (Nat.le_of_succ_le_succ hd) p hp hdocument
  | .closure _, _, _, _, h => nomatch h
  | .ok, _, _, _, h => nomatch h
  | .exception _ _, _, _, _, h => nomatch h
  | .ns _, _, _, _, h => nomatch h

/-- Documents of items are nested as the items are. -/
theorem within_of_itemsToJson : (vs : List Value) → {d : Nat} → {js : List Json} → itemsNesting vs ≤ d →
    itemsToJson vs = .ok js → ∀ j ∈ js, Json.Within d j
  | [], _, _, _, h => by
    cases h
    exact List.forall_mem_nil _
  | v :: vs, _, _, hd, h => by
    obtain ⟨j, js, hj, hjs, rfl⟩ := itemsToJson_cons.1 h
    rw [itemsNesting] at hd
    exact List.forall_mem_cons.2 ⟨within_of_toJson v (by omega) hj, within_of_itemsToJson vs (by omega) hjs⟩

/-- Documents of pairs are nested as their values are. -/
theorem within_of_pairs : (ps : List (Value × Value)) → {d : Nat} → pairsNesting ps ≤ d → ∀ p ∈ ps, {j : Json} →
    p.2.toJson = .ok j → Json.Within d j
  | [], _, _ => fun _ hp => absurd hp List.not_mem_nil
  | (k, v) :: ps, _, hd => fun p hp {_} h => by
    rw [pairsNesting] at hd
    rcases List.mem_cons.1 hp with rfl | hp
    · exact within_of_toJson v (by omega) h
    · exact within_of_pairs ps (by omega) p hp h

end

end Value

/-! ## The builtins -/

/-- What is written for values that have these documents is supplied. -/
theorem Builtin.supplies_toJson {vs : List Value} {js : List Json} (h : Value.itemsToJson vs = .ok js) {bound : Nat}
    (hbound : vs.length + (Json.lines js).length + 3 ≤ bound) : Builtin.toJson.Supplies bound vs (Json.lines js) := by
  intro e ctx who i o c he hinput houtput hc
  subst he
  have hschema : Builtin.toJson.schema.apply ⟨[], []⟩ = .ok ⟨[], []⟩ := rfl
  have hlines : Json.lines js = (js.map fun j => j.render ++ "\n").flatMap Utf8.encode := by
    have hnewline : Utf8.encode "\n" = [10] := by decide +kernel
    simp only [Json.lines, Json.bytes, List.flatMap_map, Utf8.encode_append, hnewline]
  rw [hlines] at hbound ⊢
  rw [e.evalAction_builtin _ _ hschema]
  refine e.supplies_forInputs hinput houtput ?_ hbound hc
  refine List.forall₂_map_right_iff.2 ((Value.forall₂_of_itemsToJson h).imp ?_)
  intro v j hj
  simp only [hj, Eval.ofExcept, pure_bind]

/-- Documents that were printed line by line are read and their values are put. -/
theorem Builtin.yields_fromJson {js : List Json} (h : ∀ j ∈ js, Json.Within Json.nestingLimit j) {bound : Nat}
    (hbound : (Json.lines js).length < bound) : Builtin.fromJson.Yields bound (Json.lines js) (js.map Value.ofJson) := by
  intro e ctx i o he hinput houtput
  subst he
  have hschema : Builtin.fromJson.schema.apply ⟨[], []⟩ = .ok ⟨[], []⟩ := rfl
  rw [e.evalAction_builtin _ _ hschema]
  simp only [Evaluator.runBuiltin, hinput]
  refine receives_bind (receives_readAll hbound rfl ?_)
  show (putDocuments ctx (Json.lines js)).Receives i o _ true .empty [] _
  unfold putDocuments
  rw [Json.readStream_printed h, ← List.append_nil (js.map Value.ofJson)]
  exact receives_bind (receives_putAll houtput _ (receives_pure ⟨rfl, rfl, rfl⟩))

/-! ## The pipeline -/

/-- `to-json | from-json`. -/
def Source.Chunk.conversion (whole left right : Span) : Source.Chunk := .piped .toJson .fromJson whole left right

/-- Values that have documents come out of the pipeline as what the documents mean. -/
theorem World.executes_conversion {w : World} (hrest : w.Resting) {k : KernelId} {kernel : Kernel}
    (hk : w.kernel? k = some kernel)
    (hto : "to-json~" ∉ kernel.names) (hfrom : "from-json~" ∉ kernel.names) {vs : List Value} {js : List Json}
    (hdocuments : Value.itemsToJson vs = .ok js) (hnesting : ∀ v ∈ vs, v.nesting ≤ Json.nestingLimit) {l : Limits}
    (hdepth : 0 < l.depth)
    (hloop : vs.length + (Json.lines js).length + 3 ≤ l.loop) (src : String) (whole left right : Span) :
    ∃ w' enough, ∀ requests rounds, enough ≤ requests → enough ≤ rounds →
      w.executeWithin { l with requests, rounds } k (.conversion whole left right) src [] vs =
        (.ran ⟨"", "", js.map Value.ofJson, none⟩, w') := by
  have hto' : Builtin.toJson.name ++ "~" = "to-json~" := by decide
  have hfrom' : Builtin.fromJson.name ++ "~" = "from-json~" := by decide
  have hwithin := Value.within_of_itemsToJson vs (Value.itemsNesting_le_iff.2 hnesting) hdocuments
  exact executes_piped hrest hk (hto' ▸ hto) (hfrom' ▸ hfrom) hdepth (Builtin.supplies_toJson hdocuments hloop)
    (Builtin.yields_fromJson hwithin (by omega)) src whole left right

namespace Value

/-- Documents carry data. -/
structure JsonFaithful : Prop where
  /-- A value has a document if it is made of strings, booleans, lists and maps with string keys, at every depth, and
  only then. -/
  encodes : ∀ v : Value, (∃ j, v.toJson = .ok j) ↔ v.Data
  /-- The document of a value means a value that is equal to it. -/
  back : ∀ (v : Value) (j : Json), v.Distinct → v.toJson = .ok j → (ofJson j == v) = true
  /-- What a document means has a document, which means the same. -/
  again : ∀ j : Json, ∃ j', (ofJson j).toJson = .ok j' ∧ (ofJson j' == ofJson j) = true
  /-- On a machine where nothing runs and the builtins have their names, values that have documents and are nested no
  deeper than a text may be come out of `to-json | from-json` in order, each as one that is equal to it, within all
  bounds that are large enough. -/
  piped : ∀ (w : World) (k : KernelId) (kernel : Kernel) (vs : List Value) (src : String) (whole left right : Span),
    w.Resting → w.kernel? k = some kernel → "to-json~" ∉ kernel.names → "from-json~" ∉ kernel.names →
    (∀ v ∈ vs, v.Data ∧ v.Distinct ∧ v.nesting ≤ 127) →
    ∃ loop, ∀ l : Limits, 0 < l.depth → loop ≤ l.loop → ∃ values w' enough,
    List.Forall₂ (fun v' v => (v' == v) = true) values vs ∧
      ∀ requests rounds, enough ≤ requests → enough ≤ rounds →
        w.executeWithin { l with requests, rounds } k (.conversion whole left right) src [] vs =
        (.ran ⟨"", "", values, none⟩, w')

theorem json_faithful : JsonFaithful where
  encodes := toJson_ok_iff
  back v _ hv h := hv.ofJson_toJson v h
  again := toJson_ofJson
  piped w k kernel vs src whole left right hrest hk hto hfrom hvs := by
    obtain ⟨js, hdocuments⟩ := (itemsToJson_ok_iff vs).2 fun v hv => (hvs v hv).1
    have hnesting : ∀ v ∈ vs, v.nesting ≤ Json.nestingLimit := fun v hv => (hvs v hv).2.2
    refine ⟨vs.length + (Json.lines js).length + 3, fun l hdepth hloop => ?_⟩
    obtain ⟨w', enough, hruns⟩ :=
      w.executes_conversion hrest hk hto hfrom hdocuments hnesting hdepth hloop src whole left right
    have hback := Distinct.items_back vs (fun v hv => (hvs v hv).2.1) hdocuments
    rw [ofItems_eq] at hback
    exact ⟨js.map ofJson, w', enough, hback, hruns⟩

end Value

end DualShell
