import Mathlib.Data.List.Chain
import DualShell.Proofs.Value.Keys

/-!
# Well-formed failures

A failure is well formed if it records no place twice in a row, and none at all if it is a flow signal, if it has at
least two parts in case it is made of others, and if all that is in it is well formed too. Every way to make and to take
apart values keeps this (`Law.formed`). Where the parts of a failure may come from is left open (`origin`).
-/

namespace DualShell

variable (origin : List Exception → Prop)

mutual

/-- A value in which every failure is well formed. -/
inductive Value.Formed : Value → Prop
  | string (s : String) : Value.Formed (.string s)
  | bool (b : Bool) : Value.Formed (.bool b)
  | ok : Value.Formed .ok
  | closure (c : Closure) : Value.Formed (.closure c)
  | ns (n : Namespace) : Value.Formed (.ns n)
  | list {items : List Value} (h : ∀ v ∈ items, Value.Formed v) : Value.Formed (.list items)
  | map {pairs : List (Value × Value)} (hkeys : ∀ p ∈ pairs, Value.Formed p.1) (hvalues : ∀ p ∈ pairs, Value.Formed p.2) :
      Value.Formed (.map pairs)
  | exception (identity : Nat) {e : Exception} (h : Exception.Formed e) : Value.Formed (.exception identity e)

/-- A failure that is well formed, and in which everything is. -/
inductive Exception.Formed : Exception → Prop
  | fail {v : Value} {trace : List Place} (h : Value.Formed v) (htrace : trace.IsChain (· ≠ ·)) :
      Exception.Formed ⟨.fail v, trace⟩
  | cause (c : Cause) {trace : List Place} (htrace : trace.IsChain (· ≠ ·)) : Exception.Formed ⟨.cause c, trace⟩
  | composite {es : List Exception} {trace : List Place} (hseveral : 2 ≤ es.length) (horigin : origin es)
      (h : ∀ e ∈ es, Exception.Formed e) (htrace : trace.IsChain (· ≠ ·)) : Exception.Formed ⟨.composite es, trace⟩
  | flow (f : Flow) : Exception.Formed ⟨.flow f, []⟩

end

variable {origin}

/-- A place is added at the end unless it is there already. -/
theorem Exception.Formed.passing {e : Exception} (place : Place) (h : e.Formed origin) :
    (e.passing place).Formed origin := by
  have hadd {trace : List Place} (htrace : trace.IsChain (· ≠ ·)) (hlast : ¬trace.getLast? = some place) :
      (trace ++ [place]).IsChain (· ≠ ·) :=
    htrace.append (.singleton _) fun a ha b hb heq => by
      cases hb
      exact hlast (heq ▸ ha)
  unfold Exception.passing
  split
  · exact h
  · rename_i hnew
    simp only [Bool.or_eq_true, beq_iff_eq, not_or] at hnew
    cases h with
    | fail hv htrace => exact .fail hv (hadd htrace hnew.2)
    | cause c htrace => exact .cause c (hadd htrace hnew.2)
    | composite hseveral horigin hes htrace => exact .composite hseveral horigin hes (hadd htrace hnew.2)
    | flow f => exact absurd rfl hnew.1

mutual

/-- Parts that may come from more places. -/
theorem Value.Formed.mono {origin' : List Exception → Prop} (ho : ∀ es, origin es → origin' es) :
    {v : Value} → v.Formed origin → v.Formed origin'
  | _, .string s => .string s
  | _, .bool b => .bool b
  | _, .ok => .ok
  | _, .closure c => .closure c
  | _, .ns n => .ns n
  | _, .list h => .list fun v hv => (h v hv).mono ho
  | _, .map hkeys hvalues => .map (fun p hp => (hkeys p hp).mono ho) fun p hp => (hvalues p hp).mono ho
  | _, .exception i h => .exception i (h.mono ho)

/-- What is well formed for an origin is so for a wider one. -/
theorem Exception.Formed.mono {origin' : List Exception → Prop} (ho : ∀ es, origin es → origin' es) :
    {e : Exception} → e.Formed origin → e.Formed origin'
  | _, .fail h htrace => .fail (h.mono ho) htrace
  | _, .cause c htrace => .cause c htrace
  | _, .composite hseveral horigin h htrace => .composite hseveral (ho _ horigin) (fun e he => (h e he).mono ho) htrace
  | _, .flow f => .flow f

end

/-- That failures are well formed is a law of values. -/
def Law.formed (origin : List Exception → Prop) : Law where
  value := Value.Formed origin
  failure := Exception.Formed origin
  string := .string
  bool := .bool
  ok := .ok
  closure := .closure
  ns := .ns
  list := ⟨fun h => by cases h with | list h => exact h, .list⟩
  emptyMap := .map (List.forall_mem_nil _) (List.forall_mem_nil _)
  insert h hk hv := by
    cases h with
    | map hkeys hvalues =>
      refine .map (fun p hp => ?_) fun p hp => ?_
      · rcases (Value.mem_insertPair hp).1 with rfl | ⟨q, hq, heq⟩
        · exact hk
        · exact heq ▸ hkeys q hq
      · rcases (Value.mem_insertPair hp).2 with rfl | ⟨q, hq, heq⟩
        · exact hv
        · exact heq ▸ hvalues q hq
  remove k h := by
    cases h with
    | map hkeys hvalues =>
      exact .map (fun p hp => hkeys p (List.mem_filter.1 hp).1) fun p hp => hvalues p (List.mem_filter.1 hp).1
  parts h := by
    cases h with
    | map hkeys hvalues => exact fun p hp => ⟨hkeys p hp, hvalues p hp⟩
  exception := ⟨fun h => by cases h with | exception _ h => exact h, .exception _⟩
  ofCause c := .cause c .nil
  ofFlow f := .flow f
  ofReason h := .fail h .nil
  passing place h := h.passing place
  reason h := by cases h with | fail h _ => exact h
  causes h := by cases h with | composite _ _ h _ => exact h

end DualShell
