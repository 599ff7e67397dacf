import DualShell.Proofs.Scope.Resolve

/-!
# What programs change

A variable can be changed in many places: as a target of an assignment, as the variable of a loop or of a handler, as
what a definition or a `use` binds, and as what is deleted. Resolution understands the name in each of them in its own
way. `Changes` finds them all, at any depth and in lambdas too, and whatever the scope a program was resolved in, it
finds only variables there that can be written (`Source.Chunk.compile_changes`): no fixed variable, and no member of a
namespace.
-/

namespace DualShell

open Compile

/-- A mention by which nothing is changed and no lambda is made. -/
def Mention.IsRead : Mention → Prop
  | .change _ => False
  | .make _ => False
  | _ => True

/-- A variable is changed in a piece of code that mentions this, or in a lambda in it, however deep. -/
inductive Changes (ref : Ref) : List Mention → Prop
  | here {ms} (h : .change ref ∈ ms) : Changes ref ms
  | inside {ms} {op : Code.Lambda} (h : .make op ∈ ms) (hop : Changes ref op.body.mentions) : Changes ref ms

namespace Changes

variable {ref : Ref} {ms ns : List Mention}

/-- All that is changed can be written. -/
def Allowed (ms : List Mention) : Prop := ∀ ref, Changes ref ms → ref.isWritable = true

/-- Only what is changed here and what is made here counts. -/
theorem sub (h : Changes ref ns) (hsub : ∀ m ∈ ns, m ∈ ms ∨ ∃ name, m = .drop name) : Changes ref ms := by
  cases h with
  | here h => exact .here ((hsub _ h).resolve_right fun hdrop => nomatch hdrop)
  | inside h hop => exact .inside ((hsub _ h).resolve_right fun hdrop => nomatch hdrop) hop

/-- What is changed by one of two parts is changed by the first or the second. -/
theorem of_append (h : Changes ref (ms ++ ns)) : Changes ref ms ∨ Changes ref ns := by
  cases h with
  | here h => exact (List.mem_append.1 h).imp .here .here
  | inside h hop => exact (List.mem_append.1 h).imp (.inside · hop) (.inside · hop)

/-- Names that are found are not changed by that. -/
theorem Allowed.of_read (h : ∀ m ∈ ms, m.IsRead) : Allowed ms := by
  intro ref hc
  cases hc with
  | here hm => exact (h _ hm).elim
  | inside hm => exact (h _ hm).elim

/-- Where all changes are allowed, those of a part are. -/
theorem Allowed.sub (h : Allowed ms) (hsub : ns ⊆ ms) : Allowed ns :=
  fun ref hc => h ref (hc.sub fun _ hm => .inl (hsub hm))

/-- A lambda changes what its body changes. -/
theorem Allowed.lambda {op : Code.Lambda} (h : Allowed op.body.mentions) : Allowed op.mentions := by
  intro ref hc
  have hcaptures : ∀ m ∈ op.captures.map Capture.mention, m.IsRead := by
    intro m hm
    obtain ⟨cap, -, rfl⟩ := List.mem_map.1 hm
    unfold Capture.mention
    split <;> trivial
  cases hc with
  | here hm =>
    rcases List.mem_cons.1 hm with heq | hm
    · nomatch heq
    · exact (hcaptures _ hm).elim
  | inside hm hop =>
    rcases List.mem_cons.1 hm with heq | hm
    · cases heq
      exact h ref hop
    · exact (hcaptures _ hm).elim

/-- Where the changes of a lambda are allowed, those of its body are. -/
theorem Allowed.of_lambda {op : Code.Lambda} (h : Allowed op.mentions) : Allowed op.body.mentions :=
  fun ref hc => h ref (.inside List.mem_cons_self hc)

end Changes

/-- A reference that is read is mentioned as read. -/
theorem Ref.mentions_read (ref : Ref) : ∀ m ∈ ref.mentions, m.IsRead := by
  induction ref with
  | member ns _ ih => exact ih
  | env => exact List.forall_mem_nil _
  | _ =>
    intro m hm
    cases List.mem_singleton.1 hm
    trivial

/-- The account by what the result changes; every scope is accounted for. -/
def Compile.changed : Account Mention where
  Ready _ := True
  Moves ms _ _ := Changes.Allowed ms
  nil _ := .of_read (List.forall_mem_nil _)
  append h h' := fun ref hc => hc.of_append.elim (h ref) (h' ref)
  ready _ := trivial

/-- The rule goes by what is mentioned. -/
theorem Compile.changed_byMention : changed.ByMention where
  sub h hsub _ := fun ref hc => h ref (hc.sub hsub)
  fixed _ _ := .of_read (List.forall_mem_singleton.2 trivial)
  change _ hw := by
    intro ref hc
    cases hc with
    | here hm =>
      cases List.mem_singleton.1 hm
      exact hw
    | inside hm => nomatch List.mem_singleton.1 hm
  isLocal _ _ := .of_read (List.forall_mem_singleton.2 trivial)
  declare _ _ := .of_read (List.forall_mem_singleton.2 trivial)
  undeclare _ _ := .of_read (List.forall_mem_singleton.2 trivial)
  resolve _ _ := .of_read (Ref.mentions_read _)
  resolveUp _ _ := .of_read (Ref.mentions_read _)
  inside _ _ := trivial
  close h _ := h.lambda

/-- Whatever the scope, all that a resolved program changes can be written. -/
theorem Source.Chunk.compile_changes {chunk : Source.Chunk} {src : String} {s t : Scope} {block : Code.Block}
    (h : chunk.compile src s = (.ok block, t)) : Changes.Allowed block.mentions := by
  unfold Source.Chunk.compile at h
  split at h
  · rename_i hrun
    cases h
    obtain ⟨ms, rfl, hallowed⟩ := compileChunk_writes src changed_byMention chunk s block t trivial hrun
    exact hallowed
  · nomatch h

end DualShell
