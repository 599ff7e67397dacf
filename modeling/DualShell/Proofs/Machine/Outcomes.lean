import DualShell.Proofs.Flow.Ends
import DualShell.Proofs.Module.Nesting

/-!
# Outcomes of tasks

A task ends once, and as the work does that it was started for; whoever asks for its outcome is told how it ended
(`History.outcomes`). None of this depends on the order in which tasks go on and end.
-/

namespace DualShell

/-- The outcomes that nobody has asked for are handed out, and no others are lost or added. -/
theorem World.ended_perform (w : World) (who : TaskId) (r : Request) {e : TaskId × Outcome}
    (he : e ∈ (w.perform who r).2.ended) : e ∈ w.ended := by
  by_cases hstream : r.IsStream
  · rwa [(Streams.perform w who hstream).ended] at he
  cases r with
  | claimModule key place =>
    simp only [perform] at he
    split at he <;> exact he
  | join id =>
    simp only [perform] at he
    split at he
    · exact he
    · rename_i heq
      unfold World.takeEnded at heq
      split at heq
      · cases heq
        exact List.mem_of_mem_filter he
      · cases heq
  | _ => first | exact he | exact absurd trivial hstream

/-- How the task can end is among the ways in which the work can. -/
def Task.Continues (t : Task Outcome) (work : Work) : Prop :=
  ∀ es o, t.Ends es o → ∃ (l : Limits) (es' : List Exchange), (l.evaluator.evalWork work).Ends es' o

/-- What is known of outcomes: those that are kept are of tasks that ended, no task ends twice, and what was started
goes on as it was. -/
structure Pool.Accounts (ds : List Deed) (p : Pool) : Prop where
  kept : ∀ e ∈ p.world.ended, .ended e.1 e.2 ∈ ds
  gone : ∀ id o, .ended id o ∈ ds → id < p.world.nextTask ∧ id ∉ p.ids
  once : ∀ id o o', .ended id o ∈ ds → .ended id o' ∈ ds → o = o'
  begun : ∀ who w work id w', .answered who w (.spawn work) id w' ∈ ds → id < p.world.nextTask ∧
    (∀ s ∈ p.world.spawned, s.1 = id → s.2 = work) ∧ (∀ t ∈ p.tasks, t.1 = id → t.2.Continues work) ∧
    ∀ o, .ended id o ∈ ds → ∃ (l : Limits) (es : List Exchange), (l.evaluator.evalWork work).Ends es o

namespace Pool.Accounts

variable {ds : List Deed} {p p' : Pool}

/-- Nothing ends and nothing is started by request: tasks go on, go away, are taken up or are new. -/
theorem same (h : p.Accounts ds) (hended : ∀ e ∈ p'.world.ended, e ∈ p.world.ended)
    (hnext : p.world.nextTask ≤ p'.world.nextTask)
    (hspawned : ∀ s ∈ p'.world.spawned, s ∈ p.world.spawned ∨ p.world.nextTask ≤ s.1)
    (htasks : ∀ t ∈ p'.tasks, p.world.nextTask ≤ t.1 ∨
      (∃ t₀ ∈ p.tasks, t₀.1 = t.1 ∧ ∀ es o, t.2.Ends es o → ∃ es', t₀.2.Ends es' o) ∨
      ∃ s ∈ p.world.spawned, ∃ l : Limits, t = (s.1, l.evaluator.evalWork s.2)) : p'.Accounts ds where
  kept e he := h.kept e (hended e he)
  gone id o ho := by
    obtain ⟨hlt, hnot⟩ := h.gone id o ho
    refine ⟨Nat.lt_of_lt_of_le hlt hnext, fun hid => ?_⟩
    rcases List.mem_append.1 hid with hid | hid
    · obtain ⟨t, ht, rfl⟩ := List.mem_map.1 hid
      rcases htasks t ht with hle | ⟨t₀, ht₀, heq, -⟩ | ⟨s, hs, l, rfl⟩
      · exact absurd hlt (Nat.not_lt.2 hle)
      · exact hnot (List.mem_append_left _ (heq ▸ List.mem_map_of_mem ht₀))
      · exact hnot (List.mem_append_right _ (List.mem_map_of_mem hs))
    · obtain ⟨s, hs, rfl⟩ := List.mem_map.1 hid
      rcases hspawned s hs with hs | hle
      · exact hnot (List.mem_append_right _ (List.mem_map_of_mem hs))
      · exact absurd hlt (Nat.not_lt.2 hle)
  once := h.once
  begun who w work id w' hd := by
    obtain ⟨hlt, hstarted, hgoes, hends⟩ := h.begun who w work id w' hd
    refine ⟨Nat.lt_of_lt_of_le hlt hnext, fun s hs heq => ?_, fun t ht heq => ?_, hends⟩
    · exact (hspawned s hs).elim (fun hs => hstarted s hs heq) fun hle => absurd (heq ▸ hlt) (Nat.not_lt.2 hle)
    · subst heq
      rcases htasks t ht with hle | ⟨t₀, ht₀, heq, hends⟩ | ⟨s, hs, l, rfl⟩
      · exact absurd hlt (Nat.not_lt.2 hle)
      · intro es o ho
        obtain ⟨es', ho'⟩ := hends es o ho
        exact hgoes t₀ ht₀ heq es' o ho'
      · intro es o ho
        exact ⟨l, es, hstarted s hs rfl ▸ ho⟩

/-- A deed that neither ends nor starts a task by request. -/
theorem tell (h : p.Accounts ds) {d : Deed} (hended : ∀ id o, d ≠ .ended id o)
    (hspawned : ∀ who w work id w', d ≠ .answered who w (.spawn work) id w') : p.Accounts (ds ++ [d]) where
  kept e he := List.mem_append_left _ (h.kept e he)
  gone id o ho := by
    rcases List.mem_append.1 ho with ho | ho
    · exact h.gone id o ho
    · exact absurd (List.mem_singleton.1 ho).symm (hended id o)
  once id o o' ho ho' := by
    rcases List.mem_append.1 ho with ho | ho
    · rcases List.mem_append.1 ho' with ho' | ho'
      · exact h.once id o o' ho ho'
      · exact absurd (List.mem_singleton.1 ho').symm (hended id o')
    · exact absurd (List.mem_singleton.1 ho).symm (hended id o)
  begun who w work id w' hd := by
    rcases List.mem_append.1 hd with hd | hd
    · obtain ⟨hlt, hstarted, hgoes, hends⟩ := h.begun who w work id w' hd
      refine ⟨hlt, hstarted, hgoes, fun o ho => ?_⟩
      rcases List.mem_append.1 ho with ho | ho
      · exact hends o ho
      · exact absurd (List.mem_singleton.1 ho).symm (hended id o)
    · exact absurd (List.mem_singleton.1 hd).symm (hspawned who w work id w')

variable {before after : List (TaskId × Task Outcome)} {who : TaskId} {w w' : World}

/-- A request of a task is answered. -/
theorem answer {r : Request} {next : r.Response → Task Outcome}
    (h : Accounts ds ⟨before ++ (who, .request r next) :: after, w⟩)
    (hnumbered : Numbered ds ⟨before ++ (who, .request r next) :: after, w⟩) {x : r.Response}
    (hx : w.perform who r = (some x, w')) :
    Accounts (ds ++ [.answered who w r x w']) ⟨before ++ (who, next x) :: after, w'⟩ := by
  have hended : ∀ e ∈ w'.ended, e ∈ w.ended := fun e he => w.ended_perform who r (by rwa [hx])
  have hwork := w.perform_begins who r
  rw [hx] at hwork
  have htasks : ∀ t ∈ before ++ (who, next x) :: after, ∃ t₀ ∈ before ++ (who, .request r next) :: after, t₀.1 = t.1 ∧
      ∀ es o, t.2.Ends es o → ∃ es', t₀.2.Ends es' o := by
    intro t ht
    simp only [List.mem_append, List.mem_cons] at ht ⊢
    rcases ht with ht | rfl | ht
    · exact ⟨t, .inl ht, rfl, fun es _ ho => ⟨es, ho⟩⟩
    · exact ⟨_, .inr (.inl rfl), rfl, fun es _ ho => ⟨_, .request x ho⟩⟩
    · exact ⟨t, .inr (.inr ht), rfl, fun es _ ho => ⟨es, ho⟩⟩
  have hmoved : Accounts ds ⟨before ++ (who, next x) :: after, w'⟩ := by
    refine h.same hended ?_ (fun s hs => ?_) fun t ht => .inr (.inl (htasks t ht))
    · rcases hwork with ⟨-, hnext, -⟩ | ⟨work, -, hnext, -⟩
      · exact Nat.le_of_eq hnext.symm
      · exact hnext ▸ Nat.le_succ _
    · rcases hwork with ⟨-, -, hspawned⟩ | ⟨work, -, -, hspawned⟩
      · exact .inl (hspawned ▸ hs)
      · rcases List.mem_append.1 (hspawned ▸ hs) with hs | hs
        · exact .inl hs
        · exact .inr (List.mem_singleton.1 hs ▸ Nat.le_refl _)
  cases r with
  | spawn work =>
    cases hx
    have hids : ∀ id ∈ Pool.ids ⟨before ++ (who, .request (.spawn work) next) :: after, w⟩, id ≠ w.nextTask := fun id hid =>
      Nat.ne_of_lt (hnumbered.lt id hid)
    refine ⟨fun e he => List.mem_append_left _ (hmoved.kept e he), fun id o ho => ?_, fun id o o' ho ho' => ?_,
      fun who₁ w₁ work₁ id w₁' hd => ?_⟩
    · exact hmoved.gone id o ((List.mem_append.1 ho).resolve_right fun ho => nomatch List.mem_singleton.1 ho)
    · exact h.once id o o' ((List.mem_append.1 ho).resolve_right fun ho => nomatch List.mem_singleton.1 ho)
        ((List.mem_append.1 ho').resolve_right fun ho => nomatch List.mem_singleton.1 ho)
    · have hold : ∀ {o}, .ended id o ∈ ds ++ [.answered who w (.spawn work) w.nextTask (w.spawn work).2] →
        .ended id o ∈ ds :=
        fun ho => (List.mem_append.1 ho).resolve_right fun ho => nomatch List.mem_singleton.1 ho
      rcases List.mem_append.1 hd with hd | hd
      · obtain ⟨hlt, hstarted, hgoes, hends⟩ := hmoved.begun who₁ w₁ work₁ id w₁' hd
        exact ⟨hlt, hstarted, hgoes, fun o ho => hends o (hold ho)⟩
      · -- The number that the task begins under is new.
        cases List.mem_singleton.1 hd
        refine ⟨Nat.lt_succ_self _, fun s hs heq => ?_, fun t ht heq => ?_, fun o ho => ?_⟩
        · rcases List.mem_append.1 hs with hs | hs
          · exact absurd heq (hids s.1 (List.mem_append_right _ (List.mem_map_of_mem hs)))
          · exact congrArg Prod.snd (List.mem_singleton.1 hs)
        · obtain ⟨t₀, ht₀, heq₀, -⟩ := htasks t ht
          exact absurd (heq₀.trans heq) (hids t₀.1 (List.mem_append_left _ (List.mem_map_of_mem ht₀)))
        · exact absurd (h.gone _ o (hold ho)).1 (Nat.lt_irrefl _)
  | _ => exact hmoved.tell (fun _ _ heq => nomatch heq) fun _ _ _ _ _ heq => nomatch heq

/-- A task ends. -/
theorem finish {o : Outcome} (h : Accounts ds ⟨before ++ (who, .ret o) :: after, w⟩)
    (hnumbered : Numbered ds ⟨before ++ (who, .ret o) :: after, w⟩) :
    Accounts (ds ++ [.ended who o]) ⟨before ++ after, w.endTask who o⟩ := by
  have hstands : (who, Task.ret o) ∈ before ++ (who, .ret o) :: after := by simp
  have hsub : ∀ t ∈ before ++ after, t ∈ before ++ (who, .ret o) :: after := fun t ht => by
    simp only [List.mem_append, List.mem_cons] at ht ⊢
    exact ht.imp_right .inr
  have hnever : ∀ o', .ended who o' ∉ ds := fun o' ho' =>
    (h.gone who o' ho').2 (List.mem_append_left _ (List.mem_map_of_mem (f := Prod.fst) hstands))
  have hcases : ∀ {id o'}, .ended id o' ∈ ds ++ [.ended who o] → .ended id o' ∈ ds ∨ (id = who ∧ o' = o) := by
    intro id o' ho'
    refine (List.mem_append.1 ho').imp_right fun ho' => ?_
    cases List.mem_singleton.1 ho'
    exact ⟨rfl, rfl⟩
  refine ⟨fun e he => ?_, fun id o' ho' => ?_, fun id o₁ o₂ h₁ h₂ => ?_, fun who₁ w₁ work id w₁' hd => ?_⟩
  · rcases List.mem_append.1 he with he | he
    · exact List.mem_append_left _ (h.kept e he)
    · cases List.mem_singleton.1 he
      exact List.mem_append_right _ (List.mem_singleton_self _)
  · rcases hcases ho' with ho' | ⟨rfl, rfl⟩
    · obtain ⟨hlt, hnot⟩ := h.gone id o' ho'
      refine ⟨hlt, fun hid => hnot ?_⟩
      rcases List.mem_append.1 hid with hid | hid
      · obtain ⟨t, ht, rfl⟩ := List.mem_map.1 hid
        exact List.mem_append_left _ (List.mem_map_of_mem (hsub t ht))
      · exact List.mem_append_right _ hid
    · have hnodup := hnumbered.nodup
      simp only [Pool.ids, List.map_append, List.map_cons, List.append_assoc, List.cons_append] at hnodup
      refine ⟨(hnumbered.standing hstands).1, fun hid => ?_⟩
      have hperm := List.perm_middle.nodup_iff.1 hnodup
      exact (List.nodup_cons.1 hperm).1 (by simpa [Pool.ids, World.endTask] using hid)
  · rcases hcases h₁ with hold₁ | ⟨rfl, rfl⟩
    · rcases hcases h₂ with hold₂ | ⟨rfl, -⟩
      · exact h.once id o₁ o₂ hold₁ hold₂
      · exact absurd hold₁ (hnever o₁)
    · exact (hcases h₂).elim (fun hold₂ => absurd hold₂ (hnever o₂)) fun hsame => hsame.2.symm
  · obtain ⟨hlt, hstarted, hgoes, hends⟩ := h.begun who₁ w₁ work id w₁' ((List.mem_append.1 hd).resolve_right fun hd => by
      cases List.mem_singleton.1 hd)
    refine ⟨hlt, hstarted, fun t ht heq => hgoes t (hsub t ht) heq, fun o' ho' => ?_⟩
    rcases hcases ho' with ho' | ⟨rfl, rfl⟩
    · exact hends o' ho'
    · exact hgoes _ hstands rfl [] o' (.ret o')

/-- What is done from outside leaves the tasks as they are, and may only take away outcomes. -/
theorem quiet {tasks : List (TaskId × Task Outcome)} (h : Accounts ds ⟨tasks, w⟩) (hended : ∀ e ∈ w'.ended, e ∈ w.ended)
    (hnext : w'.nextTask = w.nextTask) (hspawned : w'.spawned = w.spawned) : Accounts ds ⟨tasks, w'⟩ := by
  refine h.same hended (Nat.le_of_eq hnext.symm) (fun s hs => .inl (hspawned ▸ hs)) fun t ht => .inr (.inl ?_)
  exact ⟨t, ht, rfl, fun es o ho => ⟨es, ho⟩⟩

/-- So it is when a deed tells of it. -/
theorem quiet_tell {tasks : List (TaskId × Task Outcome)} {d : Deed} (h : Accounts ds ⟨tasks, w⟩)
    (hended : w'.ended = w.ended) (hnext : w'.nextTask = w.nextTask) (hspawned : w'.spawned = w.spawned)
    (hends : ∀ id o, d ≠ .ended id o) (hspawns : ∀ who w work id w', d ≠ .answered who w (.spawn work) id w') :
    Accounts (ds ++ [d]) ⟨tasks, w'⟩ :=
  tell (h.quiet (fun _ he => hended ▸ he) hnext hspawned) hends hspawns

/-- A step of the tasks. -/
theorem step {ds' : List Deed} (h : p.Accounts ds) (hnumbered : p.Numbered ds) (hs : p.Step ds' p') :
    p'.Accounts (ds ++ ds') := by
  cases hs with
  | answer hx => exact h.answer hnumbered hx
  | @wait before who r next after w w' hx =>
    rw [List.append_nil]
    have hwork := w.perform_begins who r
    rw [hx] at hwork
    rcases hwork with ⟨-, hnext, hspawned⟩ | ⟨work, hbegins, -, -⟩
    · exact h.quiet (fun e he => w.ended_perform who r (by rwa [hx])) hnext hspawned
    · cases r with
      | spawn | startJob => nomatch hx
      | _ => exact hbegins.elim
  | finish => exact h.finish hnumbered
  | giveUp =>
    rw [List.append_nil]
    refine h.same (fun _ => id) (Nat.le_refl _) (fun s hs => .inl hs) fun t ht =>
      .inr (.inl ⟨t, ?_, rfl, fun es o ho => ⟨es, ho⟩⟩)
    simp only [List.mem_append, List.mem_cons] at ht ⊢
    exact ht.imp_right .inr
  | takeUp l =>
    rw [List.append_nil]
    refine h.same (fun _ => id) (Nat.le_refl _) (fun _ hs => nomatch hs) fun t ht => .inr ?_
    rcases List.mem_append.1 ht with ht | ht
    · exact .inl ⟨t, ht, rfl, fun es o ho => ⟨es, ho⟩⟩
    · obtain ⟨s, hs, rfl⟩ := List.mem_map.1 ht
      exact .inr ⟨s, hs, l, rfl⟩

end Pool.Accounts

/-- How tasks end, and who is told. -/
structure Outcomes (ds : List Deed) : Prop where
  /-- Whoever asks for the outcome of a task is told how it ended. -/
  told : ∀ {earlier later who w id o w'}, ds = earlier ++ .answered who w (.join id) o w' :: later → .ended id o ∈ earlier
  /-- No task ends twice. -/
  once : ∀ {id o o'}, .ended id o ∈ ds → .ended id o' ∈ ds → o = o'
  /-- A task ends as the work does that it was started for. -/
  begun : ∀ {who w work id w' o}, .answered who w (.spawn work) id w' ∈ ds → .ended id o ∈ ds →
    ∃ (l : Limits) (es : List Exchange), (l.evaluator.evalWork work).Ends es o

namespace History

variable {ds : List Deed} {p : Pool}

/-- In every history outcomes are accounted for. -/
theorem accounts (h : History Made ds p) : p.Accounts ds := by
  induction h with
  | create files source =>
    exact ⟨List.forall_mem_nil _, fun _ _ ho => absurd ho List.not_mem_nil, fun _ _ _ ho => absurd ho List.not_mem_nil,
      fun _ _ _ _ _ hd => absurd hd List.not_mem_nil⟩
  | step h hs ih => exact ih.step h.numbered hs
  | addKernel config env h ih => exact ih.quiet (fun _ => id) rfl rfl
  | compile h hk hcompile ih =>
    obtain ⟨scope, -, rfl⟩ := compile_block hcompile
    exact ih.quiet_tell rfl rfl rfl (fun _ _ heq => nomatch heq) fun _ _ _ _ _ heq => nomatch heq
  | launch l input h hblock hk hvalues hlaunch ih =>
    cases hlaunch
    refine ih.same (fun _ => id) (Nat.le_succ _) (fun s hs => .inl hs) fun t ht => ?_
    rcases List.mem_append.1 ht with ht | ht
    · exact .inr (.inl ⟨t, ht, rfl, fun es o ho => ⟨es, ho⟩⟩)
    · cases List.mem_singleton.1 ht
      exact .inl (Nat.le_refl _)
  | setVar name h hk hv ih =>
    unfold World.setVar
    rw [hk]
    exact ih.quiet_tell rfl rfl rfl (fun _ _ heq => nomatch heq) fun _ _ _ _ _ heq => nomatch heq
  | setEnv k name text h ih => exact ih.quiet (fun _ => id) rfl rfl
  | handOut h hv ih => exact ih.quiet_tell rfl rfl rfl (fun _ _ heq => nomatch heq) fun _ _ _ _ _ heq => nomatch heq
  | @takeCollected ds tasks w c h ih =>
    have hsame := World.Quiet.takeCollected w c
    exact ih.quiet (fun e he => (World.Streams.takeCollected w c).ended ▸ he) hsame.nextTask hsame.spawned
  | @takeEnded ds tasks w id o w' h ht ih =>
    have hsame := World.Quiet.takeEnded ht
    refine ih.quiet (fun e he => ?_) hsame.nextTask hsame.spawned
    unfold World.takeEnded at ht
    split at ht
    · cases ht
      exact List.mem_of_mem_filter he
    · nomatch ht
  | identify fresh h ih => exact ih.quiet (fun _ => id) rfl rfl
  | clearModules h ih =>
    exact ih.quiet_tell rfl rfl rfl (fun _ _ heq => nomatch heq) fun _ _ _ _ _ heq => nomatch heq

/-- Tasks end once and as what they were started for, and their outcomes are told as they are. -/
theorem outcomes (h : History Made ds p) : Outcomes ds where
  told := by
    rintro earlier later who w id o w' rfl
    obtain ⟨before, next, after, hearlier, hx⟩ := h.asked
    simp only [World.perform] at hx
    split at hx
    · cases hx
    · rename_i o₁ w₁ heq
      cases hx
      unfold World.takeEnded at heq
      split at heq
      · rename_i e hfind
        cases heq
        have hid := List.find?_some hfind
        have hmem := hearlier.accounts.kept _ (List.mem_of_find?_eq_some hfind)
        rwa [beq_iff_eq.1 hid] at hmem
      · cases heq
  once := h.accounts.once _ _ _
  begun hd ho := (h.accounts.begun _ _ _ _ _ hd).2.2.2 _ ho

end History

end DualShell
