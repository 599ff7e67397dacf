import DualShell.Eval.Builtin

/-!
# Arguments are checked as a whole

A builtin says in its interface how many arguments and which options it takes. `Schema.fill` checks the arguments
against all of it and only then adds the defaults, so that arguments that fail are left as they were, and those that
pass hold what was given, followed by defaults (`Schema.Completes`). `Schema.Verdict` says when each happens, and
`Builtin.arguments_checked` that it holds of every interface and comes before every run of a builtin.
-/

namespace DualShell

namespace Arguments

/-- Of two options of one name, the later one counts. -/
theorem opt?_append_singleton (positional : List Value) (opts : List (String × Value)) (name other : String) (v : Value) :
    (Arguments.mk positional (opts ++ [(name, v)])).opt? other =
      if name == other then some v else (Arguments.mk positional opts).opt? other := by
  simp only [opt?, List.reverse_append, List.reverse_singleton, List.singleton_append, List.find?_cons]
  cases name == other <;> rfl

end Arguments

namespace Schema

/-! ## Defaults -/

section Defaults

variable (os : List OptionSpec) (a : Arguments)

/-- A default is found where nothing else is. -/
theorem opt?_addDefault (o : OptionSpec) (name : String) :
    (addDefault a o).opt? name = (a.opt? name).or (if o.name == name then some o.default else none) := by
  unfold addDefault
  by_cases hname : o.name = name
  · subst hname
    cases hgiven : a.opt? o.name with
    | some v => simp [hgiven]
    | none => simp [Arguments.opt?_append_singleton]
  · cases hgiven : a.opt? o.name with
    | some v => simp [hname]
    | none => simp [Arguments.opt?_append_singleton, hname]

/-- The first default of a name is found where nothing else is. -/
theorem opt?_foldl_addDefault (name : String) :
    (os.foldl addDefault a).opt? name = (a.opt? name).or ((os.find? (·.name == name)).map (·.default)) := by
  induction os generalizing a with
  | nil => simp
  | cons o os ih =>
    rw [List.foldl_cons, ih, opt?_addDefault, Option.or_assoc, List.find?_cons]
    cases o.name == name <;> simp

/-- Defaults are options, so positional arguments stay. -/
theorem positional_foldl_addDefault : (os.foldl addDefault a).positional = a.positional := by
  refine List.foldlRecOn (motive := fun b : Arguments => b.positional = a.positional) os _ rfl fun b hb o _ => ?_
  unfold addDefault
  split <;> exact hb

/-- What was given is in front of the defaults. -/
theorem opts_foldl_addDefault :
    ∃ defaults, (os.foldl addDefault a).opts = a.opts ++ defaults ∧ ∀ p ∈ defaults, ∃ o ∈ os, p = (o.name, o.default) := by
  refine List.foldlRecOn (motive := fun b : Arguments => ∃ defaults, b.opts = a.opts ++ defaults ∧
      ∀ p ∈ defaults, ∃ o ∈ os, p = (o.name, o.default))
    os _ ⟨[], (List.append_nil _).symm, fun _ hp => nomatch hp⟩ fun b ⟨defaults, hopts, hdefaults⟩ o ho => ?_
  unfold addDefault
  split
  · exact ⟨defaults, hopts, hdefaults⟩
  · refine ⟨defaults ++ [(o.name, o.default)], by rw [hopts, List.append_assoc], ?_⟩
    exact List.forall_mem_append.2 ⟨hdefaults, List.forall_mem_singleton.2 ⟨o, ho, rfl⟩⟩

/-- Where every option has a value there is nothing to add. -/
theorem foldl_addDefault_of_isSome {os : List OptionSpec} {a : Arguments} (h : ∀ o ∈ os, (a.opt? o.name).isSome = true) :
    os.foldl addDefault a = a := by
  induction os with
  | nil => rfl
  | cons o os ih =>
    obtain ⟨ho, hos⟩ := List.forall_mem_cons.1 h
    obtain ⟨v, hv⟩ := Option.isSome_iff_exists.1 ho
    have hadd : addDefault a o = a := by rw [addDefault, hv]
    rw [List.foldl_cons, hadd, ih hos]

end Defaults

/-! ## The check -/

variable (s : Schema) (a : Arguments)

/-- So many arguments fit the parameters: every required one has an argument, and no argument is left over unless some
parameter takes any number of them. -/
def Admits (count : Nat) : Prop :=
  s.params.countP (·.presence == .required) ≤ count ∧ ((∃ p ∈ s.params, p.presence = .variadic) ∨ count ≤ s.params.length)

/-- The option listed under a name; of several the first. -/
def listed? (name : String) : Option OptionSpec := s.opts.find? (·.name == name)

/-- Every option that was given is taken. -/
def Knows : Prop := s.anyOptions = true ∨ ∀ o ∈ a.opts, ∃ l ∈ s.opts, l.name = o.1

/-- A number of arguments is taken if the schema admits it. -/
theorem takes_iff (count : Nat) : s.takes count = true ↔ s.Admits count := by
  rw [takes, Admits, fewest, most, ← List.countP_eq_length_filter, Bool.and_eq_true, decide_eq_true_eq]
  refine and_congr_right fun _ => ?_
  cases hvariadic : s.params.any (·.presence == .variadic) with
  | true => simpa using .inl (by simpa using hvariadic)
  | false =>
    have hnone : ¬∃ p ∈ s.params, p.presence = .variadic := by simpa using hvariadic
    simp [hnone]

/-- No option is refused if the schema knows all that are given. -/
theorem refused?_eq_none_iff : s.refused? a = none ↔ s.Knows a := by
  unfold refused? Knows lists
  split
  · simp [*]
  · simp [*]

/-- What arguments that pass become. -/
structure Completes (a b : Arguments) : Prop where
  positional : b.positional = a.positional
  /-- What was given stays, and stays in front. -/
  opts : ∃ defaults, b.opts = a.opts ++ defaults ∧ ∀ p ∈ defaults, ∃ l ∈ s.opts, p = (l.name, l.default)
  /-- A listed option has the value that was given last, or else its default. -/
  listed : ∀ name l, s.listed? name = some l → b.opt? name = some ((a.opt? name).getD l.default)
  /-- No other option has a value unless it was given. -/
  unlisted : ∀ name, s.listed? name = none → b.opt? name = a.opt? name
  /-- Checked again they stay as they are. -/
  again : s.fill.run.run b = (.ok (), b)

/-- What the check of arguments comes to. -/
structure Verdict : Prop where
  accepted : (∃ b, s.fill.run.run a = (.ok (), b)) ↔ s.Admits a.positional.length ∧ s.Knows a
  completed : ∀ b, s.fill.run.run a = (.ok (), b) → s.Completes a b
  /-- Arguments that fail are left as they were. -/
  unchanged : ∀ cause b, s.fill.run.run a = (.error cause, b) → b = a
  /-- The number of arguments is what fails first, -/
  miscounted : ¬s.Admits a.positional.length →
    (s.fill.run.run a).1 = .error (.arityMismatch s!"arguments to {s.name}" s.arityText a.positional.length)
  /-- and then the first option that is not taken. -/
  unknown : s.Admits a.positional.length → ∀ cause b, s.fill.run.run a = (.error cause, b) →
    ∃ o, a.opts.find? (fun o => !s.lists o.1) = some o ∧ cause = .type s!"{s.name} does not take option &{o.1}"

variable {s a}

/-- A wrong number of arguments is what is told first. -/
theorem run_fill_of_miscounted (h : ¬s.Admits a.positional.length) : s.fill.run.run a =
    (.error (.arityMismatch s!"arguments to {s.name}" s.arityText a.positional.length), a) := by
  have htakes : s.takes a.positional.length = false := Bool.eq_false_iff.2 (mt (s.takes_iff _).1 h)
  rw [run_fill, htakes]
  rfl

/-- An option that the schema does not know is told if the number of arguments is right. -/
theorem run_fill_of_refused (h : s.Admits a.positional.length) {name : String} (hname : s.refused? a = some name) :
    s.fill.run.run a = (.error (.type s!"{s.name} does not take option &{name}"), a) := by
  rw [run_fill, (s.takes_iff _).2 h, hname]
  rfl

/-- Arguments that are accepted get the defaults of what is missing. -/
theorem run_fill_of_accepted (h : s.Admits a.positional.length) (hknows : s.Knows a) :
    s.fill.run.run a = (.ok (), s.opts.foldl addDefault a) := by
  rw [run_fill, (s.takes_iff _).2 h, (s.refused?_eq_none_iff a).2 hknows]
  rfl

/-- Options that are taken and defaults are taken together. -/
theorem Knows.foldl_addDefault (h : s.Knows a) : s.Knows (s.opts.foldl addDefault a) := by
  refine h.imp_right fun hgiven => ?_
  obtain ⟨defaults, hopts, hdefaults⟩ := opts_foldl_addDefault s.opts a
  rw [hopts]
  refine List.forall_mem_append.2 ⟨hgiven, fun p hp => ?_⟩
  obtain ⟨o, ho, rfl⟩ := hdefaults p hp
  exact ⟨o, ho, rfl⟩

/-- With the defaults every option that the schema knows is there. -/
theorem completes_foldl_addDefault (h : s.Admits a.positional.length) (hknows : s.Knows a) :
    s.Completes a (s.opts.foldl addDefault a) where
  positional := positional_foldl_addDefault s.opts a
  opts := opts_foldl_addDefault s.opts a
  listed name l hl := by
    rw [opt?_foldl_addDefault, show s.opts.find? (·.name == name) = some l from hl]
    cases a.opt? name <;> rfl
  unlisted name hl := by
    rw [opt?_foldl_addDefault, show s.opts.find? (·.name == name) = none from hl]
    exact Option.or_none
  again := by
    have hadmits : s.Admits (s.opts.foldl addDefault a).positional.length := by rwa [positional_foldl_addDefault]
    have hgiven : ∀ o ∈ s.opts, ((s.opts.foldl addDefault a).opt? o.name).isSome = true := fun o ho => by
      have hlisted : (s.opts.find? (·.name == o.name)).isSome = true := List.find?_isSome.2 ⟨o, ho, beq_self_eq_true o.name⟩
      rw [opt?_foldl_addDefault, Option.isSome_or, Option.isSome_map, hlisted, Bool.or_true]
    rw [run_fill_of_accepted hadmits hknows.foldl_addDefault, foldl_addDefault_of_isSome hgiven]

variable (s a)

/-- The check comes to what the schema says. -/
theorem verdict : s.Verdict a := by
  by_cases hadmits : s.Admits a.positional.length
  · cases hrefused : s.refused? a with
    | none =>
      have hknows := (s.refused?_eq_none_iff a).1 hrefused
      have hrun := run_fill_of_accepted hadmits hknows
      refine ⟨⟨fun _ => ⟨hadmits, hknows⟩, fun _ => ⟨_, hrun⟩⟩, fun b hb => ?_, fun cause b hb => ?_, (absurd hadmits ·),
        fun _ cause b hb => ?_⟩
      all_goals rw [hrun] at hb; cases hb
      exact completes_foldl_addDefault hadmits hknows
    | some name =>
      have hrun := run_fill_of_refused hadmits hrefused
      have hknows : ¬s.Knows a := fun h => by rw [(s.refused?_eq_none_iff a).2 h] at hrefused; cases hrefused
      refine ⟨⟨fun ⟨b, hb⟩ => ?_, fun h => absurd h.2 hknows⟩, fun b hb => ?_, fun cause b hb => ?_, (absurd hadmits ·),
        fun _ cause b hb => ?_⟩
      all_goals rw [hrun] at hb; cases hb
      · rfl
      · unfold refused? at hrefused
        split at hrefused
        · cases hrefused
        · obtain ⟨o, ho, rfl⟩ := Option.map_eq_some_iff.1 hrefused
          exact ⟨o, ho, rfl⟩
  · have hrun := run_fill_of_miscounted hadmits
    refine ⟨⟨fun ⟨b, hb⟩ => ?_, fun h => absurd h.1 hadmits⟩, fun b hb => ?_, fun cause b hb => ?_, fun _ => by rw [hrun],
      fun h => absurd h hadmits⟩
    all_goals rw [hrun] at hb; cases hb
    rfl

end Schema

/-- Arguments are checked against the whole interface before a builtin runs with them: if they fail, the failure is all
there is to the call. -/
theorem Builtin.arguments_checked : (∀ (s : Schema) (a : Arguments), s.Verdict a) ∧
    ∀ (e : Evaluator) (command : Builtin) (args : List Value) (opts : List (String × Value)) (ctx : Context),
      (∀ cause b, command.schema.fill.run.run ⟨args, opts⟩ = (.error cause, b) →
        e.invoke command args opts ctx = Eval.fail cause) ∧
      ∀ b, command.schema.fill.run.run ⟨args, opts⟩ = (.ok (), b) →
      e.invoke command args opts ctx = e.runBuiltin command b ctx := by
  refine ⟨Schema.verdict, fun e command args opts ctx => ⟨fun cause b h => ?_, fun b h => ?_⟩⟩
  · rw [Evaluator.invoke, Schema.apply, h]
    rfl
  · rw [Evaluator.invoke, Schema.apply, h]
    rfl

/-- `echo a` runs with the text it was given and the separator it was not. -/
theorem Builtin.arguments_checked_echo : ∃ b, Builtin.echo.schema.fill.run.run ⟨[.string "a"], []⟩ = (.ok (), b) ∧
    b.positional = [.string "a"] ∧ b.opt? "sep" = some (.string " ") ∧ Builtin.echo.schema.fill.run.run b = (.ok (), b) := by
  have hverdict := Builtin.arguments_checked.1 Builtin.echo.schema ⟨[.string "a"], []⟩
  have hadmits : Builtin.echo.schema.Admits 1 := ⟨by decide, .inl ⟨_, List.mem_singleton_self _, rfl⟩⟩
  have hknows : Builtin.echo.schema.Knows ⟨[.string "a"], []⟩ := .inr (List.forall_mem_nil _)
  obtain ⟨b, hb⟩ := hverdict.accepted.2 ⟨hadmits, hknows⟩
  have hcompletes := hverdict.completed b hb
  exact ⟨b, hb, hcompletes.positional, hcompletes.listed "sep" separatorOption rfl, hcompletes.again⟩

end DualShell
