import DualShell.Proofs.Flow.Ends

/-!
# Reaping jobs

A call of `wait` asks how jobs ended (`Asks`) and then reaps them, one after another: it forgets a job, replays its
output, and gathers its failure (`Reaps`). Where everything that is written is taken, that brings each job's output to
where the caller writes (`Reaps.brings`); a replay that fails stops it, and what was gathered so far is dropped
(`Reaps.reached`).
-/

namespace DualShell

open Eval

/-! ## Output -/

/-- A byte or a value that is brought to where a form writes to. -/
inductive Delivery
  | byte (o : Outlet) (b : UInt8)
  | value (o : Outlet) (v : Value)

namespace Exchange

/-- What a machine takes in an exchange. -/
def delivery : Exchange → List Delivery
  | ⟨.write o data, .ok n⟩ => (data.take n).map (.byte o)
  | ⟨.put o v, .ok ()⟩ => [.value o v]
  | _ => []

/-- Something is written. -/
def IsOutput (e : Exchange) : Prop :=
  match e.request with
  | .write .. | .put .. => True
  | _ => False

/-- Something that a call of `wait` asks for. -/
def IsWaiting (e : Exchange) : Prop :=
  match e.request with
  | .listJobs _ | .findJob .. | .waitJob .. | .forgetJob .. => True
  | _ => e.IsOutput

/-- The machine takes what is written. -/
def Accepted : Exchange → Prop
  | ⟨.write .., .error _⟩ => False
  | ⟨.put .., .error _⟩ => False
  | _ => True

end Exchange

/-- What a machine takes in some exchanges. -/
def delivered (es : List Exchange) : List Delivery := es.flatMap Exchange.delivery

/-- What was delivered comes in the order of the exchanges. -/
theorem delivered_append (es es' : List Exchange) : delivered (es ++ es') = delivered es ++ delivered es' :=
  List.flatMap_append

/-- The job that is forgotten in an exchange. -/
def Exchange.forgets? (k : KernelId) (e : Exchange) : Option JobId :=
  match e.request with
  | .forgetJob k' id => if k' = k then some id else none
  | _ => none

/-- The jobs that are forgotten in some exchanges, one after another. -/
def reaped (k : KernelId) (es : List Exchange) : List JobId := es.filterMap (Exchange.forgets? k)

/-- The bytes and values of a result, where they go. -/
def RunResult.deliveries (r : RunResult) (out err : Outlet) : List Delivery :=
  (Utf8.encode r.out).map (.byte out) ++ (Utf8.encode r.err).map (.byte err) ++ r.values.map (.value out)

/-- An evaluation writes and does nothing else. -/
def Eval.Outputs {α : Type} (x : Eval α) : Prop := ∀ es r, x.Ends es r → ∀ e ∈ es, e.IsOutput

/-- An evaluation brings things where they go, unless something is not taken. -/
structure Eval.Brings (x : Eval Unit) (ds : List Delivery) : Prop where
  brought : ∀ es, x.Ends es (.ok ()) → delivered es = ds
  taken : ∀ es r, x.Ends es r → (∀ e ∈ es, e.Accepted) → r = .ok ()

section Output

variable {α β : Type}

namespace Eval.Outputs

/-- What yields a value without looking only outputs. -/
theorem pure {a : α} : (Pure.pure a : Eval α).Outputs := fun es r h e he => by
  obtain ⟨rfl, -⟩ := ends_pure.1 h
  cases he

/-- Evaluation one part after another only outputs if each part does. -/
theorem bind {x : Eval α} {f : α → Eval β} (hx : x.Outputs) (hf : ∀ a, (f a).Outputs) : (x >>= f).Outputs :=
  fun es r h e he => by
  obtain ⟨ex, h, -⟩ | ⟨es₁, es₂, a, rfl, h₁, h₂⟩ := ends_bind.1 h
  · exact hx es _ h e he
  · exact (List.mem_append.1 he).elim (hx es₁ _ h₁ e) (hf a es₂ r h₂ e)

/-- A request that is output only outputs. -/
theorem ask {q : Request} (hq : ∀ a, (⟨q, a⟩ : Exchange).IsOutput) : (Eval.ask q).Outputs := fun es r h e he => by
  obtain ⟨a, rfl, -⟩ := ends_ask.1 h
  exact List.mem_singleton.1 he ▸ hq a

theorem ofExcept (v : Except Cause α) : (Eval.ofExcept v).Outputs := fun es r h e he => by
  obtain ⟨rfl, -⟩ := ends_ofExcept.1 h
  cases he

end Eval.Outputs

/-- To write bytes is output. -/
theorem Outlet.writeAll_outputs (o : Outlet) (bound : Nat) (data : Bytes) : (o.writeAll bound data).Outputs := by
  induction bound generalizing data with
  | zero => exact fun es r h => absurd h not_ends_exhausted
  | succ bound ih =>
    unfold Outlet.writeAll
    split
    · exact .pure
    · exact .bind (.ask fun _ => trivial) fun a => .bind (.ofExcept a) fun n => ih _

theorem Context.writeTo_outputs (ctx : Context) (bound fd : Nat) (text : String) : (ctx.writeTo bound fd text).Outputs :=
  .bind (.ofExcept _) fun o => o.writeAll_outputs bound _

/-- To put a value is output. -/
theorem Context.put_outputs (ctx : Context) (v : Value) : (ctx.put v).Outputs :=
  .bind (.ofExcept _) fun o => .bind (Eval.Outputs.ask (q := .put o v) fun _ => trivial) fun (a : Except Cause Unit) =>
    .ofExcept a

theorem Context.putAll_outputs (ctx : Context) (vs : List Value) : (ctx.putAll vs).Outputs := by
  induction vs with
  | nil => exact .pure
  | cons v vs ih => exact .bind (ctx.put_outputs v) fun _ => ih

/-- A replay in its parts. -/
theorem RunResult.replay_eq (r : RunResult) (bound : Nat) (ctx : Context) : r.replay bound ctx = (do
    (if r.out.isEmpty then pure () else ctx.writeTo bound 1 r.out)
    (if r.err.isEmpty then pure () else ctx.writeTo bound 2 r.err)
    ctx.putAll r.values) := by
  unfold RunResult.replay
  cases r.out.isEmpty <;> cases r.err.isEmpty <;> rfl

/-- Whatever a replay comes to, it does nothing but write. -/
theorem RunResult.replay_outputs (r : RunResult) (bound : Nat) (ctx : Context) : (r.replay bound ctx).Outputs := by
  have hpart : ∀ (fd : Nat) (text : String),
    (if text.isEmpty then pure () else ctx.writeTo bound fd text : Eval Unit).Outputs := by
    intro fd text
    split
    · exact .pure
    · exact ctx.writeTo_outputs bound fd text
  rw [r.replay_eq]
  exact .bind (hpart 1 r.out) fun _ => .bind (hpart 2 r.err) fun _ => ctx.putAll_outputs r.values

namespace Eval.Brings

variable {x y : Eval Unit} {ds ds' : List Delivery}

/-- What ends at once brings nothing. -/
theorem pure : (Pure.pure () : Eval Unit).Brings [] where
  brought es h := by
    obtain ⟨rfl, -⟩ := ends_pure.1 h
    rfl
  taken es r h _ := (ends_pure.1 h).2

/-- What one part brings comes before what the next one does. -/
theorem bind (hx : x.Brings ds) (hy : y.Brings ds') : (x >>= fun _ => y).Brings (ds ++ ds') where
  brought es h := by
    obtain ⟨ex, -, hr⟩ | ⟨es₁, es₂, a, rfl, h₁, h₂⟩ := ends_bind.1 h
    · cases hr
    · rw [delivered_append, hx.brought es₁ h₁, hy.brought es₂ h₂]
  taken es r h htaken := by
    obtain ⟨ex, h, -⟩ | ⟨es₁, es₂, a, rfl, h₁, h₂⟩ := ends_bind.1 h
    · cases hx.taken es _ h htaken
    · exact hy.taken es₂ r h₂ fun e he => htaken e (List.mem_append_right _ he)

/-- What is brought to a descriptor that is open for writing. -/
theorem open_bind {v : Except Cause Outlet} {o : Outlet} (hv : v = .ok o) {f : Outlet → Eval Unit} (hf : (f o).Brings ds) :
    (ofExcept v >>= f).Brings ds := by
  subst hv
  exact hf

end Eval.Brings

/-- To write bytes brings them. -/
theorem Outlet.writeAll_brings (o : Outlet) (bound : Nat) (data : Bytes) :
    (o.writeAll bound data).Brings (data.map (.byte o)) := by
  induction bound generalizing data with
  | zero => exact ⟨fun es h => absurd h not_ends_exhausted, fun es r h => absurd h not_ends_exhausted⟩
  | succ bound ih =>
    unfold Outlet.writeAll
    split
    · rename_i hempty
      rw [List.isEmpty_iff.1 hempty]
      exact .pure
    · constructor
      · intro es h
        obtain ⟨a, rest, rfl, ha⟩ := ends_ask_bind.1 h
        obtain ⟨c, -, -, hr⟩ | ⟨n, rfl, hrest⟩ := ends_ofExcept_bind.1 ha
        · cases hr
        · calc delivered (⟨.write o data, .ok n⟩ :: rest) = (data.take n).map (.byte o) ++ delivered rest := rfl
            _ = (data.take n).map (.byte o) ++ (data.drop n).map (.byte o) := by rw [(ih _).brought rest hrest]
            _ = data.map (.byte o) := by rw [← List.map_append, List.take_append_drop]
      · intro es r h htaken
        obtain ⟨a, rest, rfl, ha⟩ := ends_ask_bind.1 h
        obtain ⟨c, rfl, -, -⟩ | ⟨n, rfl, hrest⟩ := ends_ofExcept_bind.1 ha
        · exact (htaken ⟨.write o data, .error c⟩ List.mem_cons_self).elim
        · exact (ih _).taken rest r hrest fun e he => htaken e (List.mem_cons_of_mem _ he)

variable {ctx : Context} {out err : Outlet}

/-- To write a text brings its bytes to where the descriptor writes. -/
theorem Context.writeTo_brings {fd : Nat} {o : Outlet} (ho : ctx.descriptors.expectOutput fd = .ok o) (bound : Nat)
    (text : String) :
    (ctx.writeTo bound fd text).Brings ((Utf8.encode text).map (.byte o)) := .open_bind ho (o.writeAll_brings bound _)

/-- To put a value brings it to the output. -/
theorem Context.put_brings (ho : ctx.descriptors.expectOutput 1 = .ok out) (v : Value) :
    (ctx.put v).Brings [.value out v] := by
  refine .open_bind ho ⟨fun es h => ?_, fun es r h htaken => ?_⟩
  · obtain ⟨a, rest, rfl, ha⟩ := ends_ask_bind.1 h
    obtain ⟨rfl, hr⟩ := ends_ofExcept.1 ha
    cases a with
    | ok u => rfl
    | error c => cases hr
  · obtain ⟨a, rest, rfl, ha⟩ := ends_ask_bind.1 h
    obtain ⟨rfl, rfl⟩ := ends_ofExcept.1 ha
    cases a with
    | ok u => rfl
    | error c => exact (htaken ⟨.put out v, .error c⟩ List.mem_cons_self).elim

/-- To put values brings them to the output, in order. -/
theorem Context.putAll_brings (ho : ctx.descriptors.expectOutput 1 = .ok out) (vs : List Value) :
    (ctx.putAll vs).Brings (vs.map (.value out)) := by
  induction vs with
  | nil => exact .pure
  | cons v vs ih => exact .bind (Context.put_brings ho v) ih

/-- A replay brings the output of a job where the caller writes. -/
theorem RunResult.replay_brings (hout : ctx.descriptors.expectOutput 1 = .ok out)
    (herr : ctx.descriptors.expectOutput 2 = .ok err)
    (r : RunResult) (bound : Nat) : (r.replay bound ctx).Brings (r.deliveries out err) := by
  have hpart : ∀ {fd : Nat} {o : Outlet} (text : String), ctx.descriptors.expectOutput fd = .ok o →
      (if text.isEmpty then pure () else ctx.writeTo bound fd text : Eval Unit).Brings
      ((Utf8.encode text).map (.byte o)) := by
    intro fd o text ho
    split
    · rename_i hempty
      rw [String.isEmpty_iff.1 hempty]
      exact .pure
    · exact Context.writeTo_brings ho bound text
  rw [r.replay_eq, RunResult.deliveries, List.append_assoc]
  exact .bind (hpart r.out hout) (.bind (hpart r.err herr) (Context.putAll_brings hout r.values))

end Output

/-! ## A call in its parts -/

/-- What was told of some jobs, as far as they have ended. -/
def resultsOf (told : List (JobId × Option RunResult)) : List (JobId × RunResult) := told.filterMap fun a => a.2.map (a.1, ·)

/-- The failures of some jobs. -/
def failuresOf (results : List (JobId × RunResult)) : List Exception := results.flatMap fun p => p.2.exception.toList

/-- How a call comes out that gathered failures, or was stopped. -/
def waitOutcome : Except Exception (List Exception) → Outcome
  | .ok [] => .ok ()
  | .ok [ex] => .error ex
  | .ok exs => .error (.ofCauses exs)
  | .error ex => .error ex

/-- What a call asks about one job: whether it is tracked, and then how it ended. -/
def inquiry (k : KernelId) : JobId × Option RunResult → List Exchange
  | (id, none) => [⟨.findJob k id, false⟩]
  | (id, some r) => [⟨.findJob k id, true⟩, ⟨.waitJob k id, r⟩]

/-- What a call asks at first: the jobs it is to reap, and how they ended. -/
inductive Asks (k : KernelId) : Option Value → List Exchange → Except Exception (List (JobId × RunResult)) → Prop
  | unreadable {v : Value} {c : Cause} (h : parseJobId v = .error c) : Asks k (some v) [] (.error (.ofCause c))
  | unknown {v : Value} {id : JobId} (h : parseJobId v = .ok id) :
      Asks k (some v) (inquiry k (id, none)) (.error (.ofCause (.index s!"no such job: {id}")))
  | given {v : Value} {id : JobId} (h : parseJobId v = .ok id) (r : RunResult) :
      Asks k (some v) (inquiry k (id, some r)) (.ok [(id, r)])
  | all {infos : List JobInfo} {told : List (JobId × Option RunResult)} (h : told.map (·.1) = infos.map (·.id)) :
      Asks k none (⟨.listJobs k, infos⟩ :: told.flatMap (inquiry k)) (.ok (resultsOf told))

/-- How jobs are reaped. -/
inductive Reaps (bound : Nat) (ctx : Context) :
    List (JobId × RunResult) → List Exchange → Except Exception (List Exception) → Prop
  | nil : Reaps bound ctx [] [] (.ok [])
  /-- A replay fails. -/
  | stopped {id : JobId} {r : RunResult} {rest : List (JobId × RunResult)} {es : List Exchange} {ex : Exception}
    (h : (r.replay bound ctx).Ends es (.error ex)) :
    Reaps bound ctx ((id, r) :: rest) (⟨.forgetJob ctx.kernel id, ()⟩ :: es) (.error ex)
  | replayed {id : JobId} {r : RunResult} {rest : List (JobId × RunResult)} {es es' : List Exchange}
      {o : Except Exception (List Exception)}
    (h : (r.replay bound ctx).Ends es (.ok ())) (hrest : Reaps bound ctx rest es' o) :
      Reaps bound ctx ((id, r) :: rest) (⟨.forgetJob ctx.kernel id, ()⟩ :: es ++ es') (o.map (r.exception.toList ++ ·))

section Parts

variable {bound : Nat} {ctx : Context} {es : List Exchange}

/-- To wait for a job does not fail: it is not tracked, or it has ended. -/
theorem ends_awaitJob {id : JobId} {x : Except Exception (Option RunResult)} :
    (awaitJob ctx id).Ends es x ↔ ∃ told, es = inquiry ctx.kernel (id, told) ∧ x = .ok told := by
  refine ends_ask_bind.trans ⟨?_, ?_⟩
  · rintro ⟨found, es', rfl, h⟩
    cases found with
    | false =>
      obtain ⟨rfl, rfl⟩ := ends_pure.1 h
      exact ⟨none, rfl, rfl⟩
    | true =>
      obtain ⟨r, es'', rfl, hlast⟩ := ends_ask_bind.1 h
      obtain ⟨rfl, rfl⟩ := ends_pure.1 hlast
      exact ⟨some r, rfl, rfl⟩
  · rintro ⟨_ | r, rfl, rfl⟩
    · exact ⟨false, [], rfl, ends_pure.2 ⟨rfl, rfl⟩⟩
    · exact ⟨true, _, rfl, ends_ask_bind.2 ⟨r, [], rfl, ends_pure.2 ⟨rfl, rfl⟩⟩⟩

/-- Jobs are asked after one by one, and the results are those of the ones that were told. -/
theorem ends_awaitJobs : {ids : List JobId} → ∀ {es : List Exchange} {r : Except Exception (List (JobId × RunResult))},
    (awaitJobs ctx ids).Ends es r → ∃ told : List (JobId × Option RunResult), told.map (·.1) = ids ∧
      es = told.flatMap (inquiry ctx.kernel) ∧ r = .ok (resultsOf told)
  | [], es, r, h => by
    obtain ⟨rfl, rfl⟩ := ends_pure.1 h
    exact ⟨[], rfl, rfl, rfl⟩
  | id :: ids, es, r, h => by
    obtain ⟨ex, hfirst, -⟩ | ⟨es₁, es', first, rfl, hfirst, hrest⟩ := ends_bind.1 h
    · obtain ⟨_, _, hx⟩ := ends_awaitJob.1 hfirst
      cases hx
    · obtain ⟨_, rfl, hx⟩ := ends_awaitJob.1 hfirst
      cases hx
      obtain ⟨ex, hrest, -⟩ | ⟨es₂, es₃, results, rfl, hrest, hlast⟩ := ends_bind.1 hrest
      · obtain ⟨_, _, _, hr⟩ := ends_awaitJobs hrest
        cases hr
      · obtain ⟨told, rfl, rfl, hr⟩ := ends_awaitJobs hrest
        cases hr
        cases first with
        | none =>
          obtain ⟨rfl, rfl⟩ := ends_pure.1 hlast
          exact ⟨(id, none) :: told, rfl, by simp, rfl⟩
        | some r₁ =>
          obtain ⟨rfl, rfl⟩ := ends_pure.1 hlast
          exact ⟨(id, some r₁) :: told, rfl, by simp, rfl⟩

/-- The replay of results goes as `Reaps` says. -/
theorem ends_reap : {results : List (JobId × RunResult)} → ∀ {es : List Exchange} {o : Except Exception (List Exception)},
    (reap bound ctx results).Ends es o → Reaps bound ctx results es o
  | [], es, o, h => by
    obtain ⟨rfl, rfl⟩ := ends_pure.1 h
    exact .nil
  | (id, r) :: rest, es, o, h => by
    obtain ⟨u, es', rfl, hreplay⟩ := ends_ask_bind.1 h
    obtain ⟨ex, hstop, rfl⟩ | ⟨es₁, es₂, u', rfl, hfull, hrest⟩ := ends_bind.1 hreplay
    · exact .stopped hstop
    · obtain ⟨ex, hstop, rfl⟩ | ⟨es₃, es₄, exs, rfl, hall, hlast⟩ := ends_bind.1 hrest
      · exact .replayed hfull (ends_reap hstop)
      · obtain ⟨rfl, rfl⟩ := ends_pure.1 hlast
        rw [List.append_nil]
        exact .replayed hfull (ends_reap hall)

/-- What follows on reaping raises the failures that were gathered. -/
theorem ends_reap_bind {f : List Exception → Eval Unit} {results : List (JobId × RunResult)} {o : Outcome}
    (h : (reap bound ctx results >>= f).Ends es o) (hnone : f [] = pure ()) (hone : ∀ ex, f [ex] = throw ex)
    (hmore : ∀ ex ex' exs, f (ex :: ex' :: exs) = throw (.ofCauses (ex :: ex' :: exs))) :
    ∃ fs, Reaps bound ctx results es fs ∧ o = waitOutcome fs := by
  obtain ⟨ex, hstop, rfl⟩ | ⟨es₁, es₂, exs, rfl, hall, hlast⟩ := ends_bind.1 h
  · exact ⟨.error ex, ends_reap hstop, rfl⟩
  · refine ⟨.ok exs, ?_⟩
    rcases exs with _ | ⟨ex, _ | ⟨ex', exs⟩⟩
    · rw [hnone] at hlast
      obtain ⟨rfl, rfl⟩ := ends_pure.1 hlast
      rw [List.append_nil]
      exact ⟨ends_reap hall, rfl⟩
    · rw [hone] at hlast
      obtain ⟨rfl, rfl⟩ := Task.ends_ret.1 hlast
      rw [List.append_nil]
      exact ⟨ends_reap hall, rfl⟩
    · rw [hmore] at hlast
      obtain ⟨rfl, rfl⟩ := Task.ends_ret.1 hlast
      rw [List.append_nil]
      exact ⟨ends_reap hall, rfl⟩

/-- A call asks for jobs, and reaps them. -/
theorem ends_waitFor {id : Option Value} {o : Outcome} (h : (waitFor id bound ctx).Ends es o) :
    (∃ ex, Asks ctx.kernel id es (.error ex) ∧ o = .error ex) ∨
      ∃ es₁ es₂ results fs, es = es₁ ++ es₂ ∧ Asks ctx.kernel id es₁ (.ok results) ∧ Reaps bound ctx results es₂ fs ∧
      o = waitOutcome fs := by
  unfold waitFor at h
  cases id with
  | none =>
    obtain ⟨infos, rest, rfl, hawait⟩ := ends_ask_bind.1 h
    obtain ⟨ex, hawait, -⟩ | ⟨es₁, es₂, results, rfl, hawait, hlast⟩ := ends_bind.1 hawait
    · obtain ⟨_, _, _, hr⟩ := ends_awaitJobs hawait
      cases hr
    · obtain ⟨told, htold, rfl, hr⟩ := ends_awaitJobs hawait
      cases hr
      obtain ⟨fs, hreaps, ho⟩ := ends_reap_bind hlast rfl (fun _ => rfl) fun _ _ _ => rfl
      exact .inr ⟨_, es₂, _, fs, rfl, .all htold, hreaps, ho⟩
  | some v =>
    obtain ⟨c, hc, rfl, rfl⟩ | ⟨id, hid, hask⟩ := ends_ofExcept_bind.1 h
    · exact .inl ⟨_, .unreadable hc, rfl⟩
    · obtain ⟨ex, hfirst, -⟩ | ⟨es₁, rest, first, rfl, hfirst, hrest⟩ := ends_bind.1 hask
      · obtain ⟨_, _, hx⟩ := ends_awaitJob.1 hfirst
        cases hx
      · obtain ⟨_, rfl, hx⟩ := ends_awaitJob.1 hfirst
        cases hx
        cases first with
        | none =>
          obtain ⟨rfl, rfl⟩ := ends_fail.1 hrest
          rw [List.append_nil]
          exact .inl ⟨_, .unknown hid, rfl⟩
        | some r =>
          obtain ⟨fs, hreaps, ho⟩ := ends_reap_bind hrest rfl (fun _ => rfl) fun _ _ _ => rfl
          exact .inr ⟨_, rest, _, fs, rfl, .given hid r, hreaps, ho⟩

/-- Jobs are reaped in the order of the exchanges. -/
theorem reaped_append (k : KernelId) (es es' : List Exchange) : reaped k (es ++ es') = reaped k es ++ reaped k es' :=
  List.filterMap_append

/-- Output reaps no job. -/
theorem reaped_outputs {k : KernelId} (h : ∀ e ∈ es, e.IsOutput) : reaped k es = [] := by
  refine List.filterMap_eq_nil_iff.2 fun e he => ?_
  have hout := h e he
  obtain ⟨r, a⟩ := e
  cases r <;> first | rfl | exact hout.elim

/-- To replay a result reaps no job. -/
theorem reaped_replay {k : KernelId} {r : RunResult} {o : Outcome} (h : (r.replay bound ctx).Ends es o) : reaped k es = [] :=
  reaped_outputs (r.replay_outputs bound ctx es o h)

/-- To forget a job reaps it. -/
theorem reaped_forget (id : JobId) (es : List Exchange) :
    reaped ctx.kernel (⟨.forgetJob ctx.kernel id, ()⟩ :: es) = id :: reaped ctx.kernel es := by
  simp [reaped, Exchange.forgets?]

/-- To ask for all jobs does not fail. -/
theorem Asks.all_ok {k : KernelId} {ex : Exception} : ¬Asks k none es (.error ex) := nofun

/-- A call about one job fails only if there is none of that number. -/
theorem Asks.eq_of_error {k : KernelId} {x : Value} {ex : Exception} {id : JobId} (h : Asks k (some x) es (.error ex))
    (hid : parseJobId x = .ok id) : ex = .ofCause (.index s!"no such job: {id}") := by
  cases h with
  | unreadable h => cases hid.symm.trans h
  | unknown h =>
    cases hid.symm.trans h
    rfl

/-- A call about one job gets its result and no other. -/
theorem Asks.eq_of_ok {k : KernelId} {x : Value} {results : List (JobId × RunResult)} {id : JobId}
    (h : Asks k (some x) es (.ok results)) (hid : parseJobId x = .ok id) : ∃ r, results = [(id, r)] := by
  cases h with
  | given h r =>
    cases hid.symm.trans h
    exact ⟨r, rfl⟩

/-- To ask about jobs changes nothing and brings nothing. -/
theorem quiet_inquiries (k : KernelId) (told : List (JobId × Option RunResult)) :
    reaped k (told.flatMap (inquiry k)) = [] ∧ delivered (told.flatMap (inquiry k)) = [] := by
  have hone (a : JobId × Option RunResult) : reaped k (inquiry k a) = [] ∧ delivered (inquiry k a) = [] := by
    obtain ⟨id, _ | r⟩ := a <;> exact ⟨rfl, rfl⟩
  constructor
  · exact (List.filterMap_flatMap ..).trans (List.flatMap_eq_nil_iff.2 fun a _ => (hone a).1)
  · exact List.flatMap_assoc.trans (List.flatMap_eq_nil_iff.2 fun a _ => (hone a).2)

/-- To ask after jobs reaps none and delivers nothing. -/
theorem Asks.quiet {k : KernelId} {id : Option Value} {r : Except Exception (List (JobId × RunResult))}
    (h : Asks k id es r) : reaped k es = [] ∧ delivered es = [] := by
  cases h with
  | unreadable | unknown | given => exact ⟨rfl, rfl⟩
  | all => exact quiet_inquiries k _

/-- What is output is part of waiting. -/
theorem Exchange.IsOutput.isWaiting {e : Exchange} (h : e.IsOutput) : e.IsWaiting := by
  obtain ⟨r, a⟩ := e
  cases r <;> first | exact h | exact h.elim

/-- Inquiries after jobs are part of waiting. -/
theorem inquiries_areWaiting (k : KernelId) (told : List (JobId × Option RunResult)) :
    ∀ e ∈ told.flatMap (inquiry k), e.IsWaiting := by
  intro e he
  obtain ⟨⟨id, _ | r⟩, -, he⟩ := List.mem_flatMap.1 he <;> simp only [inquiry, List.mem_cons, List.not_mem_nil,
    or_false] at he
  · subst he
    trivial
  · rcases he with rfl | rfl <;> trivial

/-- To ask after jobs is part of waiting. -/
theorem Asks.isWaiting {k : KernelId} {id : Option Value} {r : Except Exception (List (JobId × RunResult))}
    (h : Asks k id es r) : ∀ e ∈ es, e.IsWaiting := by
  have hone (a : JobId × Option RunResult) : ∀ e ∈ inquiry k a, e.IsWaiting := fun e he =>
    inquiries_areWaiting k [a] e (List.mem_flatMap.2 ⟨a, List.mem_singleton_self a, he⟩)
  intro e he
  cases h with
  | unreadable => cases he
  | unknown | given => exact hone _ e he
  | all =>
    rcases List.mem_cons.1 he with rfl | he
    · trivial
    · exact inquiries_areWaiting k _ e he

/-- To replay results is output, and jobs are forgotten. -/
theorem Reaps.exchanges {results : List (JobId × RunResult)} {fs : Except Exception (List Exception)}
    (h : Reaps bound ctx results es fs) : ∀ e ∈ es, e.IsOutput ∨ ∃ id, e = ⟨.forgetJob ctx.kernel id, ()⟩ := by
  induction h with
  | nil => exact List.forall_mem_nil _
  | stopped h => exact List.forall_mem_cons.2 ⟨.inr ⟨_, rfl⟩, fun e he => .inl (RunResult.replay_outputs _ _ _ _ _ h e he)⟩
  | replayed h _ ih =>
    refine List.forall_mem_append.2 ⟨List.forall_mem_cons.2 ⟨.inr ⟨_, rfl⟩, fun e he => .inl ?_⟩, ih⟩
    exact RunResult.replay_outputs _ _ _ _ _ h e he

/-- To replay results is part of waiting. -/
theorem Reaps.isWaiting {results : List (JobId × RunResult)} {fs : Except Exception (List Exception)}
    (h : Reaps bound ctx results es fs) : ∀ e ∈ es, e.IsWaiting := by
  intro e he
  rcases h.exchanges e he with hout | ⟨id, rfl⟩
  · exact hout.isWaiting
  · trivial

/-- The jobs that have ended are some of those that were told of, in the same order. -/
theorem resultsOf_sublist (told : List (JobId × Option RunResult)) :
    ((resultsOf told).map (·.1)).Sublist (told.map (·.1)) := by
  induction told with
  | nil => exact .slnil
  | cons a told ih =>
    obtain ⟨id, _ | r⟩ := a
    · exact .cons _ ih
    · exact .cons_cons _ ih

/-- If each job was told of, the results are as many. -/
theorem map_resultsOf {told : List (JobId × Option RunResult)} (h : ∀ a ∈ told, a.2 ≠ none) :
    (resultsOf told).map (·.1) = told.map (·.1) := by
  induction told with
  | nil => rfl
  | cons a told ih =>
    obtain ⟨ha, hrest⟩ := List.forall_mem_cons.1 h
    obtain ⟨id, _ | r⟩ := a
    · exact absurd rfl ha
    · exact congrArg (id :: ·) (ih hrest)

/-- The jobs that a call is to reap are those that it was told of. -/
theorem Asks.told {k : KernelId} {argument : Option Value} {results : List (JobId × RunResult)}
    (h : Asks k argument es (.ok results))
    {id : JobId} {r : RunResult} : (⟨.waitJob k id, r⟩ : Exchange) ∈ es ↔ (id, r) ∈ results := by
  cases h with
  | given => simp [inquiry]
  | @all infos told =>
    refine List.mem_cons.trans ((or_iff_right fun heq => by cases heq).trans (List.mem_flatMap.trans ⟨?_, ?_⟩))
    · rintro ⟨⟨id', _ | r'⟩, ha, he⟩
      · simp [inquiry] at he
      · obtain ⟨rfl, rfl⟩ : id = id' ∧ r = r' := by simpa [inquiry] using he
        exact List.mem_filterMap.2 ⟨_, ha, rfl⟩
    · intro h
      obtain ⟨⟨id', told⟩, ha, hsome⟩ := List.mem_filterMap.1 h
      obtain ⟨r', rfl, heq⟩ := Option.map_eq_some_iff.1 hsome
      cases heq
      exact ⟨_, ha, by simp [inquiry]⟩

/-- A job that a call is told of was found before. -/
theorem Asks.found {k : KernelId} {argument : Option Value} {results : List (JobId × RunResult)}
    (h : Asks k argument es (.ok results))
    {id : JobId} {r : RunResult} (hr : (id, r) ∈ results) : ∃ first last, es = first ++ inquiry k (id, some r) ++ last := by
  cases h with
  | given =>
    cases List.mem_singleton.1 hr
    exact ⟨[], [], (List.append_nil _).symm⟩
  | @all infos told =>
    obtain ⟨⟨id', answer⟩, ha, hsome⟩ := List.mem_filterMap.1 hr
    obtain ⟨r', rfl, heq⟩ := Option.map_eq_some_iff.1 hsome
    cases heq
    obtain ⟨before, after, rfl⟩ := List.append_of_mem ha
    exact ⟨⟨.listJobs k, infos⟩ :: before.flatMap (inquiry k), after.flatMap (inquiry k), by simp⟩

/-- How far the reaping of jobs came: the failures of those that are done were gathered, or were lost with the failure
of a replay. -/
inductive Reached (bound : Nat) (ctx : Context) (done rest : List (JobId × RunResult)) :
    Except Exception (List Exception) → Prop
  | finished (h : rest = []) : Reached bound ctx done rest (.ok (failuresOf done))
  | stopped {id : JobId} {r : RunResult} {es : List Exchange} {ex : Exception} (hlast : done.getLast? = some (id, r))
    (h : (r.replay bound ctx).Ends es (.error ex)) : Reached bound ctx done rest (.error ex)

/-- Jobs are reaped in their order, up to the first whose replay fails. -/
theorem Reaps.reached {results : List (JobId × RunResult)} {fs : Except Exception (List Exception)}
    (h : Reaps bound ctx results es fs) :
    ∃ done rest, results = done ++ rest ∧ reaped ctx.kernel es = done.map (·.1) ∧ Reached bound ctx done rest fs := by
  induction h with
  | nil => exact ⟨[], [], rfl, rfl, .finished rfl⟩
  | @stopped id r rest es ex h =>
    refine ⟨[(id, r)], rest, rfl, ?_, .stopped rfl h⟩
    rw [reaped_forget, reaped_replay h]
    rfl
  | @replayed id r rest es es' o h _ ih =>
    obtain ⟨done, rest', rfl, hreaped, hreached⟩ := ih
    refine ⟨(id, r) :: done, rest', rfl, ?_, ?_⟩
    · rw [List.cons_append, reaped_forget, reaped_append, reaped_replay h, hreaped]
      rfl
    · cases hreached with
      | finished hrest => exact .finished hrest
      | @stopped id' r' es'' ex hlast hstop =>
        have hlast' : ((id, r) :: done).getLast? = some (id', r') := by
          rw [List.getLast?_cons, hlast]
          rfl
        exact .stopped hlast' hstop

/-- Where all that is written is taken, all jobs are reaped and all their output is brought. -/
theorem Reaps.brings {out err : Outlet} {results : List (JobId × RunResult)} {fs : Except Exception (List Exception)}
    (h : Reaps bound ctx results es fs) (hout : ctx.descriptors.expectOutput 1 = .ok out)
    (herr : ctx.descriptors.expectOutput 2 = .ok err) (htaken : ∀ e ∈ es, e.Accepted) :
    fs = .ok (failuresOf results) ∧ delivered es = (results.flatMap fun p => p.2.deliveries out err) ∧
      reaped ctx.kernel es = results.map (·.1) := by
  induction h with
  | nil => exact ⟨rfl, rfl, rfl⟩
  | @stopped id r rest es ex h =>
    cases (r.replay_brings hout herr bound).taken es _ h fun e he => htaken e (List.mem_cons_of_mem _ he)
  | @replayed id r rest es es' o h _ ih =>
    obtain ⟨rfl, hbrought, hreaped⟩ := ih fun e he => htaken e (List.mem_append_right _ he)
    refine ⟨rfl, ?_, ?_⟩
    · rw [delivered_append, hbrought, List.flatMap_cons, ← (r.replay_brings hout herr bound).brought es h]
      rfl
    · rw [List.cons_append, reaped_forget, reaped_append, reaped_replay h, hreaped]
      rfl

end Parts

end DualShell
