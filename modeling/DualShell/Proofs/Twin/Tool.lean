import DualShell.Program.Tool
import DualShell.Proofs.Program.Tool
import DualShell.Proofs.Twin.Stream

/-!
# Programs of the system under other numbers

A program sees texts and streams of bytes. At renamed streams it is the twin of itself (`Tool.run_twin`). A script
starts other programs, so its part is stated over programs that are twins (`Script.runRows_twin`).
-/

namespace DualShell

open Eval

variable {S : Scheme}

/-- The streams of a program under other numbers. -/
def Stdio.rename (ρ : Renaming) (s : Stdio) : Stdio :=
  ⟨s.input.map (·.rename ρ), s.output.map (·.rename ρ), s.errors.map (·.rename ρ)⟩

/-- Streams that may be used. -/
structure Stdio.Usable (ρ : Renaming) (s : Stdio) : Prop where
  output : ∀ o, s.output = some o → o.Writable ρ
  errors : ∀ o, s.errors = some o → o.Writable ρ

namespace Stdio

variable {ρ : Renaming} {s : Stdio}

/-- A descriptor is connected to the counterpart of what it was connected to. -/
theorem outlet_rename (s : Stdio) (fd : Nat) : (s.rename ρ).outlet fd = (s.outlet fd).map (·.rename ρ) := by
  unfold outlet
  split
  · rfl
  · split <;> rfl

/-- To connect a descriptor and to rename are done in either order. -/
theorem withOutlet_rename (s : Stdio) (fd : Nat) (o : Option Outlet) :
    (s.rename ρ).withOutlet fd (o.map (·.rename ρ)) = (s.withOutlet fd o).rename ρ := by
  unfold withOutlet
  split
  · rfl
  · split <;> rfl

/-- Streams that may be used are connected to ends that may be written to. -/
theorem Usable.outlet (h : s.Usable ρ) {fd : Nat} {o : Outlet} (ho : s.outlet fd = some o) : o.Writable ρ := by
  unfold Stdio.outlet at ho
  split at ho
  · exact h.output o ho
  · split at ho
    · exact h.errors o ho
    · nomatch ho

/-- A descriptor may be connected to an end that may be written to. -/
theorem Usable.withOutlet (h : s.Usable ρ) (fd : Nat) {o : Option Outlet} (ho : ∀ o', o = some o' → o'.Writable ρ) :
    (s.withOutlet fd o).Usable ρ := by
  unfold Stdio.withOutlet
  split
  · exact ⟨ho, h.errors⟩
  · split
    · exact ⟨h.output, ho⟩
    · exact h

end Stdio

namespace Invocation

/-- A program that runs with streams under other numbers. -/
def rename (ρ : Renaming) (p : Invocation) : Invocation := { p with stdio := p.stdio.rename ρ }

theorem rename_input {ρ : Renaming} (p : Invocation) : (p.rename ρ).stdio.input = p.stdio.input.map (·.rename ρ) := rfl

theorem rename_output {ρ : Renaming} (p : Invocation) : (p.rename ρ).stdio.output = p.stdio.output.map (·.rename ρ) := rfl

theorem rename_errors {ρ : Renaming} (p : Invocation) : (p.rename ρ).stdio.errors = p.stdio.errors.map (·.rename ρ) := rfl

variable {p : Invocation} (hp : p.stdio.Usable S.toRenaming)

section Output

include hp

/-- A program writes alike. -/
theorem write_twin (data : Bytes) : Twin S anyway (p.write data) ((p.rename S.toRenaming).write data) := by
  have ho := hp.output
  unfold write
  rw [rename_output]
  cases houtput : p.stdio.output with
  | none => exact .pure rfl
  | some o => exact Outlet.writeAll_twin (ho o houtput) _ _

/-- A program complains alike. -/
theorem complain_twin (line : String) : Twin S anyway (p.complain line) ((p.rename S.toRenaming).complain line) := by
  have he := hp.errors
  unfold complain
  rw [rename_errors]
  cases herrors : p.stdio.errors with
  | none => exact .pure rfl
  | some o => exact Outlet.writeAll_twin (he o herrors) _ _

/-- A complaint and then a result. -/
theorem complain_then_twin {α : Type} (line : String) (a : α) : Twin S anyway (do p.complain line; return a : Eval α)
    (do (p.rename S.toRenaming).complain line; return a : Eval α) :=
  (complain_twin hp line).andThen fun _ => .pure rfl

theorem complainAll_twin (lines : List String) :
    Twin S anyway (p.complainAll lines) ((p.rename S.toRenaming).complainAll lines) := by
  induction lines with
  | nil => exact .pure rfl
  | cons line lines ih => exact (complain_twin hp line).andThen fun _ => ih

/-- What `echo` writes is the same. -/
theorem echo_twin (escapes newline : Bool) (args : List String) :
    Twin S anyway (p.echo escapes newline args) ((p.rename S.toRenaming).echo escapes newline args) := by
  have hfinish : ∀ escapes newline words, Twin S anyway (echo.finish p escapes newline words)
      (echo.finish (p.rename S.toRenaming) escapes newline words) :=
    fun _ _ _ => (write_twin hp _).andThen fun _ => .pure rfl
  induction args generalizing escapes newline with
  | nil => exact hfinish _ _ _
  | cons arg args ih =>
    unfold echo
    split
    · exact ih _ _
    · split
      · exact ih _ _
      · split
        · exact ih _ _
        · exact hfinish _ _ _

theorem echoInScript_twin (args : List String) :
    Twin S anyway (p.echoInScript args) ((p.rename S.toRenaming).echoInScript args) := by
  unfold echoInScript
  split <;> exact (write_twin hp _).andThen fun _ => .pure rfl

/-- What `printf` writes is the same. -/
theorem printf_twin (args : List String) : Twin S anyway (p.printf args) ((p.rename S.toRenaming).printf args) := by
  unfold printf
  split
  · exact (complainAll_twin hp _).andThen fun _ => .pure rfl
  · exact (write_twin hp _).andThen fun _ => (complainAll_twin hp _).andThen fun _ => .pure rfl

theorem printfInScript_twin (label : String) (args : List String) :
    Twin S anyway (p.printfInScript label args) ((p.rename S.toRenaming).printfInScript label args) := by
  unfold printfInScript
  split
  · exact complain_then_twin hp _ _
  · exact (write_twin hp _).andThen fun _ => (complainAll_twin hp _).andThen fun _ => .pure rfl

/-- The input is copied alike. -/
theorem copyInput_twin (inlet : Inlet) (rounds : Nat) :
    Twin S anyway (p.copyInput inlet rounds) ((p.rename S.toRenaming).copyInput (inlet.rename S.toRenaming) rounds) := by
  induction rounds with
  | zero => exact .exhausted
  | succ rounds ih =>
    refine (inlet.readSome_twin _ _).andThen fun data => ?_
    split
    · exact .pure rfl
    · exact (write_twin hp data).andThen fun _ => ih

/-- Files have the same contents on both machines. -/
theorem concatenate_twin (paths : List String) :
    Twin S anyway (p.concatenate paths) ((p.rename S.toRenaming).concatenate paths) := by
  induction paths with
  | nil => exact .pure rfl
  | cons path paths ih =>
    have hread : Twin S anyway (ask (.readFile path)) (ask (.readFile path)) :=
      (Twin.ask (r := .readFile path) trivial fun _ _ => rfl).mono fun x x' hx => by cases hx; rfl
    unfold concatenate
    split
    · nomatch ‹path :: paths = []›
    · rename_i he
      cases he
      dsimp only
      rw [rename_input]
      cases p.stdio.input with
      | none => exact ih
      | some inlet => exact (copyInput_twin hp inlet p.bound).andThen fun _ => ih
    · rename_i he
      cases he
      refine hread.andThen fun x => ?_
      split
      · exact (write_twin hp _).andThen fun _ => ih
      · exact (complain_twin hp _).andThen fun _ => ih.andThen fun _ => .pure rfl

theorem cat_twin (paths : List String) : Twin S anyway (p.cat paths) ((p.rename S.toRenaming).cat paths) := by
  refine (concatenate_twin hp _).andThen fun ok => ?_
  split <;> exact .pure rfl

end Output

/-- A line of the input is the same. -/
theorem readLine_twin (p : Invocation) (inlet : Inlet) (line : Bytes) (rounds : Nat) :
    Twin S anyway (p.readLine inlet line rounds) ((p.rename S.toRenaming).readLine (inlet.rename S.toRenaming) line
      rounds) := by
  induction rounds generalizing line with
  | zero => exact .exhausted
  | succ rounds ih =>
    refine (inlet.readSome_twin _ _).andThen fun data => ?_
    split
    · exact .pure rfl
    · split
      · exact .pure rfl
      · exact ih _

end Invocation

namespace Script

/-- Variables of a script get the same words. -/
theorem readVariables_twin (proc : Invocation) (p : Parameters) (names : List String) :
    Twin S anyway (readVariables proc p names) (readVariables (proc.rename S.toRenaming) p names) := by
  unfold readVariables
  rw [Invocation.rename_input]
  cases proc.stdio.input with
  | none => exact .pure rfl
  | some inlet => exact (proc.readLine_twin inlet [] proc.bound).andThen fun _ => .pure rfl

/-- A file that is opened is under the same number everywhere. -/
theorem openFile_twin (path : String) (mode : RedirMode) :
    Twin S (Same fun x => ∀ p : Connection, x = .ok p → p.rename S.toRenaming = p ∧
      p.Usable S.toRenaming) (ask (.openFile path mode)) (ask (.openFile path mode)) :=
  Twin.ask (r := .openFile path mode) trivial fun _ _ => rfl

/-- A condition asks the same of the same files. -/
theorem holds?_twin (words : List String) : Twin S anyway (holds? words) (holds? words) := by
  have hread : ∀ path, Twin S anyway (ask (.readFile path)) (ask (.readFile path)) := fun path =>
    (Twin.ask (r := .readFile path) trivial fun _ _ => rfl).mono fun x x' hx => by cases hx; rfl
  fun_induction holds? words
  all_goals first
    | exact .pure rfl
    | (refine (hread _).andThen fun x => ?_
       first
       | exact .pure rfl
       | (split <;> exact .pure rfl))
    | (rename_i ih
       exact ih.andThen fun _ => .pure rfl)

theorem conditionStatus_twin (words : List String) : Twin S anyway (conditionStatus words) (conditionStatus words) := by
  refine (holds?_twin words).andThen fun answer => ?_
  split <;> exact .pure rfl

variable {proc : Invocation} (hproc : proc.stdio.Usable S.toRenaming) (p : Parameters)
include hproc

/-- A signal to the script itself ends it on both machines. -/
theorem signal_twin (line : Nat) (args : List String) :
    Twin S anyway (signal proc p line args) (signal (proc.rename S.toRenaming) p line args) := by
  unfold signal
  split
  split
  · exact .pure rfl
  · split
    · exact .pure rfl
    · exact Invocation.complain_then_twin hproc _ _
  · exact Invocation.complain_then_twin hproc _ _

/-- Redirections of a script connect its descriptors to counterparts. -/
theorem connect_twin (line : Nat) (redirects : List Redirect) {s : Stdio} (hs : s.Usable S.toRenaming) :
    Twin S (fun o o' => o' = o.map (·.rename S.toRenaming) ∧ ∀ s', o = some s' → s'.Usable S.toRenaming)
      (connect proc p line redirects s) (connect (proc.rename S.toRenaming) p line redirects (s.rename S.toRenaming)) := by
  have hcomplain : ∀ text, Twin S (fun o o' => o' = o.map (·.rename S.toRenaming) ∧ ∀ s', o = some s' →
    s'.Usable S.toRenaming)
      (do proc.complain text; return none : Eval (Option Stdio))
      (do (proc.rename S.toRenaming).complain text; return none) :=
    fun text => (Invocation.complain_twin hproc text).andThen fun _ => .pure ⟨rfl, fun _ h => nomatch h⟩
  have hset : ∀ fd (input : Option Inlet) (output : Option Outlet) {s : Stdio},
      connect.set fd (input.map (·.rename S.toRenaming)) (output.map (·.rename S.toRenaming)) (s.rename S.toRenaming) =
        (connect.set fd input output s).rename S.toRenaming := by
    intro fd input output s
    unfold connect.set
    split
    · rfl
    · exact Stdio.withOutlet_rename s fd output
  have hsetUsable : ∀ fd (input : Option Inlet) {output : Option Outlet} {s : Stdio}, s.Usable S.toRenaming →
      (∀ o, output = some o → o.Writable S.toRenaming) → (connect.set fd input output s).Usable S.toRenaming := by
    intro fd input output s hs ho
    unfold connect.set
    split
    · exact ⟨hs.output, hs.errors⟩
    · exact hs.withOutlet fd ho
  induction redirects generalizing s with
  | nil => exact .pure ⟨rfl, fun _ h => by cases h; exact hs⟩
  | cons r rs ih =>
    unfold connect
    split
    · split
      · rw [Stdio.outlet_rename, Stdio.withOutlet_rename]
        exact ih (hs.withOutlet _ fun o ho => hs.outlet ho)
      · exact hcomplain _
    · dsimp only
      split
      · have hnone := hset r.fd none none (s := s)
        rw [Option.map_none, Option.map_none] at hnone
        rw [hnone]
        exact ih (hsetUsable r.fd none hs fun _ h => nomatch h)
      · refine (openFile_twin _ _).bind fun x _ ⟨heq, hx⟩ => ?_
        subst heq
        split
        · rename_i connection _
          obtain ⟨hrename, husable⟩ := hx connection rfl
          have hconnect := hset r.fd connection.input connection.output (s := s)
          rw [show connection.input.map (·.rename S.toRenaming) = connection.input from congrArg Connection.input hrename,
            show connection.output.map (·.rename S.toRenaming) = connection.output from congrArg Connection.output
              hrename] at hconnect
          rw [hconnect]
          exact ih (hsetUsable r.fd _ hs husable)
        · exact hcomplain _

variable {launch : Tool → Invocation → Eval Exit}
  (hlaunch : ∀ tool (p : Invocation), p.stdio.Usable S.toRenaming →
    Twin S anyway (launch tool p) (launch tool (p.rename S.toRenaming)))
include hlaunch

/-- A program that a script starts does the same if those do that may be launched. -/
theorem start_twin (label name : String) (args : List String) :
    Twin S anyway (start launch proc p label name args) (start launch (proc.rename S.toRenaming) p label name args) := by
  refine Twin.bind (.ask (r := .program proc.kernel name) trivial fun _ _ => rfl) fun x _ hx => ?_
  cases hx
  split
  · exact hlaunch _ _ hproc
  · exact Invocation.complain_then_twin hproc _ _
  · exact Invocation.complain_then_twin hproc _ _

/-- The words of a command are done alike. -/
theorem runWords_twin (line : Nat) (words : List String) :
    Twin S anyway (runWords launch proc p line words) (runWords launch (proc.rename S.toRenaming) p line words) := by
  unfold runWords
  split
  · exact .pure rfl
  · exact .pure rfl
  · exact .pure rfl
  · exact .pure rfl
  · split
    · exact .pure rfl
    · split
      · exact .pure rfl
      · exact Invocation.complain_then_twin hproc _ _
  · exact (Invocation.echoInScript_twin hproc _).andThen fun _ => .pure rfl
  · exact (Invocation.printfInScript_twin hproc _ _).andThen fun _ => .pure rfl
  · exact (readVariables_twin proc p _).andThen fun _ => .pure rfl
  · exact signal_twin hproc p line _
  · exact (conditionStatus_twin _).andThen fun _ => .pure rfl
  · split
    · exact (conditionStatus_twin _).andThen fun _ => .pure rfl
    · exact Invocation.complain_then_twin hproc _ _
  · exact .pure rfl
  · exact (start_twin hproc p hlaunch _ _ _).andThen fun _ => .pure rfl
  · exact .pure rfl
  · exact .pure rfl
  · dsimp only
    split
    · exact .pure rfl
    · exact Invocation.complain_then_twin hproc _ _
  · refine Twin.bind (.ask (r := .workingDirectory) trivial fun _ _ => rfl) fun x _ hx => ?_
    cases hx
    exact (Invocation.write_twin hproc _).andThen fun _ => .pure rfl
  · exact (start_twin hproc p hlaunch _ _ _).andThen fun _ => .pure rfl

/-- A command of a script does the same, and leaves streams that may be used. -/
theorem runCommand_twin (c : Command) :
    Twin S (fun x x' => x' = (x.1, x.2.rename S.toRenaming) ∧ x.2.Usable S.toRenaming) (runCommand launch proc p c)
      (runCommand launch (proc.rename S.toRenaming) p c) := by
  unfold runCommand
  dsimp only
  refine (connect_twin hproc p _ _ hproc).bind fun connected _ ⟨heq, husable⟩ => ?_
  subst heq
  cases connected with
  | none => exact .pure ⟨rfl, hproc⟩
  | some stdio =>
    have hstdio := husable stdio rfl
    have hkept : ∀ b : Bool, (if b then stdio.rename S.toRenaming else (proc.rename S.toRenaming).stdio) =
        (if b then stdio else proc.stdio).rename S.toRenaming := fun b => by cases b <;> rfl
    have husable : ∀ b : Bool, Stdio.Usable S.toRenaming (if b then stdio else proc.stdio) := fun b => by
      cases b
      · exact hproc
      · exact hstdio
    dsimp only [Option.map_some]
    split
    · exact .pure ⟨rfl, hproc⟩
    · refine (@runWords_twin S { proc with stdio } hstdio _ launch hlaunch _ _).andThen fun progress => ?_
      rw [hkept]
      split <;> exact .pure ⟨rfl, husable _⟩

/-- The commands of a row do the same, one after another. -/
theorem runPiped_twin (cs : List Command) :
    Twin S anyway (runPiped launch proc p cs) (runPiped launch (proc.rename S.toRenaming) p cs) := by
  induction cs generalizing proc with
  | nil => exact .pure rfl
  | cons c cs ih =>
    unfold runPiped
    split
    · exact absurd ‹c :: cs = []› (List.cons_ne_nil _ _)
    · exact (runCommand_twin hproc p hlaunch _).bind fun x _ ⟨heq, _⟩ => by subst heq; exact .pure rfl
    · rename_i he
      cases he
      refine Twin.bind (.ask (r := .openCollector) trivial fun _ _ => rfl) fun collector _ ⟨heq, hown⟩ => ?_
      subst heq
      have hcollected : Stdio.Usable S.toRenaming { proc.stdio with output := some (.collector collector) } :=
        ⟨fun o ho => by cases ho; trivial, hproc.errors⟩
      refine (@runCommand_twin S { proc with stdio := _ } hcollected p launch hlaunch c).bind fun _ _ _ => ?_
      refine Twin.bind (.ask (r := .takeCollected collector) hown fun _ _ => rfl) fun _ taken ⟨heq, _⟩ => ?_
      subst heq
      refine Twin.bind (.ask (r := .openInput taken.1 []) (List.forall_mem_nil _) fun _ _ => rfl) fun channel _ hc => ?_
      cases hc
      exact @ih { proc with stdio := { proc.stdio with input := some (.channel channel) } } ⟨hproc.output, hproc.errors⟩

theorem runRows_twin (rows : List Row) :
    Twin S anyway (runRows launch proc p rows) (runRows launch (proc.rename S.toRenaming) p rows) := by
  induction rows generalizing proc p with
  | nil => exact .pure rfl
  | cons row rows ih =>
    unfold runRows
    split
    · split
      · refine (runCommand_twin hproc p hlaunch _).bind fun x _ ⟨heq, hstdio⟩ => ?_
        subst heq
        obtain ⟨progress, stdio⟩ := x
        cases progress with
        | going q => exact @ih { proc with stdio } hstdio q
        | «over» e => exact .pure rfl
      · exact (runPiped_twin hproc p hlaunch _).andThen fun _ => ih hproc _
    · exact ih hproc _

/-- A script does the same on both machines. -/
theorem run_twin (name text : String) (args : List String) :
    Twin S anyway (run launch proc name text args) (run launch (proc.rename S.toRenaming) name text args) := by
  unfold run
  split
  · exact runRows_twin hproc _ hlaunch _
  · exact Invocation.complain_then_twin hproc _ _

/-- The shell does the same on both machines. -/
theorem shell_twin : Twin S anyway (shell launch proc) (shell launch (proc.rename S.toRenaming)) := by
  have hread : ∀ path, Twin S anyway (ask (.readFile path)) (ask (.readFile path)) := fun path =>
    (Twin.ask (r := .readFile path) trivial fun _ _ => rfl).mono fun x x' hx => by cases hx; rfl
  unfold shell
  have hargs : (proc.rename S.toRenaming).args = proc.args := rfl
  rw [hargs]
  split
  · rw [Invocation.rename_input]
    cases proc.stdio.input with
    | none => exact .pure rfl
    | some inlet => exact (inlet.readAll_twin proc.bound).andThen fun _ => run_twin hproc hlaunch _ _ _
  · exact Invocation.complain_then_twin hproc _ _
  · exact run_twin hproc hlaunch _ _ _
  · exact run_twin hproc hlaunch _ _ _
  · refine (hread _).andThen fun x => ?_
    split
    · exact run_twin hproc hlaunch _ _ _
    · exact Invocation.complain_then_twin hproc _ _

end Script

/-- A program of the system at renamed streams is the twin of itself. -/
theorem Tool.run_twin (depth : Nat) (tool : Tool) {p : Invocation} (hp : p.stdio.Usable S.toRenaming) :
    Twin S anyway (Tool.run depth tool p) (Tool.run depth tool (p.rename S.toRenaming)) := by
  induction depth generalizing tool p with
  | zero => exact .exhausted
  | succ depth ih =>
    unfold Tool.run
    split
    · exact Script.shell_twin hp fun tool p hp => ih tool hp
    · exact .pure rfl
    · exact .pure rfl
    · exact Invocation.cat_twin hp _
    · exact Invocation.printf_twin hp _
    · exact Invocation.echo_twin hp _ _ _

end DualShell
