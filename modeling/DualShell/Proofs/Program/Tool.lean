import DualShell.Program.Tool
import DualShell.Proofs.Eval.Stream

/-!
# Programs of the system keep every contract

A program sees texts and streams of bytes: it is safe under every discipline, whatever it is given
(`Tool.run_harmless`). A script starts other programs, so its part is stated over programs that are safe
(`Script.runRows_harmless`).
-/

namespace DualShell

open Eval

variable {D : Discipline} {K : Course D}

namespace Invocation

variable (p : Invocation)

/-- A program writes bytes, which suit everybody. -/
theorem write_harmless (data : Bytes) : (p.write data).Harmless K := by
  unfold write
  split
  · exact Outlet.writeAll_harmless _ _ _
  · exact .pure _

/-- A complaint is text. -/
theorem complain_harmless (line : String) : (p.complain line).Harmless K := by
  unfold complain
  split
  · exact Outlet.writeAll_harmless _ _ _
  · exact .pure _

/-- A complaint and then a result. -/
theorem complain_then_harmless {α : Type} (line : String) (a : α) :
    (do p.complain line; return a : Eval α).Harmless K :=
  .bind (p.complain_harmless line) fun _ => .pure a

/-- A tool that complains about several lines is harmless. -/
theorem complainAll_harmless (lines : List String) : (p.complainAll lines).Harmless K := by
  induction lines with
  | nil => exact .pure _
  | cons line lines ih => exact .bind (p.complain_harmless line) fun _ => ih

/-- What `echo` writes is text. -/
theorem echo_harmless (escapes newline : Bool) (args : List String) : (p.echo escapes newline args).Harmless K := by
  have hfinish : ∀ escapes newline words, (echo.finish p escapes newline words).Harmless K :=
    fun _ _ _ => .bind (p.write_harmless _) fun _ => .pure _
  induction args generalizing escapes newline with
  | nil => exact hfinish _ _ _
  | cons arg args ih =>
    unfold echo
    split
    · exact ih _ _
    · split
      · exact ih _ _
      · split
        · exact ih _ _
        · exact hfinish _ _ _

/-- The `echo` of a script is harmless. -/
theorem echoInScript_harmless (args : List String) : (p.echoInScript args).Harmless K := by
  unfold echoInScript
  split <;> exact .bind (p.write_harmless _) fun _ => .pure _

/-- What `printf` writes is text. -/
theorem printf_harmless (args : List String) : (p.printf args).Harmless K := by
  unfold printf
  split
  · exact .bind (p.complainAll_harmless _) fun _ => .pure _
  · exact .bind (p.write_harmless _) fun _ => .bind (p.complainAll_harmless _) fun _ => .pure _

/-- The `printf` of a script is harmless. -/
theorem printfInScript_harmless (label : String) (args : List String) : (p.printfInScript label args).Harmless K := by
  unfold printfInScript
  split
  · exact p.complain_then_harmless _ _
  · exact .bind (p.write_harmless _) fun _ => .bind (p.complainAll_harmless _) fun _ => .pure _

/-- What is copied are bytes. -/
theorem copyInput_harmless (inlet : Inlet) (rounds : Nat) : (p.copyInput inlet rounds).Harmless K := by
  induction rounds with
  | zero => exact .exhausted
  | succ rounds ih =>
    refine .bind (inlet.readSome_harmless _ _) fun data => ?_
    split
    · exact .pure _
    · exact .bind (p.write_harmless data) fun _ => ih

/-- Files are written one after another, and those that cannot be read are complained about. -/
theorem concatenate_harmless (paths : List String) : (p.concatenate paths).Harmless K := by
  induction paths with
  | nil => exact .pure _
  | cons path paths ih =>
    unfold concatenate
    split
    · nomatch ‹path :: paths = []›
    · rename_i he
      cases he
      dsimp only
      split
      · exact .bind (p.copyInput_harmless _ _) fun _ => ih
      · exact ih
    · rename_i he
      cases he
      refine .bind (.ask trivial fun _ => trivial) fun x => ?_
      split
      · exact .bind (p.write_harmless _) fun _ => ih
      · exact .bind (p.complain_harmless _) fun _ => .bind ih fun _ => .pure _

/-- The `cat` of the system is harmless. -/
theorem cat_harmless (paths : List String) : (p.cat paths).Harmless K := by
  refine .bind (p.concatenate_harmless _) fun ok => ?_
  split <;> exact .pure _

/-- A line of the input is read byte by byte. -/
theorem readLine_harmless (inlet : Inlet) (line : Bytes) (rounds : Nat) : (p.readLine inlet line rounds).Harmless K := by
  induction rounds generalizing line with
  | zero => exact .exhausted
  | succ rounds ih =>
    refine .bind (inlet.readSome_harmless _ _) fun data => ?_
    split
    · exact .pure _
    · split
      · exact .pure _
      · exact ih _

end Invocation

namespace Script

variable (proc : Invocation) (p : Parameters)

/-- Variables of a script get a line of the input. -/
theorem readVariables_harmless (names : List String) : (readVariables proc p names).Harmless K := by
  unfold readVariables
  split
  · exact .pure _
  · exact .bind (proc.readLine_harmless _ _ _) fun _ => .pure _

/-- To send a signal, a script complains at most. -/
theorem signal_harmless (line : Nat) (args : List String) : (signal proc p line args).Harmless K := by
  unfold signal
  split
  split
  · exact .pure _
  · split
    · exact .pure _
    · exact proc.complain_then_harmless _ _
  · exact proc.complain_then_harmless _ _

/-- Redirections of a script open files and swap streams. -/
theorem connect_harmless (line : Nat) (redirects : List Redirect) (s : Stdio) :
    (connect proc p line redirects s).Harmless K := by
  induction redirects generalizing s with
  | nil => exact .pure _
  | cons r rs ih =>
    unfold connect
    split
    · split
      · exact ih _
      · exact proc.complain_then_harmless _ _
    · dsimp only
      split
      · exact ih _
      · refine .bind (.ask trivial fun _ => trivial) fun x => ?_
        split
        · exact ih _
        · exact proc.complain_then_harmless _ _

/-- A condition asks about files at most. -/
theorem holds?_harmless (words : List String) : (holds? words).Harmless K := by
  fun_induction holds? words
  all_goals first
    | exact .pure _
    | (refine .bind (.ask trivial fun _ => trivial) fun x => ?_
       first
       | exact .pure _
       | (split <;> exact .pure _))
    | (rename_i ih
       exact .bind ih fun _ => .pure _)

/-- The condition of a script is harmless. -/
theorem conditionStatus_harmless (words : List String) : (conditionStatus words).Harmless K := by
  refine .bind (holds?_harmless words) fun answer => ?_
  split <;> exact .pure _

variable {launch : Tool → Invocation → Eval Exit}

/-- A program that a script starts is as harmless as those that may be launched. -/
theorem start_harmless (hlaunch : ∀ tool p, (launch tool p).Harmless K) (label name : String) (args : List String) :
    (start launch proc p label name args).Harmless K := by
  refine .bind (.ask trivial fun _ => trivial) fun x => ?_
  split
  · exact hlaunch _ _
  · exact proc.complain_then_harmless _ _
  · exact proc.complain_then_harmless _ _

/-- A command of a script is a program of its own or one that is launched. -/
theorem runWords_harmless (hlaunch : ∀ tool p, (launch tool p).Harmless K) (line : Nat) (words : List String) :
    (runWords launch proc p line words).Harmless K := by
  unfold runWords
  split
  · exact .pure _
  · exact .pure _
  · exact .pure _
  · exact .pure _
  · split
    · exact .pure _
    · split
      · exact .pure _
      · exact proc.complain_then_harmless _ _
  · exact .bind (proc.echoInScript_harmless _) fun _ => .pure _
  · exact .bind (proc.printfInScript_harmless _ _) fun _ => .pure _
  · exact .bind (readVariables_harmless proc p _) fun _ => .pure _
  · exact signal_harmless proc p line _
  · exact .bind (conditionStatus_harmless _) fun _ => .pure _
  · split
    · exact .bind (conditionStatus_harmless _) fun _ => .pure _
    · exact proc.complain_then_harmless _ _
  · exact .pure _
  · exact .bind (start_harmless proc p hlaunch _ _ _) fun _ => .pure _
  · exact .pure _
  · exact .pure _
  · dsimp only
    split
    · exact .pure _
    · exact proc.complain_then_harmless _ _
  · exact .bind (.ask trivial fun _ => trivial) fun _ => .bind (proc.write_harmless _) fun _ => .pure _
  · exact .bind (start_harmless proc p hlaunch _ _ _) fun _ => .pure _

/-- A command of a script is harmless if the tools that it may launch are. -/
theorem runCommand_harmless (hlaunch : ∀ tool p, (launch tool p).Harmless K) (c : Command) :
    (runCommand launch proc p c).Harmless K := by
  unfold runCommand
  dsimp only
  refine .bind (connect_harmless proc p _ _ _) fun connected => ?_
  split
  · exact .pure _
  · split
    · exact .pure _
    · refine .bind (runWords_harmless _ _ hlaunch _ _) fun progress => ?_
      split <;> exact .pure _

/-- The commands of a row are run with the streams between them. -/
theorem runPiped_harmless (hlaunch : ∀ tool p, (launch tool p).Harmless K) (cs : List Command) :
    (runPiped launch proc p cs).Harmless K := by
  induction cs generalizing proc with
  | nil => exact .pure _
  | cons c cs ih =>
    unfold runPiped
    split
    · exact absurd ‹c :: cs = []› (List.cons_ne_nil _ _)
    · exact .bind (runCommand_harmless _ _ hlaunch _) fun _ => .pure _
    · rename_i he
      cases he
      refine .bind (.ask trivial fun _ => trivial) fun collector => ?_
      refine .bind (runCommand_harmless _ _ hlaunch _) fun _ => ?_
      refine .bind (.ask trivial fun _ => trivial) fun taken => ?_
      exact .bind (.ask trivial fun _ => List.forall_mem_nil _) fun channel => ih _

/-- The rows of a script are run until it ends. -/
theorem runRows_harmless (hlaunch : ∀ tool p, (launch tool p).Harmless K) (rows : List Row) :
    (runRows launch proc p rows).Harmless K := by
  induction rows generalizing proc p with
  | nil => exact .pure _
  | cons row rows ih =>
    unfold runRows
    split
    · split
      · refine .bind (runCommand_harmless _ _ hlaunch _) fun progress => ?_
        split
        · exact ih _ _
        · exact .pure _
      · exact .bind (runPiped_harmless _ _ hlaunch _) fun _ => ih _ _
    · exact ih _ _

/-- A script is harmless if the programs are that it launches. -/
theorem run_harmless (hlaunch : ∀ tool p, (launch tool p).Harmless K) (name text : String) (args : List String) :
    (run launch proc name text args).Harmless K := by
  unfold run
  split
  · exact runRows_harmless _ _ hlaunch _
  · exact proc.complain_then_harmless _ _

/-- The shell is harmless if the tools that it may launch are. -/
theorem shell_harmless (hlaunch : ∀ tool p, (launch tool p).Harmless K) : (shell launch proc).Harmless K := by
  unfold shell
  split
  · split
    · exact .bind (Inlet.readAll_harmless _ _) fun _ => run_harmless _ hlaunch _ _ _
    · exact .pure _
  · exact proc.complain_then_harmless _ _
  · exact run_harmless _ hlaunch _ _ _
  · exact run_harmless _ hlaunch _ _ _
  · refine .bind (.ask trivial fun _ => trivial) fun x => ?_
    split
    · exact run_harmless _ hlaunch _ _ _
    · exact proc.complain_then_harmless _ _

end Script

/-- A program of the system is safe under every discipline. -/
theorem Tool.run_harmless (depth : Nat) (tool : Tool) (p : Invocation) : (Tool.run depth tool p).Harmless K := by
  induction depth generalizing tool p with
  | zero => exact .exhausted
  | succ depth ih =>
    unfold Tool.run
    split
    · exact Script.shell_harmless _ ih
    · exact .pure _
    · exact .pure _
    · exact p.cat_harmless _
    · exact p.printf_harmless _
    · exact p.echo_harmless _ _ _

end DualShell
