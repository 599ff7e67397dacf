import DualShell.Main
import DualShell.Proofs.Assigned.Run
import DualShell.Proofs.Flow.Boundary
import DualShell.Proofs.Scope.Globals
import DualShell.Proofs.Scope.Lexical
import DualShell.Proofs.Machine.Follow
import DualShell.Proofs.Scope.Change
import DualShell.Proofs.Stream.Port
import DualShell.Proofs.Source.Spelling
import DualShell.Proofs.Scope.ReadOnly
import DualShell.Proofs.Scope.Separate
import DualShell.Proofs.Stream.Traffic
import DualShell.Proofs.Module.Once
import DualShell.Proofs.Module.Circular
import DualShell.Proofs.Flow.Position
import DualShell.Proofs.Flow.Formed
import DualShell.Proofs.Value.Operation
import DualShell.Proofs.Job.Machine
import DualShell.Proofs.Flow.Protected
import DualShell.Proofs.Flow.Temporary
import DualShell.Proofs.Stream.Merged
import DualShell.Proofs.Job.Reap
import DualShell.Proofs.Job.Wait
import DualShell.Proofs.Scope.Innermost
import DualShell.Proofs.Scope.Lookup
import DualShell.Proofs.Machine.Pieces
import DualShell.Proofs.Flow.Dropped
import DualShell.Proofs.Stream.Handles
import DualShell.Proofs.Stream.Line
import DualShell.Proofs.Value.Sequence
import DualShell.Proofs.Value.Interchange
import DualShell.Proofs.Value.Path
import DualShell.Proofs.Value.Shown
import DualShell.Proofs.Flow.Conversion
import DualShell.Proofs.Flow.Transcript
import DualShell.Proofs.Flow.Assignment
import DualShell.Proofs.Flow.Visit
import DualShell.Proofs.Builtin.Arguments
import DualShell.Proofs.Scope.Target
import DualShell.Proofs.Source.Grammar
import DualShell.Proofs.Scope.Definition
import DualShell.Proofs.Module.Path
import DualShell.Proofs.Stream.Parked
import DualShell.Proofs.Flow.Compound
import DualShell.Proofs.CommandLine.Run
