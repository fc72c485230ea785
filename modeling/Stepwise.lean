import Stepwise.Process.Sample
import Stepwise.Rehearsal.Session
import Stepwise.Rehearsal.Folder
import Stepwise.Main
import Stepwise.Proofs.Json.Fields
import Stepwise.Proofs.Json.Paths
import Stepwise.Proofs.Json.Merging
import Stepwise.Proofs.State.Batching
import Stepwise.Proofs.State.Replay
import Stepwise.Proofs.Process.Compilation
import Stepwise.Proofs.Process.Routing
import Stepwise.Proofs.Process.Targets
import Stepwise.Proofs.Run.Walk
import Stepwise.Proofs.Guard.Grammar
import Stepwise.Proofs.Guard.Unambiguity
import Stepwise.Proofs.Guard.Completeness
import Stepwise.Proofs.Guard.Soundness
import Stepwise.Proofs.Guard.Composition
import Stepwise.Proofs.Guard.Dependence
import Stepwise.Proofs.Guard.Blame
import Stepwise.Proofs.Guard.Layout
import Stepwise.Proofs.Guard.Spelling
import Stepwise.Proofs.Guard.Comparing
import Stepwise.Proofs.Process.Dependence
import Stepwise.Proofs.Run.Failure
import Stepwise.Proofs.Run.Phases
import Stepwise.Proofs.Run.Events
import Stepwise.Proofs.Run.Retention
import Stepwise.Proofs.Run.Budget
import Stepwise.Proofs.Run.AuditTrail
import Stepwise.Proofs.Process.Reachability
import Stepwise.Proofs.Process.EdgeFindings
import Stepwise.Proofs.Process.Acceptance
import Stepwise.Proofs.Process.Rearrangement
import Stepwise.Proofs.Process.Reading
import Stepwise.Proofs.Run.Rearrangement
import Stepwise.Proofs.Process.Findings
import Stepwise.Proofs.Run.Findings
import Stepwise.Proofs.Step.Builtin
import Stepwise.Proofs.Run.Builtin
import Stepwise.Proofs.Run.Attempts
import Stepwise.Proofs.Guard.Integers
import Stepwise.Proofs.Guard.Mixed
import Stepwise.Proofs.Process.Accounting
import Stepwise.Proofs.Process.Diagnostics
import Stepwise.Proofs.Step.PromptPaths
import Stepwise.Proofs.Step.Retries
import Stepwise.Proofs.Step.Answers
import Stepwise.Proofs.Step.Schema
import Stepwise.Proofs.Run.RoundTrip
import Stepwise.Proofs.Run.Truncation
import Stepwise.Proofs.Config.Expansion
import Stepwise.Proofs.Config.Unset
