import BackupRetention.Main
import BackupRetention.Programs.Commands
import BackupRetention.Programs.Scripted
import BackupRetention.Schedule.Rehearsal
import BackupRetention.Proofs.Schedule.Execution
import BackupRetention.Proofs.Schedule.Answers
import BackupRetention.Proofs.Schedule.Moves
import BackupRetention.Proofs.Schedule.Exclusion
import BackupRetention.Proofs.Schedule.Accounts
import BackupRetention.Proofs.Schedule.Delivery
import BackupRetention.Proofs.Schedule.Admission
import BackupRetention.Proofs.Schedule.Rescan
import BackupRetention.Proofs.Schedule.Precedence
import BackupRetention.Proofs.Schedule.Descent
import BackupRetention.Proofs.Schedule.Termination
import BackupRetention.Proofs.Schedule.Batching
import BackupRetention.Proofs.Schedule.Lifecycle
import BackupRetention.Proofs.Calendar.DayNumber
import BackupRetention.Proofs.Calendar.Successor
import BackupRetention.Proofs.Calendar.Months
import BackupRetention.Proofs.Calendar.Grammar
import BackupRetention.Proofs.Calendar.RoundTrip
import BackupRetention.Proofs.Files.Changes
import BackupRetention.Proofs.Fault.Aggregates
import BackupRetention.Proofs.Calendar.Text
import BackupRetention.Proofs.Config.DataPlaces
import BackupRetention.Proofs.Config.Stores
import BackupRetention.Proofs.Ledger.Counts
import BackupRetention.Proofs.Ledger.Order
import BackupRetention.Proofs.Prune.Floor
import BackupRetention.Proofs.Prune.CrashSafety
import BackupRetention.Proofs.Prune.Agreement
import BackupRetention.Proofs.Ledger.Refinement
import BackupRetention.Proofs.Ledger.Refusal
import BackupRetention.Proofs.State.RoundTrip
import BackupRetention.Proofs.State.Exactness
import BackupRetention.Proofs.State.Isolation
import BackupRetention.Proofs.State.Foreign
import BackupRetention.Proofs.State.Order
import BackupRetention.Proofs.State.Spelling
import BackupRetention.Proofs.State.LastLine
import BackupRetention.Proofs.Prune.Leftovers
import BackupRetention.Proofs.Prune.Retry
import BackupRetention.Proofs.Prune.Failures
import BackupRetention.Proofs.Prune.Untouched
import BackupRetention.Proofs.Prune.FailureLines
import BackupRetention.Proofs.Programs.Commands
import BackupRetention.Proofs.Program.DryRun
