import ApiLint.Main
import ApiLint.Config.Change
import ApiLint.Proofs.Batch.Schedule
import ApiLint.Proofs.Lint.Conservation
import ApiLint.Proofs.Document.Agreement
import ApiLint.Proofs.Document.Loading
import ApiLint.Proofs.Config.Complaints
import ApiLint.Proofs.Config.File
import ApiLint.Proofs.Config.Loading
import ApiLint.Proofs.Engine.Ruleset
import ApiLint.Proofs.Engine.Frame
import ApiLint.Proofs.Command.ExitCode
import ApiLint.Proofs.Report.Completeness
import ApiLint.Proofs.Config.Refusal
import ApiLint.Proofs.Document.Circles
import ApiLint.Proofs.Json.Phrase
import ApiLint.Proofs.Document.Lines
import ApiLint.Proofs.Document.Repeats
import ApiLint.Proofs.Config.Discovery
import ApiLint.Proofs.Report.Styles
import ApiLint.Proofs.Report.Columns
import ApiLint.Proofs.Document.Pointers
import ApiLint.Proofs.Document.Walks
import ApiLint.Proofs.Engine.Structure
import ApiLint.Proofs.Engine.Answer
import ApiLint.Proofs.Finding.Distinct
import ApiLint.Proofs.Result.Partition
import ApiLint.Proofs.Finding.Signature
import ApiLint.Proofs.Document.Respelling
import ApiLint.Proofs.Document.Preparation
import ApiLint.Proofs.Targets.Below
import ApiLint.Proofs.Glob.Names
import ApiLint.Proofs.Targets.Listing
import ApiLint.Proofs.Targets.Search
import ApiLint.Proofs.Config.Formats
import ApiLint.Proofs.Glob.Expansion
import ApiLint.Proofs.Targets.Arguments
import ApiLint.Proofs.Engine.Dialect
import ApiLint.Proofs.Lint.Failures
import ApiLint.Proofs.Numeral.Whole
import ApiLint.Proofs.Value.Identity
import ApiLint.Proofs.Config.Algebra
import ApiLint.Proofs.Targets.Recovery
import ApiLint.Proofs.Config.Freezing
