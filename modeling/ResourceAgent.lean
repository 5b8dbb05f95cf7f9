import ResourceAgent.Machine.Prepared
import ResourceAgent.Machine.Shell.Run
import ResourceAgent.Main
import ResourceAgent.Outline.Json
import ResourceAgent.Params.Json
import ResourceAgent.Proofs.Outline.Grammar
import ResourceAgent.Proofs.Outline.Tree
import ResourceAgent.Proofs.Text.Lines
import ResourceAgent.Proofs.Outline.Derivation
import ResourceAgent.Proofs.Outline.Canonical
import ResourceAgent.Proofs.Outline.RoundTrip
import ResourceAgent.Proofs.Dialogue
import ResourceAgent.Proofs.Text.Search
import ResourceAgent.Proofs.Pcs.Client
import ResourceAgent.Proofs.Cluster
import ResourceAgent.Proofs.Reconcile.Course
import ResourceAgent.Proofs.Reconcile.Discipline
import ResourceAgent.Proofs.Reconcile.CheckMode
import ResourceAgent.Proofs.Report.Attachment
import ResourceAgent.Proofs.Reconcile.Document
import ResourceAgent.Proofs.Reconcile.Idempotence
import ResourceAgent.Proofs.Outline.Descent
import ResourceAgent.Proofs.Text.Numeral
import ResourceAgent.Proofs.Json.Layout
import ResourceAgent.Proofs.Json.Quoted
import ResourceAgent.Proofs.Json.Unambiguous
import ResourceAgent.Proofs.Json.Nesting
import ResourceAgent.Proofs.Json.RoundTrip
import ResourceAgent.Proofs.Outline.Json
import ResourceAgent.Proofs.Report
import ResourceAgent.Proofs.Params.Reference
import ResourceAgent.Proofs.Variable
import ResourceAgent.Proofs.Program
import ResourceAgent.Proofs.Outline.Hopeless
import ResourceAgent.Proofs.CommandLine.Level
import ResourceAgent.Proofs.CommandLine.Ensure
import ResourceAgent.Proofs.Params.Source
import ResourceAgent.Proofs.Params.Json
import ResourceAgent.Proofs.Yaml.Scalar
import ResourceAgent.Proofs.Yaml.Flow
import ResourceAgent.Proofs.Yaml.Reader
import ResourceAgent.Proofs.Params.Load
import ResourceAgent.Proofs.Outline.Line
import ResourceAgent.Proofs.Outline.Lineage
import ResourceAgent.Proofs.Outline.Diagnosis
import ResourceAgent.Proofs.Outline.Row
import ResourceAgent.Proofs.Outline.Concatenation
import ResourceAgent.Proofs.Outline.Visibility
import ResourceAgent.Proofs.Pcs.Verdict
import ResourceAgent.Proofs.Text.Words
import ResourceAgent.Proofs.Pcs.Command
import ResourceAgent.Proofs.Params.Expansion
import ResourceAgent.Proofs.Reconcile.Agreement
import ResourceAgent.Proofs.Params.Validation
import ResourceAgent.Proofs.Reconcile.Commands
import ResourceAgent.Proofs.Reconcile.Deadline
import ResourceAgent.Proofs.Apply
import ResourceAgent.Proofs.Reconcile.Parsable
