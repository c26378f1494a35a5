import Flowchart.Command.Directory
import Flowchart.Main
import Flowchart.Proofs.Access.Export
import Flowchart.Proofs.Builder.Effect
import Flowchart.Proofs.Command.AllOrNothing
import Flowchart.Proofs.Component.Ledger
import Flowchart.Proofs.Cycle.Iteration
import Flowchart.Proofs.Cycle.Report
import Flowchart.Proofs.Export.Layout
import Flowchart.Proofs.Export.Summary
import Flowchart.Proofs.Growth
import Flowchart.Proofs.Header.Verdict
import Flowchart.Proofs.Index
import Flowchart.Proofs.Node.Decoration
import Flowchart.Proofs.Parse.Continuation
import Flowchart.Proofs.Parse.Origin
import Flowchart.Proofs.Parse.WellFormed
import Flowchart.Proofs.Reach.Mutual
import Flowchart.Proofs.Record.RoundTrip
import Flowchart.Proofs.Script.Document
