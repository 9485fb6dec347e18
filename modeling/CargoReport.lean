import CargoReport.Workspace.Schedule
import CargoReport.Proofs.Cargo.Failing
import CargoReport.Proofs.Collection.Operations
import CargoReport.Proofs.Collection.Publishing
import CargoReport.Proofs.Diagnosis.Apart
import CargoReport.Proofs.Diagnosis.Counting
import CargoReport.Proofs.Diagnosis.Interrupted
import CargoReport.Proofs.Diagnosis.Located
import CargoReport.Proofs.Diagnosis.Reordering
import CargoReport.Proofs.Diagnosis.Turns
import CargoReport.Proofs.Message.Reading
import CargoReport.Proofs.Path
import CargoReport.Proofs.Report.Decoding
import CargoReport.Proofs.Report.Known
import CargoReport.Proofs.Search.Form
import CargoReport.Proofs.Settings.Arguments
import CargoReport.Proofs.Tree.Shown
import CargoReport.Proofs.Workspace.Closed
import CargoReport.Proofs.Workspace.Interleaving
