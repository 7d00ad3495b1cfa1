import MixedProgram.Json.Reader
import MixedProgram.Main
import MixedProgram.Proofs.Bench.Checked
import MixedProgram.Proofs.Bench.Printed
import MixedProgram.Proofs.Bench.Rows
import MixedProgram.Proofs.Form.Exact
import MixedProgram.Proofs.Logging.Opened
import MixedProgram.Proofs.Program.Indistinguishable
import MixedProgram.Proofs.Program.Labels
import MixedProgram.Proofs.Program.ListingText
import MixedProgram.Proofs.Program.NormalForm
import MixedProgram.Proofs.Program.SnapshotText
import MixedProgram.Proofs.Session.Annotated
import MixedProgram.Proofs.Session.EventLog
import MixedProgram.Proofs.Session.IntegerRange
import MixedProgram.Proofs.Session.Lineage
import MixedProgram.Proofs.Session.Numeric
import MixedProgram.Proofs.Session.Rearranged
import MixedProgram.Proofs.Session.Refused
