import Flowline.Main
import Flowline.Session
import Flowline.Proofs.Steps.Visits
import Flowline.Proofs.Lowering.Layout
import Flowline.Proofs.Validation.Codes
import Flowline.Proofs.Graph.Chain
import Flowline.Proofs.Run.Script
import Flowline.Proofs.Run.Trace
import Flowline.Proofs.Run.Completion
import Flowline.Proofs.Steps.Paths
import Flowline.Proofs.Run.Lockstep
import Flowline.Proofs.Run.Progress
import Flowline.Proofs.Run.Truncation
import Flowline.Proofs.Graph.Overwriting
import Flowline.Proofs.Session.History
import Flowline.Proofs.Session.Guard
import Flowline.Proofs.Session.Tokens
import Flowline.Proofs.Session.Log
import Flowline.Proofs.Graph.Export
import Flowline.Proofs.Lowering.Acceptance
import Flowline.Proofs.Workflow.Printing
import Flowline.Proofs.Workflow.NormalForm
import Flowline.Proofs.Endpoint.Agreement
import Flowline.Proofs.Command.Prediction
import Flowline.Proofs.Run.Ignored
import Flowline.Proofs.Validation.Questions
import Flowline.Proofs.Validation.Reports
import Flowline.Proofs.Workflow.Extraction
import Flowline.Proofs.Run.Notices
import Flowline.Proofs.Run.Timetable
import Flowline.Proofs.Graph.Insertions
import Flowline.Proofs.Workflow.Nesting
import Flowline.Proofs.Workflow.Direct
import Flowline.Proofs.Config.Partial
