import Inlay.Session
import Inlay.Settings.Shelf
import Inlay.Tree.Equality
import Inlay.Tree.Outline
import Inlay.Tree.Walk
import Inlay.Proofs.Derivation
import Inlay.Proofs.Adequacy
import Inlay.Proofs.Rendering
import Inlay.Proofs.Lexing
import Inlay.Proofs.Framing
import Inlay.Proofs.Placement
import Inlay.Proofs.Canonical
import Inlay.Proofs.Seams
import Inlay.Proofs.Rereading
import Inlay.Proofs.RoundTrip
import Inlay.Proofs.Nesting
import Inlay.Proofs.Termination
import Inlay.Proofs.Refusal
import Inlay.Proofs.Tasks
import Inlay.Proofs.Rejection
import Inlay.Proofs.Peeling
import Inlay.Proofs.Diagnosis
import Inlay.Proofs.Moving
import Inlay.Proofs.Embedding
import Inlay.Proofs.Tracking
import Inlay.Proofs.Grouping
import Inlay.Proofs.Lines
import Inlay.Proofs.LexicalContract
import Inlay.Proofs.Agreement
import Inlay.Proofs.NormalForm
import Inlay.Proofs.ProperValues
import Inlay.Proofs.Layers
import Inlay.Proofs.SessionSteps
import Inlay.Proofs.LayingOut
import Inlay.Proofs.Delivery
import Inlay.Proofs.Independence
import Inlay.Proofs.Reconfiguring
import Inlay.Proofs.SharedSettings
import Inlay.Proofs.StringLiterals
import Inlay.Proofs.Balancing
import Inlay.Proofs.CodeBoundary
import Inlay.Proofs.LoggerFamilies
import Inlay.Proofs.SharedHandlers
import Inlay.Proofs.CommentClosing
import Inlay.Proofs.Writing
import Inlay.Proofs.InPlace
import Inlay.Proofs.Shelving
import Inlay.Proofs.RuntimeValues
import Inlay.Proofs.Coercion
import Inlay.Proofs.EnvironmentOrder
import Inlay.Proofs.SourceOrder
import Inlay.Proofs.OutlineWalk
import Inlay.Proofs.CursorMoves
import Inlay.Proofs.JsonRereading
import Inlay.Proofs.LogLines
