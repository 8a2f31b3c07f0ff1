import SnapLisp.Proofs.Source.Boundary
import SnapLisp.Proofs.Source.Sequence
import SnapLisp.Environment.Shelf
import SnapLisp.Main
import SnapLisp.Session.Workspace
import SnapLisp.Proofs.Source.Printed
import SnapLisp.Proofs.Evaluation.Frame
import SnapLisp.Proofs.Session.Sound
import SnapLisp.Proofs.Session.Arithmetic
import SnapLisp.Proofs.Evaluation.Limit
import SnapLisp.Proofs.Source.Number
import SnapLisp.Proofs.Evaluation.Agree
import SnapLisp.Proofs.Evaluation.Unmentioned
import SnapLisp.Proofs.Evaluation.Order
import SnapLisp.Proofs.Session.Source
import SnapLisp.Proofs.Evaluation.Journal
import SnapLisp.Proofs.Session.Journal
import SnapLisp.Proofs.Source.Escape
import SnapLisp.Proofs.Source.Span
import SnapLisp.Proofs.Evaluation.FirstOrder
import SnapLisp.Proofs.Session.Message
import SnapLisp.Proofs.Session.Transcript
import SnapLisp.Proofs.Session.Isolation
import SnapLisp.Proofs.Session.Ahead
import SnapLisp.Proofs.Session.Parts
import SnapLisp.Proofs.Source.InStep
import SnapLisp.Proofs.Source.Spelling
import SnapLisp.Proofs.Source.LetterCase
import SnapLisp.Proofs.Session.LetterCase
import SnapLisp.Proofs.Number.Nearest
import SnapLisp.Proofs.Number.Denoted
import SnapLisp.Proofs.Number.Shortest
import SnapLisp.Proofs.Source.Rounded
import SnapLisp.Proofs.Source.Integer
import SnapLisp.Proofs.Number.Canonical
import SnapLisp.Proofs.Environment.History
import SnapLisp.Proofs.Session.LineEnd
import SnapLisp.Proofs.Environment.Shelf
import SnapLisp.Proofs.Source.Quotation
import SnapLisp.Proofs.Evaluation.Nested
import SnapLisp.Proofs.Evaluation.Substitution
import SnapLisp.Proofs.Source.Closing
import SnapLisp.Proofs.Source.Seam
import SnapLisp.Proofs.Value.Equality
import SnapLisp.Proofs.Source.Progress
