import Reckoner.Main
import Reckoner.Proofs.Assignment.Written
import Reckoner.Proofs.CommandLine
import Reckoner.Proofs.Evaluation.Dependence
import Reckoner.Proofs.Evaluation.Ending
import Reckoner.Proofs.Evaluation.GroupOrder
import Reckoner.Proofs.Evaluation.Interchange
import Reckoner.Proofs.Evaluation.Log
import Reckoner.Proofs.Evaluation.Meaning
import Reckoner.Proofs.Evaluation.Placement
import Reckoner.Proofs.Evaluation.SignRuns
import Reckoner.Proofs.Evaluation.Substitution
import Reckoner.Proofs.Evaluation.TwoSweeps
import Reckoner.Proofs.Evaluation.Unusable
import Reckoner.Proofs.FrontEnds
import Reckoner.Proofs.Rendering.Fraction
import Reckoner.Proofs.Rendering.Places
import Reckoner.Proofs.Settings.Loading
import Reckoner.Proofs.Settings.RoundTrip
import Reckoner.Proofs.Token.Extent
import Reckoner.Proofs.Token.Lossless
import Reckoner.Proofs.Window.AnswerName
import Reckoner.Proofs.Window.Clipboard
import Reckoner.Proofs.Window.Configure
import Reckoner.Proofs.Window.Isolation
import Reckoner.Proofs.Window.Operand
import Reckoner.Proofs.Window.Typing
import Reckoner.Proofs.Window.Undo
