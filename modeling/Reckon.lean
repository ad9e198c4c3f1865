import Reckon.Main
import Reckon.Proofs.CommandLine
import Reckon.Proofs.Decimal.Binary64
import Reckon.Proofs.Decimal.Order
import Reckon.Proofs.Decimal.Prime
import Reckon.Proofs.Decimal.QuotientScale
import Reckon.Proofs.Decimal.Reach
import Reckon.Proofs.Decimal.RoundingModes
import Reckon.Proofs.Decimal.Shift
import Reckon.Proofs.Evaluation.Bits
import Reckon.Proofs.Evaluation.ClosedForm
import Reckon.Proofs.Evaluation.Similar
import Reckon.Proofs.Evaluation.Sweep
import Reckon.Proofs.Expr.ViablePrefix
import Reckon.Proofs.Session.History
import Reckon.Proofs.Session.Retyping
import Reckon.Proofs.Session.Safety
import Reckon.Proofs.Session.Termination
import Reckon.Proofs.Token.Literal
import Reckon.Proofs.Token.Spacing
