import Offside.Main
import Offside.Proofs.Conditions
import Offside.Proofs.ErrorSpans
import Offside.Proofs.EvaluatorReuse
import Offside.Proofs.ExactArithmetic
import Offside.Proofs.ExprRoundTrip
import Offside.Proofs.FailingSink
import Offside.Proofs.FirstFault
import Offside.Proofs.Indentation
import Offside.Proofs.IntegerLiterals
import Offside.Proofs.Irrelevance
import Offside.Proofs.LiteralRoundTrip
import Offside.Proofs.MainByName
import Offside.Proofs.Meanings
import Offside.Proofs.PartialApplication
import Offside.Proofs.QualifiedPaths
import Offside.Proofs.SameType
import Offside.Proofs.Segments
import Offside.Proofs.ShapeSafety
import Offside.Proofs.StructuralEquality
import Offside.Proofs.TypeRoundTrip
import Offside.Proofs.TypeSafety
import Offside.Proofs.Values
