import RelAlg.Main
import RelAlg.Proofs.Command.Effect
import RelAlg.Proofs.Condition.Pieces
import RelAlg.Proofs.Condition.Limit
import RelAlg.Proofs.Condition.RoundTrip
import RelAlg.Proofs.Cursor.Protocol
import RelAlg.Proofs.Edit.History
import RelAlg.Proofs.Expr.Chain
import RelAlg.Proofs.Export.Csv
import RelAlg.Proofs.Export.Json
import RelAlg.Proofs.Export.Table
import RelAlg.Proofs.Expr.Limit
import RelAlg.Proofs.Expr.Matching
import RelAlg.Proofs.Expr.Name
import RelAlg.Proofs.Expr.Slices
import RelAlg.Proofs.Predicate.Interchange
import RelAlg.Proofs.SetAlgebra.NaturalJoin
import RelAlg.Proofs.Store.Handed
import RelAlg.Proofs.Store.Reload
import RelAlg.Proofs.Tuple.Equality
import RelAlg.Proofs.SetAlgebra.Laws
import RelAlg.Proofs.Predicate.Comparison
