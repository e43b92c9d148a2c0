import PathRouter.Http.Lookup
import PathRouter.Params.Scalar
import PathRouter.Proofs.Builder.CatchAll
import PathRouter.Proofs.Builder.Guard
import PathRouter.Proofs.Builder.Isolation
import PathRouter.Proofs.Builder.Overlap
import PathRouter.Proofs.Builder.Visits
import PathRouter.Proofs.Matcher.Depth
import PathRouter.Proofs.Matcher.Ordinals
import PathRouter.Proofs.Matcher.Parameters
import PathRouter.Proofs.Matcher.Permuted
import PathRouter.Proofs.Matcher.Renamed
import PathRouter.Proofs.Path.Canonical
import PathRouter.Proofs.RouteTable.Clones
import PathRouter.Proofs.Router.Order
import PathRouter.Proofs.Wildcard.Closest
import PathRouter.Proofs.Wildcard.Forest
import PathRouter.Proofs.Wildcard.Served
