import Elastodynamics.Dofs
import Elastodynamics.Model.Evaluation
import Elastodynamics.Proofs.Assembly
import Elastodynamics.Proofs.Caching
import Elastodynamics.Proofs.CellAddition
import Elastodynamics.Proofs.Denotation
import Elastodynamics.Proofs.DirectSum
import Elastodynamics.Proofs.EquationOfMotion
import Elastodynamics.Proofs.Expansion
import Elastodynamics.Proofs.Freshness
import Elastodynamics.Proofs.Geometry
import Elastodynamics.Proofs.Identity
import Elastodynamics.Proofs.Interpolation
import Elastodynamics.Proofs.Invalidation
import Elastodynamics.Proofs.MassConservation
import Elastodynamics.Proofs.Materials
import Elastodynamics.Proofs.Momentum
import Elastodynamics.Proofs.NumericFailures
import Elastodynamics.Proofs.Objectivity
import Elastodynamics.Proofs.PatchTest
import Elastodynamics.Proofs.Patterns
import Elastodynamics.Proofs.Products
import Elastodynamics.Proofs.Representation
import Elastodynamics.Proofs.Rest
import Elastodynamics.Proofs.RigidModes
import Elastodynamics.Proofs.Semidefinite
import Elastodynamics.Proofs.Sparse.Validation
import Elastodynamics.Proofs.State.Trace
import Elastodynamics.Proofs.Stiffness
import Elastodynamics.Proofs.Transactions
import Elastodynamics.Proofs.Transfer
import Elastodynamics.Proofs.Variation
import Elastodynamics.Proofs.WrapAround
import Elastodynamics.Quadrature.GaussLegendre
import Elastodynamics.Quadrature.Tetrahedron
import Elastodynamics.Record.Parameters
import Elastodynamics.Report.Number
import Elastodynamics.Proofs.State.Interruption
