import Pointwise.Definition.Printer
import Pointwise.Host.Stock
import Pointwise.Proofs.Definition.Recognition
import Pointwise.Proofs.Loop.Calls
import Pointwise.Proofs.Loop.HostErrors
import Pointwise.Proofs.Loop.Modes
import Pointwise.Proofs.Loop.Renaming
import Pointwise.Proofs.NDArray.Reachable
import Pointwise.Proofs.Native.Conversion
import Pointwise.Proofs.Soundness
import Pointwise.Proofs.Ufunc.CallTypes
import Pointwise.Proofs.Ufunc.Elements
import Pointwise.Proofs.Ufunc.Filling
import Pointwise.Proofs.Ufunc.History
import Pointwise.Proofs.Ufunc.Matching
import Pointwise.Proofs.Ufunc.Promotion
import Pointwise.Proofs.Ufunc.SeveralAxes
import Pointwise.Proofs.Ufunc.Snapshots
import Pointwise.Proofs.NDArray.MemoryOrder
import Pointwise.Proofs.NDArray.Views
import Pointwise.Proofs.Reduction.Fibres
import Pointwise.Proofs.Reduction.Totals
import Pointwise.Proofs.Loop.Sums
import Pointwise.Proofs.Ufunc.CommutativeFolds
import Pointwise.Proofs.Ufunc.Sums
import Pointwise.Proofs.MixedIntegers
import Pointwise.Proofs.Loop.Polynomials
import Pointwise.Proofs.Reduction.Failures
import Pointwise.Proofs.Reduction.Bounds
import Pointwise.Proofs.Ufunc.FailingReductions
import Pointwise.Proofs.Definition.Spacing
import Pointwise.Proofs.Broadcast.Join
import Pointwise.Proofs.Signature.Slices
import Pointwise.Proofs.Loop.Mentioned
import Pointwise.Proofs.NDArray.Odometer
import Pointwise.Proofs.Reduction.Offsets
import Pointwise.Proofs.Scalar.ByteOrder
import Pointwise.Proofs.Ufunc.WarmUp
