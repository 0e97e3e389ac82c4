import ListRuntime.Action.Lemmas
import ListRuntime.DynamicList.Command
import ListRuntime.Foreign.ReferenceCall
import ListRuntime.Foreign.ScalarCall
import ListRuntime.Foreign.Thread
import ListRuntime.UniformList.Command
import ListRuntime.Proofs.Course.Basic
import ListRuntime.Proofs.Course.Conservation
import ListRuntime.Proofs.Course.Failure
import ListRuntime.Proofs.Course.Alike
import ListRuntime.Proofs.Index
import ListRuntime.Proofs.Slice
import ListRuntime.Proofs.Position
import ListRuntime.Proofs.Arithmetic
import ListRuntime.Proofs.Selection
import ListRuntime.Proofs.Sequence
import ListRuntime.Proofs.Sequence.Positions
import ListRuntime.Proofs.Binary64
import ListRuntime.Proofs.Binary64.Rounding
import ListRuntime.Proofs.Value
import ListRuntime.Proofs.Inference
import ListRuntime.Proofs.Session.Registry
import ListRuntime.Proofs.Session.Command
import ListRuntime.Proofs.Session.Alike
import ListRuntime.Proofs.UniformList.Room
import ListRuntime.Proofs.UniformList.Course
import ListRuntime.Proofs.UniformList.Making
import ListRuntime.Proofs.UniformList.Filling
import ListRuntime.Proofs.UniformList.Command
import ListRuntime.Proofs.UniformList.Sweep
import ListRuntime.Proofs.UniformList.Slicing
import ListRuntime.Proofs.UniformList.Conservation
import ListRuntime.Proofs.UniformList.History
import ListRuntime.Proofs.UniformList.Lifetime
import ListRuntime.Proofs.UniformList.Capacity
import ListRuntime.Proofs.UniformList.Allocation
import ListRuntime.Proofs.UniformList.Copying
import ListRuntime.Proofs.UniformList.Repetition
import ListRuntime.Proofs.UniformList.Alike
import ListRuntime.Proofs.UniformList.Failure
import ListRuntime.Proofs.UniformList.Intake
import ListRuntime.Proofs.UniformList.Refinement
import ListRuntime.Proofs.UniformList.SliceEffect
import ListRuntime.Proofs.UniformList.SliceLens
import ListRuntime.Proofs.UniformList.SliceForm
import ListRuntime.Proofs.UniformList.Cutting
import ListRuntime.Proofs.UniformList.Search
import ListRuntime.Proofs.UniformList.Unwinding
import ListRuntime.Proofs.UniformList.Retention
import ListRuntime.Proofs.UniformList.Indifference
import ListRuntime.Proofs.DynamicList.Course
import ListRuntime.Proofs.DynamicList.Failure
import ListRuntime.Proofs.DynamicList.Capacity
import ListRuntime.Proofs.DynamicList.Values
import ListRuntime.Proofs.DynamicList.Promotion
import ListRuntime.Proofs.DynamicList.Concatenation
import ListRuntime.Proofs.DynamicList.Search
import ListRuntime.Proofs.DynamicList.Equality
import ListRuntime.Proofs.DynamicList.Storing
import ListRuntime.Proofs.Foreign.Boundary
import ListRuntime.Proofs.Foreign.ScalarCall
import ListRuntime.Proofs.Foreign.ReferenceCall
import ListRuntime.Proofs.Foreign.Thread
import ListRuntime.Proofs.Foreign.Aliasing
