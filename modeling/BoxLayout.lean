import BoxLayout.Scalar
import BoxLayout.Scalar.Single
import BoxLayout.Scalar.Exact
import BoxLayout.Decimal.Reader
import BoxLayout.Decimal.Single
import BoxLayout.Text.Blank
import BoxLayout.Json.Printer
import BoxLayout.Json.Reader
import BoxLayout.Alignment
import BoxLayout.Settings
import BoxLayout.ViewTree.Structure
import BoxLayout.ViewTree.Rewiring
import BoxLayout.ViewTree.Walk
import BoxLayout.ViewTree.HitTest
import BoxLayout.ViewTree.Move
import BoxLayout.Layout.Arrange
import BoxLayout.Description
import BoxLayout.Wire.Constraints
import BoxLayout.Proofs.Scalar.Exact
import BoxLayout.Proofs.Scalar.Rounded
import BoxLayout.Proofs.Scalar.Nearest
import BoxLayout.Proofs.Scalar.Residue
import BoxLayout.Proofs.Scalar.Operations
import BoxLayout.Proofs.Constraints.Valid
import BoxLayout.Proofs.Constraints.Calls
import BoxLayout.Proofs.Scalar.Single
import BoxLayout.Proofs.Arena
import BoxLayout.Proofs.ViewTree.WellFormed
import BoxLayout.Proofs.ViewTree.Subtree
import BoxLayout.Proofs.ViewTree.Structure
import BoxLayout.Proofs.Layout.Writes
import BoxLayout.Proofs.ViewTree.Run
import BoxLayout.Proofs.ViewTree.Insertion
import BoxLayout.Proofs.ViewTree.Removal
import BoxLayout.Proofs.Distribution.Bounds
import BoxLayout.Proofs.Layout.Bounds
import BoxLayout.Proofs.Layout.Natural
import BoxLayout.Proofs.Layout.Alike
import BoxLayout.Proofs.Layout.TwoRuns
import BoxLayout.Proofs.Layout.Frames
import BoxLayout.Proofs.Layout.Visits
import BoxLayout.Proofs.Layout.Soundness
import BoxLayout.Proofs.Distribution.Level
import BoxLayout.Proofs.Distribution.Alike
import BoxLayout.Proofs.Layout.Failure
import BoxLayout.Proofs.Layout.Relayout
import BoxLayout.Proofs.Layout.Order
import BoxLayout.Proofs.Layout.Report
import BoxLayout.Proofs.Layout.Independence
import BoxLayout.Proofs.Layout.Transpose
import BoxLayout.Proofs.Layout.Agreement
import BoxLayout.Proofs.Layout.StackGeometry
import BoxLayout.Proofs.Distribution.Finite
import BoxLayout.Proofs.Distribution.Rational
import BoxLayout.Proofs.Distribution.Within
import BoxLayout.Proofs.Distribution.Monotone
import BoxLayout.Proofs.Distribution.Limit
import BoxLayout.Proofs.Layout.Overflow
import BoxLayout.Proofs.Layout.CellGeometry
import BoxLayout.Proofs.Layout.Pinned
import BoxLayout.Proofs.Layout.Content
import BoxLayout.Proofs.Scalar.Growth
import BoxLayout.Proofs.Layout.Growth
import BoxLayout.Proofs.ViewTree.HitTest
import BoxLayout.Proofs.ViewTree.AbsoluteFrame
import BoxLayout.Proofs.ViewTree.Walk
import BoxLayout.Proofs.ViewTree.Move
import BoxLayout.Proofs.Description
import BoxLayout.Proofs.Decimal.Grids
import BoxLayout.Proofs.Decimal.Reader
import BoxLayout.Proofs.Decimal.Reread
import BoxLayout.Proofs.Json.Numerals
import BoxLayout.Proofs.Json.Members
import BoxLayout.Proofs.Json.Floats
import BoxLayout.Proofs.Constraints.Recipe
import BoxLayout.Proofs.Wire.Objects
import BoxLayout.Proofs.Wire.Constraints
import BoxLayout.Proofs.Wire.Reading
import BoxLayout.Proofs.Wire.RoundTrip
import BoxLayout.Proofs.Wire.Figures
