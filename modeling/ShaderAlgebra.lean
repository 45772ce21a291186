import ShaderAlgebra.ValueType
import ShaderAlgebra.Binary.Format
import ShaderAlgebra.Binary.Word
import ShaderAlgebra.Decimal.Shortest
import ShaderAlgebra.Decimal.Layout
import ShaderAlgebra.Constant
import ShaderAlgebra.Digest.Basic
import ShaderAlgebra.Digest.Xxh3
import ShaderAlgebra.Expr.Basic
import ShaderAlgebra.Expr.Text
import ShaderAlgebra.Expr.Fingerprint
import ShaderAlgebra.Expr.SharedText
import ShaderAlgebra.Operator.Basic
import ShaderAlgebra.Json.Fault
import ShaderAlgebra.Text.Printable
import ShaderAlgebra.Text.Quoted
import ShaderAlgebra.Json.Scan
import ShaderAlgebra.Json.Text
import ShaderAlgebra.Json.Number
import ShaderAlgebra.Json.Value
import ShaderAlgebra.Request.Fault
import ShaderAlgebra.Error
import ShaderAlgebra.Literal
import ShaderAlgebra.Expr.Build
import ShaderAlgebra.Formula.Conversion
import ShaderAlgebra.Formula.Elementwise
import ShaderAlgebra.Formula.Hyperbolic
import ShaderAlgebra.Formula.Vector
import ShaderAlgebra.Formula.Coordinates
import ShaderAlgebra.Formula.Solid
import ShaderAlgebra.Formula.Color
import ShaderAlgebra.Formula.Random
import ShaderAlgebra.Operator.Apply
import ShaderAlgebra.Request.Basic
import ShaderAlgebra.Request.Read
import ShaderAlgebra.Request.Write
import ShaderAlgebra.Command
import ShaderAlgebra.Main
import ShaderAlgebra.Proofs.Expr.Graph
import ShaderAlgebra.Proofs.Expr.Traversal
import ShaderAlgebra.Proofs.Expr.Tree
import ShaderAlgebra.Proofs.Fingerprint.Memo
import ShaderAlgebra.Proofs.Fingerprint.Encoding
import ShaderAlgebra.Proofs.Fingerprint.Collision
import ShaderAlgebra.Proofs.SharedText.Template
import ShaderAlgebra.Proofs.SharedText.Binding
import ShaderAlgebra.Proofs.SharedText.Uses
import ShaderAlgebra.Proofs.SharedText.Rendering
import ShaderAlgebra.Proofs.Build.Outcome
import ShaderAlgebra.Proofs.Expr.WellFormed
import ShaderAlgebra.Proofs.Formula.Conversion
import ShaderAlgebra.Proofs.Formula.Elementwise
import ShaderAlgebra.Proofs.Formula.Vector
import ShaderAlgebra.Proofs.Formula.Random
import ShaderAlgebra.Proofs.Operator.WellFormed
import ShaderAlgebra.Proofs.Binary.Rounding
import ShaderAlgebra.Proofs.Binary.Nearest
import ShaderAlgebra.Proofs.Decimal.Shortest
import ShaderAlgebra.Proofs.Decimal.Layout
import ShaderAlgebra.Proofs.Decimal.Distinct
import ShaderAlgebra.Proofs.Text.Words
import ShaderAlgebra.Proofs.Json.Scan
import ShaderAlgebra.Proofs.Json.Text
import ShaderAlgebra.Proofs.Json.Number
import ShaderAlgebra.Proofs.Json.Outcome
import ShaderAlgebra.Proofs.Json.Range
import ShaderAlgebra.Proofs.Json.Single
import ShaderAlgebra.Proofs.Json.Value
import ShaderAlgebra.Proofs.Request.Accepted
import ShaderAlgebra.Proofs.Request.Exact
import ShaderAlgebra.Proofs.Request.RoundTrip
import ShaderAlgebra.Proofs.Evaluation.Lane
import ShaderAlgebra.Proofs.Evaluation.Conversion
import ShaderAlgebra.Proofs.Evaluation.Elementwise
import ShaderAlgebra.Proofs.Evaluation.Operator
import ShaderAlgebra.Proofs.Build.Simulation
import ShaderAlgebra.Proofs.Build.Making
import ShaderAlgebra.Proofs.Formula.Simulation
import ShaderAlgebra.Proofs.Operator.Simulation
import ShaderAlgebra.Proofs.Operator.Refusal
import ShaderAlgebra.Proofs.Build.Store
import ShaderAlgebra.Proofs.Request.Store
import ShaderAlgebra.Proofs.Text.Occurrence
import ShaderAlgebra.Proofs.SharedText.Places
import ShaderAlgebra.Proofs.SharedText.Capture
import ShaderAlgebra.Proofs.Operator.Parametric
import ShaderAlgebra.Proofs.Operator.Typing
import ShaderAlgebra.Proofs.Operator.Constants
import ShaderAlgebra.Proofs.Text.Reading
import ShaderAlgebra.Proofs.Text.Types
import ShaderAlgebra.Proofs.Text.Unambiguous
import ShaderAlgebra.Proofs.Evaluation.Widening
import ShaderAlgebra.Proofs.Evaluation.Composition
import ShaderAlgebra.Proofs.Evaluation.Arithmetic
import ShaderAlgebra.Proofs.Evaluation.Remainder
import ShaderAlgebra.Proofs.Evaluation.BitReversal
import ShaderAlgebra.Proofs.Evaluation.RadicalInverse
import ShaderAlgebra.Proofs.Evaluation.RoundedInverse
import ShaderAlgebra.Proofs.SharedText.Authorship
import ShaderAlgebra.Proofs.SharedText.Length
import ShaderAlgebra.Proofs.Binary.Error
import ShaderAlgebra.Proofs.Json.Accuracy
import ShaderAlgebra.Proofs.Decimal.Halfway
import ShaderAlgebra.Proofs.Decimal.Margin
import ShaderAlgebra.Proofs.Decimal.Single
import ShaderAlgebra.Proofs.Evaluation.Exact
import ShaderAlgebra.Proofs.Evaluation.Remapping
import ShaderAlgebra.Proofs.Evaluation.UnitStep
import ShaderAlgebra.Proofs.Evaluation.InnerProduct
import ShaderAlgebra.Proofs.Evaluation.UnitVector
import ShaderAlgebra.Proofs.Formula.Sum
import ShaderAlgebra.Proofs.Formula.Division
import ShaderAlgebra.Proofs.Evaluation.Functions
import ShaderAlgebra.Proofs.Evaluation.Coordinates
import ShaderAlgebra.Proofs.Evaluation.Hyperbolic
import ShaderAlgebra.Proofs.Constant.Splat
import ShaderAlgebra.Proofs.Expr.Rename
import ShaderAlgebra.Proofs.Operator.Uses
import ShaderAlgebra.Proofs.Request.Names
import ShaderAlgebra.Proofs.Json.Document
import ShaderAlgebra.Proofs.Json.Spelling
import ShaderAlgebra.Proofs.Json.Parse
import ShaderAlgebra.Proofs.Json.Reorder
import ShaderAlgebra.Proofs.Request.Document
import ShaderAlgebra.Proofs.Request.Spelling
import ShaderAlgebra.Proofs.Operator.Composite
import ShaderAlgebra.Proofs.Session.Calls
import ShaderAlgebra.Proofs.Session.Runs
import ShaderAlgebra.Proofs.Digest.Text
import ShaderAlgebra.Proofs.Command.Arguments
import ShaderAlgebra.Proofs.Command.Build
