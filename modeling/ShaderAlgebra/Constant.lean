import ShaderAlgebra.ValueType
import ShaderAlgebra.Decimal.Layout

/-!
# Constants

The literal values of expressions: one to four floats, or an integer. A scalar
is splatted to any type, a float type repeating it and an integer type keeping
its whole part.
-/

namespace ShaderAlgebra

/-- The text of a float in shader text has no exponent, and whole numbers have no
fraction; of two equally near decimals it takes the greater. -/
def Single.shaderLayout : Decimal.Layout := ⟨.up, fun _ => true, false⟩

def Single.text (x : Single) : String :=
  if x.isNaN then "NaN"
  else if x.isInfinite then if x.negative then "-inf" else "inf"
  else String.ofList (x.finiteText shaderLayout)

inductive Constant
  | float (x : Single)
  | float2 (x y : Single)
  | float3 (x y z : Single)
  | float4 (x y z w : Single)
  | int (value : Int32)
  | uint (value : UInt32)
deriving DecidableEq

namespace Constant

def type : Constant → ValueType
  | float .. => .float
  | float2 .. => .float2
  | float3 .. => .float3
  | float4 .. => .float4
  | int _ => .int
  | uint _ => .uint

/-- The float components, none for an integer. -/
def floats : Constant → List Single
  | float x => [x]
  | float2 x y => [x, y]
  | float3 x y z => [x, y, z]
  | float4 x y z w => [x, y, z, w]
  | int _ | uint _ => []

/-- The float literal of one to four components. -/
def ofFloats? : List Single → Option Constant
  | [x] => some (float x)
  | [x, y] => some (float2 x y)
  | [x, y, z] => some (float3 x y z)
  | [x, y, z, w] => some (float4 x y z w)
  | _ => none

/-- A scalar in every channel of a type. An unsigned target takes the bits of the
signed one, so `-1` becomes the greatest value. -/
def splat (x : Single) : ValueType → Constant
  | .float => float x
  | .float2 => float2 x x
  | .float3 => float3 x x x
  | .float4 => float4 x x x x
  | .int => int x.toInt32
  | .uint => uint x.toInt32.toUInt32

@[simp] theorem type_splat (x : Single) (t : ValueType) : (splat x t).type = t := by
  cases t <;> rfl

/-- Equality of values, floats compared as numbers. -/
def valueEq : Constant → Constant → Bool
  | int m, int n => m == n
  | uint m, uint n => m == n
  | a, b => a.type == b.type && a.type.isFloat &&
      (a.floats.zip b.floats).all fun (x, y) => x.numericEq y

/-- The shader text of a literal; unsigned integers end in `u`. -/
def text : Constant → String
  | float x => x.text
  | int n => toString n.toInt
  | uint n => toString n.toNat ++ "u"
  | c => c.type.name ++ "(" ++ ", ".intercalate (c.floats.map Single.text) ++ ")"

end Constant

end ShaderAlgebra
