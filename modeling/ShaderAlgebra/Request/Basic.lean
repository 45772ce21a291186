import ShaderAlgebra.Operator.Apply

/-!
# Requests

A request names an operator and describes its operands. Building it makes one
node for each operand, in order, and applies the operator to them.
-/

namespace ShaderAlgebra

namespace Request

inductive Operand
  | input (type : ValueType) (name : Option String)
  | floats (components : List Single)
  | uint (value : UInt32)
  | int (value : Int32)
deriving DecidableEq

/-- Equality of descriptions, floats compared as numbers. -/
def Operand.valueEq : Operand → Operand → Bool
  | floats xs, floats ys =>
    xs.length == ys.length && (xs.zip ys).all fun (x, y) => x.numericEq y
  | a, b => a == b

def defaultName (position : Nat) : String := "in" ++ toString position

/-- The leaf that an operand at a position describes. -/
def Operand.leaf (position : Nat) : Operand → Except Error Leaf
  | input t name => .ok (.input t (name.getD (defaultName position)))
  | floats xs =>
    match Constant.ofFloats? xs with
    | some c => .ok (.constant c)
    | none => .error (.config (.constantWidth position xs.length))
  | uint n => .ok (.constant (.uint n))
  | int n => .ok (.constant (.int n))

def Operand.build (position : Nat) (o : Operand) : Build Expr :=
  match o.leaf position with
  | .ok l => Build.node (.leaf l)
  | .error e => Build.refuse e

end Request

/-- An operator and its operands. -/
structure Request where
  operator : Operator
  inputs : List Request.Operand
deriving DecidableEq

namespace Request

/-- Equality of requests, floats compared as numbers. -/
def valueEq (a b : Request) : Bool :=
  a.operator == b.operator && a.inputs.length == b.inputs.length &&
    (a.inputs.zip b.inputs).all fun (x, y) => x.valueEq y

def operands (r : Request) : Build (List Expr) :=
  r.inputs.zipIdx.mapM fun (o, position) => o.build position

def build (r : Request) : Build (List Expr) := do
  r.operator.apply (← r.operands)

end Request

end ShaderAlgebra
