import ShaderAlgebra.Error
import ShaderAlgebra.Expr.Basic
import ShaderAlgebra.Literal

/-!
# Building expressions

A building step makes nodes with fresh identities. It may end in a failure:
either the call is refused with an error, or it breaks a rule of a primitive.
The counter of identities outlives a failure, so that it tells how many nodes
were made in any case.
-/

namespace ShaderAlgebra

/-- A call that breaks a rule of a primitive. -/
inductive Violation
  | operandTypes (op : BinaryOp) (left right : ValueType)
  | channel (type : ValueType) (i : Nat)
deriving DecidableEq

/-- Why a building step gives no result. -/
inductive Failure
  | refused (error : Error)
  | violated (violation : Violation)
deriving DecidableEq

/-- A step that makes nodes; its state is the next fresh identity. -/
abbrev Build := ExceptT Failure (StateM Nat)

namespace Build

def refuse {α : Type} (e : Error) : Build α := throw (.refused e)

/-- The result of a step and the identity after it, from a given identity on. -/
def runFrom {α : Type} (next : Nat) (step : Build α) : Except Failure α × Nat :=
  (ExceptT.run step).run next

/-- The result of a step in a session of its own. -/
def result {α : Type} (step : Build α) : Except Failure α :=
  (step.runFrom Literal.identities).1

def node (n : Node Expr) : Build Expr := do
  let next ← getModify (· + 1)
  return Expr.ofNode next n

def constant (c : Constant) : Build Expr := node (.leaf (.constant c))

/-- A scalar in every channel of a type. -/
def splat (x : Single) (t : ValueType) : Build Expr := constant (.splat x t)

/-- One node of a scalar for every value type. -/
def splatTable (x : Single) : Build (ValueType → Expr) := do
  let first ← getModify (· + ValueType.all.length)
  return Expr.splatFrom first x

def input (name : String) (t : ValueType) : Build Expr := node (.leaf (.input t name))

def systemSeed : Build Expr := node (.leaf .systemSeed)

def unary (op : UnaryOp) (e : Expr) : Build Expr := node (.unary op e)

/-- A node of two operands, which must have one type except for shifts. -/
def binary (op : BinaryOp) (lhs rhs : Expr) : Build Expr :=
  if op.isShift || lhs.type = rhs.type then node (.binary op lhs rhs)
  else throw (.violated (.operandTypes op lhs.type rhs.type))

/-- One channel of an expression, which must have it. -/
def channel (e : Expr) (i : Nat) : Build Expr :=
  if h : i < e.type.components then
    unary (.channel ⟨i, Nat.lt_of_lt_of_le h e.type.components_le_four⟩) e
  else throw (.violated (.channel e.type i))

/-- A vector of two to four scalar floats. -/
def combine (components : List Expr) : Build Expr :=
  match components.find? (·.type != .float) with
  | some bad => refuse (.invalidArgument (.combineOperand bad.type))
  | none =>
    match ValueType.floatOfComponents? components.length, components with
    | some .float2, [x, y] => node (.vec2 x y)
    | some .float3, [x, y, z] => node (.vec3 x y z)
    | some .float4, [x, y, z, w] => node (.vec4 x y z w)
    | _, _ => refuse (.invalidArgument (.combineCount components.length))

abbrev add := binary .add
abbrev sub := binary .sub
abbrev mul := binary .mul
abbrev div := binary .div
abbrev pow := binary .pow

/-- Shifts by a constant number of bits. -/
def shift (op : BinaryOp) (e : Expr) (bits : UInt32) : Build Expr := do
  binary op e (← constant (.uint bits))

end Build

end ShaderAlgebra
