import ShaderAlgebra.Formula.Elementwise

/-!
# Vectors

Inner products and what follows from them: lengths, distances, unit vectors,
and the distance from a plane.
-/

namespace ShaderAlgebra.Formula

open Build

/-- The sum of the channel-wise products of two operands of one type. -/
def dot (a b : Expr) : Build Expr :=
  if a.type != b.type then refuse (.typeMismatch a.type b.type)
  else do
    let product ← mul a b
    if a.type.components = 1 then return product
    else
      match ← sum (← channels product) with
      | some total => return total
      | none => refuse (.invalidArgument .noChannels)

def length (v : Expr) : Build Expr := do sqrt (← dot v v)

def distance (x y : Expr) : Build Expr := do
  let _ ← commonType [x, y]
  length (← sub x y)

def sqrDistance (x y : Expr) : Build Expr := do
  let _ ← commonType [x, y]
  let difference ← sub x y
  dot difference difference

/-- The formula `v * (1 / length(v))`; the one division is of scalars. -/
def normalize (v : Expr) : Build Expr :=
  if !v.type.isFloat then refuse (.invalidCast v.type .float)
  else do
    let inverse ← div (Literal.one.node .float) (← length v)
    mul v (← cast inverse v.type 0)

/-- The signed distance of `position` from the plane through `planePosition` with the
normal `planeNormal`. -/
def signedDistanceToPlane (planePosition planeNormal position : Expr) : Build Expr := do
  let _ ← commonType [planeNormal, planePosition, position]
  let offset ← dot planePosition planeNormal
  sub (← dot position planeNormal) offset

/-- The channels of a float vector that has at least a given number of them. -/
def leadingChannels (operator : Operator) (least : Nat) (e : Expr) : Build (List Expr) :=
  if !e.type.isFloat || e.type.components < least then
    refuse (.invalidArgument (.tooNarrow operator least e.type))
  else channels e

end ShaderAlgebra.Formula
