import ShaderAlgebra.Formula.Vector

/-!
# Coordinates

Polar coordinates of the plane and spherical coordinates of space. The first
angle runs from the x axis, in space toward the z axis; the second one rises
toward the y axis.
-/

namespace ShaderAlgebra.Formula

open Build

structure Polar where
  theta : Expr
  distance : Expr

structure Spherical where
  theta : Expr
  phi : Expr
  distance : Expr

def requireAngle (angle : Expr) : Build Unit :=
  if angle.type = .float then return () else refuse (.typeMismatch angle.type .float)

/-- The point `(cos theta, sin theta) * distance`. -/
def polarToRectangular (theta distance : Expr) : Build Expr := do
  requireAngle theta
  let distance ← cast distance .float2 0
  let direction ← combine [← unary .cos theta, ← unary .sin theta]
  mul direction distance

/-- The angle `atan2(y, x)` and the length of a vector. -/
def rectangularToPolar (point : Expr) : Build Polar := do
  match ← leadingChannels .rectangularToPolar 2 point with
  | x :: y :: _ =>
    let theta ← binary .atan2 y x
    let distance ← length point
    return ⟨theta, distance⟩
  | _ => refuse (.invalidArgument .noChannels)

/-- The point `(cos theta * cos phi, sin phi, sin theta * cos phi) * distance`. -/
def sphericalToRectangular (theta phi distance : Expr) : Build Expr := do
  requireAngle theta
  requireAngle phi
  let distance ← cast distance .float3 0
  let cosTheta ← unary .cos theta
  let sinTheta ← unary .sin theta
  let cosPhi ← unary .cos phi
  let sinPhi ← unary .sin phi
  let direction ← combine [← mul cosTheta cosPhi, sinPhi, ← mul sinTheta cosPhi]
  mul direction distance

/-- The angles `atan2(z, x)` and `asin(y / length)`, and the length of a vector. -/
def rectangularToSpherical (point : Expr) : Build Spherical := do
  match ← leadingChannels .rectangularToSpherical 3 point with
  | x :: y :: z :: _ =>
    let distance ← length point
    let theta ← binary .atan2 z x
    let phi ← unary .asin (← div y distance)
    return ⟨theta, phi, distance⟩
  | _ => refuse (.invalidArgument .noChannels)

end ShaderAlgebra.Formula
