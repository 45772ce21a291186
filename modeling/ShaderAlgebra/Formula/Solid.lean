import ShaderAlgebra.Formula.Vector

/-!
# Areas and volumes

The measures of circles and of simple solids.
-/

namespace ShaderAlgebra.Formula

open Build

def circleArea (radius : Expr) : Build Expr := do
  mul (← mul (Literal.pi.node radius.type) radius) radius

def circleCircumference (radius : Expr) : Build Expr :=
  mul (Literal.tau.node radius.type) radius

/-- The product of the first three channels. -/
def boxVolume (dimensions : Expr) : Build Expr := do
  match ← leadingChannels .boxVolume 3 dimensions with
  | x :: y :: z :: _ => mul (← mul x y) z
  | _ => refuse (.invalidArgument .noChannels)

def sphereVolume (radius : Expr) : Build Expr := do
  let factor ← splat (4 / 3 * Literal.pi.value) radius.type
  mul (← mul (← mul factor radius) radius) radius

def cylinderVolume (radius height : Expr) : Build Expr := do
  let _ ← commonType [radius, height]
  mul (← circleArea radius) height

/-- The volume `pi/3 * (r * r + r * s + s * s) * height` of a frustum. -/
def coneVolume (r s height : Expr) : Build Expr := do
  let _ ← commonType [r, s, height]
  let factor ← splat (Literal.pi.value / 3) r.type
  let squares ← add (← add (← mul r r) (← mul r s)) (← mul s s)
  mul (← mul factor squares) height

/-- The area of the minor circle by the circumference of the major one. -/
def torusVolume (major minor : Expr) : Build Expr := do
  let _ ← commonType [major, minor]
  mul (← circleArea minor) (← circleCircumference major)

end ShaderAlgebra.Formula
