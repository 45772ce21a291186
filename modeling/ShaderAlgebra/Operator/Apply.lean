import ShaderAlgebra.Formula.Hyperbolic
import ShaderAlgebra.Formula.Coordinates
import ShaderAlgebra.Formula.Solid
import ShaderAlgebra.Formula.Color
import ShaderAlgebra.Formula.Random

/-!
# Applying operators

`Operator.build` is the formula of an operator on operands as they are.
`Operator.apply` checks the number of operands first, and widens them to one
type where the operator asks for it.
-/

namespace ShaderAlgebra.Operator

open Build Formula

def build (op : Operator) (operands : List Expr) : Build (List Expr) := do
  match op, operands with
  | negate, [x] => return [← Formula.negate x]
  | clamp, [x, lo, hi] => return [← Formula.clamp x lo hi]
  | saturate, [x] => return [← Formula.saturate x]
  | frac, [x] => return [← Formula.frac x]
  | round, [x] => return [← Formula.round x]
  | log, [x, base] => return [← Formula.log x base]
  | atanh, [x] => return [← Formula.atanh x]
  | sinh, [x] => return [← Formula.sinh x]
  | cosh, [x] => return [← Formula.cosh x]
  | tanh, [x] => return [← Formula.tanh x]
  | sqrt, [x] => return [← Formula.sqrt x]
  | lerp, [x, y, s] => return [← Formula.lerp x y s]
  | fit, [value, oldMin, oldMax, newMin, newMax] =>
    return [← Formula.fit value oldMin oldMax newMin newMax]
  | modulo, [x, y] => return [← Formula.modulo x y]
  | smoothstep, [x, y, s] => return [← Formula.smoothstep x y s]
  | discretize, [value, step] => return [← Formula.discretize value step]
  | degToRad, [x] => return [← Formula.degToRad x]
  | radToDeg, [x] => return [← Formula.radToDeg x]
  | dot, [a, b] => return [← Formula.dot a b]
  | length, [v] => return [← Formula.length v]
  | distance, [x, y] => return [← Formula.distance x y]
  | sqrDistance, [x, y] => return [← Formula.sqrDistance x y]
  | normalize, [v] => return [← Formula.normalize v]
  | polarToRectangular, [theta, r] => return [← Formula.polarToRectangular theta r]
  | rectangularToPolar, [point] =>
    let polar ← Formula.rectangularToPolar point
    return [polar.theta, polar.distance]
  | sphericalToRectangular, [theta, phi, r] =>
    return [← Formula.sphericalToRectangular theta phi r]
  | rectangularToSpherical, [point] =>
    let spherical ← Formula.rectangularToSpherical point
    return [spherical.theta, spherical.phi, spherical.distance]
  | circleArea, [radius] => return [← Formula.circleArea radius]
  | circleCircumference, [radius] => return [← Formula.circleCircumference radius]
  | boxVolume, [dimensions] => return [← Formula.boxVolume dimensions]
  | sphereVolume, [radius] => return [← Formula.sphereVolume radius]
  | cylinderVolume, [radius, height] => return [← Formula.cylinderVolume radius height]
  | coneVolume, [r, s, height] => return [← Formula.coneVolume r s height]
  | torusVolume, [major, minor] => return [← Formula.torusVolume major minor]
  | signedDistanceToPlane, [planePosition, planeNormal, position] =>
    return [← Formula.signedDistanceToPlane planePosition planeNormal position]
  | colorLuma, [color] => return [← Formula.colorLuma color]
  | gammaToLinear, [color] => return [← Formula.gammaToLinear color]
  | linearToGamma, [color] => return [← Formula.linearToGamma color]
  | vanDerCorputSequence, [bits] => return [← Formula.vanDerCorputSequence bits]
  | Operator.fixedRandom, [hash] => return [← Formula.fixedRandom hash false]
  | fixedRandomPerElement, [hash] => return [← Formula.fixedRandom hash true]
  | op, operands => refuse (.invalidArgument (.operandCount op operands.length))

def apply (op : Operator) (operands : List Expr) : Build (List Expr) := do
  if operands.length ≠ op.arity then
    refuse (.invalidArgument (.operandCount op operands.length))
  else if op.unifies then
    operands |> unify fun operands => do
      let _ ← commonType operands
      op.build operands
  else
    op.build operands

end ShaderAlgebra.Operator
