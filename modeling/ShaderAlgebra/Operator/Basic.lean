/-!
# The catalog of operators

The operators of the library, addressed by name. Here are only their names and
shapes: how many operands an operator takes, how many expressions it gives,
and whether its operands are first widened to one type.
-/

namespace ShaderAlgebra

inductive Operator
  | negate
  | clamp
  | saturate
  | frac
  | round
  | log
  | atanh
  | sinh
  | cosh
  | tanh
  | sqrt
  | lerp
  | fit
  | modulo
  | smoothstep
  | discretize
  | degToRad
  | radToDeg
  | dot
  | length
  | distance
  | sqrDistance
  | normalize
  | polarToRectangular
  | rectangularToPolar
  | sphericalToRectangular
  | rectangularToSpherical
  | circleArea
  | circleCircumference
  | boxVolume
  | sphereVolume
  | cylinderVolume
  | coneVolume
  | torusVolume
  | signedDistanceToPlane
  | colorLuma
  | gammaToLinear
  | linearToGamma
  | vanDerCorputSequence
  | fixedRandom
  | fixedRandomPerElement
deriving DecidableEq

namespace Operator

def all : List Operator := [
  negate, clamp, saturate, frac, round, log, atanh, sinh, cosh, tanh, sqrt, lerp, fit, modulo,
  smoothstep, discretize, degToRad, radToDeg, dot, length, distance, sqrDistance, normalize,
  polarToRectangular, rectangularToPolar, sphericalToRectangular, rectangularToSpherical,
  circleArea, circleCircumference, boxVolume, sphereVolume, cylinderVolume, coneVolume,
  torusVolume, signedDistanceToPlane, colorLuma, gammaToLinear, linearToGamma,
  vanDerCorputSequence, fixedRandom, fixedRandomPerElement]

def name : Operator → String
  | negate => "negate"
  | clamp => "clamp"
  | saturate => "saturate"
  | frac => "frac"
  | round => "round"
  | log => "log"
  | atanh => "atanh"
  | sinh => "sinh"
  | cosh => "cosh"
  | tanh => "tanh"
  | sqrt => "sqrt"
  | lerp => "lerp"
  | fit => "fit"
  | modulo => "modulo"
  | smoothstep => "smoothstep"
  | discretize => "discretize"
  | degToRad => "deg_to_rad"
  | radToDeg => "rad_to_deg"
  | dot => "dot"
  | length => "length"
  | distance => "distance"
  | sqrDistance => "sqr_distance"
  | normalize => "normalize"
  | polarToRectangular => "polar_to_rectangular"
  | rectangularToPolar => "rectangular_to_polar"
  | sphericalToRectangular => "spherical_to_rectangular"
  | rectangularToSpherical => "rectangular_to_spherical"
  | circleArea => "circle_area"
  | circleCircumference => "circle_circumference"
  | boxVolume => "box_volume"
  | sphereVolume => "sphere_volume"
  | cylinderVolume => "cylinder_volume"
  | coneVolume => "cone_volume"
  | torusVolume => "torus_volume"
  | signedDistanceToPlane => "signed_distance_to_plane"
  | colorLuma => "color_luma"
  | gammaToLinear => "gamma_to_linear"
  | linearToGamma => "linear_to_gamma"
  | vanDerCorputSequence => "van_der_corput_sequence"
  | fixedRandom => "fixed_random"
  | fixedRandomPerElement => "fixed_random_per_element"

def label (op : Operator) : String := String.join ((op.name.splitOn "_").map String.capitalize)

instance : ToString Operator := ⟨name⟩

def ofName? (name : String) : Option Operator := all.find? (·.name = name)

def arity : Operator → Nat
  | fit => 5
  | clamp | lerp | smoothstep | sphericalToRectangular | coneVolume | signedDistanceToPlane => 3
  | log | modulo | discretize | dot | distance | sqrDistance | polarToRectangular
  | cylinderVolume | torusVolume => 2
  | _ => 1

def outputs : Operator → Nat
  | rectangularToPolar => 2
  | rectangularToSpherical => 3
  | _ => 1

/-- Whether float operands are first widened to one type. These are the operators that
act channel by channel on several operands; the others convert operands themselves. -/
def unifies : Operator → Bool
  | log | lerp | fit | modulo | smoothstep | discretize | dot | distance | sqrDistance
  | cylinderVolume | coneVolume | torusVolume | signedDistanceToPlane => true
  | _ => false

theorem mem_all (op : Operator) : op ∈ all := by
  cases op <;> decide

@[simp] theorem ofName?_name (op : Operator) : ofName? op.name = some op := by
  cases op <;> rfl

end Operator

end ShaderAlgebra
