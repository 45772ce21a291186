import ShaderAlgebra.Formula.Elementwise

/-!
# Hyperbolic functions

The hyperbolic functions by powers of Euler's number.
-/

namespace ShaderAlgebra.Formula

open Build

/-- The powers `e ^ x` and `e ^ -x`. -/
def exponentials (x : Expr) : Build (Expr × Expr) := do
  let base := Literal.e.node x.type
  let rising ← pow base x
  let falling ← pow base (← negate x)
  return (rising, falling)

/-- The formula `1/2 * (e^x - e^-x)`. -/
def sinh (x : Expr) : Build Expr := do
  let (rising, falling) ← exponentials x
  mul (Literal.half.node x.type) (← sub rising falling)

/-- The formula `1/2 * (e^x + e^-x)`. -/
def cosh (x : Expr) : Build Expr := do
  let (rising, falling) ← exponentials x
  mul (Literal.half.node x.type) (← add rising falling)

/-- The formula `(1 - e^-2x) / (1 + e^-2x)`. -/
def tanh (x : Expr) : Build Expr := do
  let one := Literal.one.node x.type
  let minusTwo ← mul (Literal.minusOne.node x.type) (Literal.two.node x.type)
  let power ← pow (Literal.e.node x.type) (← mul minusTwo x)
  div (← sub one power) (← add one power)

/-- The formula `1/2 * ln((1 + x) / (1 - x))`. -/
def atanh (x : Expr) : Build Expr := do
  let one := Literal.one.node x.type
  let ratio ← div (← add one x) (← sub one x)
  mul (Literal.half.node x.type) (← quotientOfLogs ratio (Literal.e.node x.type))

end ShaderAlgebra.Formula
