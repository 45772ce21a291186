import ShaderAlgebra.Formula.Conversion

/-!
# Element-wise formulas

Formulas that act on each channel alone. Everything is made of primitives:
roots and logarithms of any base come from `pow` and `log2`.
-/

namespace ShaderAlgebra.Formula

open Build

def negate (x : Expr) : Build Expr := mul (Literal.minusOne.node x.type) x

/-- The formula `max(min(x, hi), lo)`, with both bounds in the type of `x`. -/
def clamp (x lo hi : Expr) : Build Expr := do
  let lo ← asType lo x.type
  let hi ← asType hi x.type
  binary .max (← binary .min x hi) lo

def saturate (x : Expr) : Build Expr :=
  clamp x (Literal.zero.node x.type) (Literal.one.node x.type)

/-- The formula `x - floor(x)`. -/
def frac (x : Expr) : Build Expr := do sub x (← unary .floor x)

/-- The formula `floor(x + 1/2)`: halves go up. -/
def round (x : Expr) : Build Expr := do
  unary .floor (← add x (Literal.half.node x.type))

/-- The formula `log2(x) / log2(base)`, for operands of one type. -/
def quotientOfLogs (x base : Expr) : Build Expr := do
  let x ← unary .log2 x
  let base ← unary .log2 base
  div x base

def log (x base : Expr) : Build Expr := do
  let _ ← commonType [x, base]
  quotientOfLogs x base

/-- The formula `pow(x, 1/2)`. -/
def sqrt (x : Expr) : Build Expr := pow x (Literal.half.node x.type)

/-- The formula `x + s * (y - x)`. -/
def lerp (x y s : Expr) : Build Expr := do
  let _ ← commonType [x, y, s]
  add x (← mul s (← sub y x))

/-- Maps the range `[oldMin, oldMax]` to `[newMin, newMax]`. -/
def fit (value oldMin oldMax newMin newMax : Expr) : Build Expr := do
  let _ ← commonType [value, oldMin, oldMax, newMin, newMax]
  let part ← div (← sub value oldMin) (← sub oldMax oldMin)
  lerp newMin newMax part

/-- The remainder of `x / y`: `frac(x / y) * y` on floats and `x - (x / y) * y` on
integers, whose division truncates. -/
def modulo (x y : Expr) : Build Expr := do
  let t ← commonType [x, y]
  let quotient ← div x y
  if t.isFloat then mul (← frac quotient) y
  else sub x (← mul quotient y)

/-- The step `t * t * (3 - 2 * t)` with `t` the clamped place of `s` between `x` and
`y`. -/
def smoothstep (x y s : Expr) : Build Expr := do
  let type ← commonType [x, y, s]
  let part ← div (← sub s x) (← sub y x)
  let t ← clamp part (Literal.zero.node type) (Literal.one.node type)
  let slope ← sub (Literal.three.node type) (← mul (Literal.two.node type) t)
  mul (← mul slope t) t

/-- The formula `floor(value / step) * step`. -/
def discretize (value step : Expr) : Build Expr := do
  let _ ← commonType [value, step]
  mul (← unary .floor (← div value step)) step

/-- A product with a scalar factor in the type of the operand. -/
def scaleBy (factor : Single) (x : Expr) : Build Expr := do
  let factor ← cast (← constant (.float factor)) x.type 0
  mul x factor

def degToRad : Expr → Build Expr := scaleBy (Literal.pi.value / 180)

def radToDeg : Expr → Build Expr := scaleBy (180 / Literal.pi.value)

end ShaderAlgebra.Formula
