import ShaderAlgebra.Binary.Word

/-!
# Shortest decimals

The reals that round to a finite non-zero float form an interval. A decimal
grid `10 ^ g` is tried from coarse to fine, and the first one with a point in
the interval gives the decimal: the point itself, or the one nearer to the
float when both neighbours of the float on that grid lie in the interval. Only
the rule for an exact tie is left open; it is a parameter.
-/

namespace ShaderAlgebra

/-- The number `significand * 10 ^ exponent`. -/
structure Decimal where
  significand : Nat
  exponent : Int
deriving DecidableEq, Repr

namespace Decimal

/-- Which of two equally near neighbours is taken. -/
inductive Tie
  | up
  | even
deriving DecidableEq

/-- A positive rational between two bounds, all three over one denominator. -/
structure Interval where
  lower : Nat
  value : Nat
  upper : Nat
  denominator : Nat
  closed : Bool

namespace Interval

/-- The same interval measured in units of `10 ^ g`. -/
def inUnitsOf (v : Interval) (g : Int) : Interval :=
  if 0 ≤ g then { v with denominator := v.denominator * Nat.pow 10 g.toNat }
  else
    let k := Nat.pow 10 (-g).toNat
    { v with lower := v.lower * k, value := v.value * k, upper := v.upper * k }

/-- Whether a whole number lies in the interval; the ends belong to a closed one. -/
def contains (v : Interval) (n : Nat) : Bool :=
  if v.closed then v.lower ≤ n * v.denominator && n * v.denominator ≤ v.upper
  else v.lower < n * v.denominator && n * v.denominator < v.upper

/-- Of the two whole numbers around the value, the one in the interval; of two the
nearer one. -/
def pick (tie : Tie) (v : Interval) : Option Nat :=
  let below := v.value / v.denominator
  let above := below + 1
  match v.contains below, v.contains above with
  | false, false => none
  | true, false => some below
  | false, true => some above
  | true, true =>
    let rest := 2 * (v.value % v.denominator)
    if rest < v.denominator then some below
    else if v.denominator < rest then some above
    else match tie with
      | .up => some above
      | .even => some (if below % 2 = 0 then below else above)

/-- The point picked on the coarsest of the grids `10 ^ (n - places)` down to
`10 ^ -places`. The last of them has to hold the value itself. -/
def coarsest (tie : Tie) (v : Interval) (places : Nat) : Nat → Decimal
  | 0 => ⟨(v.inUnitsOf (-places)).value / (v.inUnitsOf (-places)).denominator, -places⟩
  | n + 1 =>
    let g : Int := (n + 1 : Nat) - (places : Int)
    match (v.inUnitsOf g).pick tie with
    | some d => ⟨d, g⟩
    | none => coarsest tie v places n

end Interval

/-- The reals that round to a finite non-zero float: half a step to either side, half
of the narrower step below a power of two. The ends belong to it if the float's
significand is even. -/
def interval {f : Binary.Format} (w : Word f) : Interval :=
  let s := f.significand w.magnitude
  let k := f.scale w.magnitude
  let narrow := s = 1 <<< f.fractionBits ∧ 0 < k
  { lower := (4 * s - if narrow then 1 else 2) <<< k
    value := (4 * s) <<< k
    upper := (4 * s + 2) <<< k
    denominator := 4 <<< f.unitBits
    closed := s % 2 = 0 }

/-- The shortest decimal that rounds to a finite float, without its sign. -/
def shortest {f : Binary.Format} (tie : Tie) (w : Word f) : Decimal :=
  if w.isZero then ⟨0, 0⟩
  else
    let v := interval w
    let places := f.unitBits + 2
    let wholeDigits := (Nat.toDigits 10 (v.value / v.denominator)).length
    v.coarsest tie places (wholeDigits + places)

end Decimal

end ShaderAlgebra
