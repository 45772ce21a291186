/-!
# Binary interchange formats

A format is given by the number of its fraction bits and of its exponent bits.
A *magnitude* is a bit pattern without its sign, read as a natural number.
Magnitudes are in the order of the values that they stand for, so rounding
returns the number of a magnitude. All finite values are whole multiples of
the least subnormal, the format's *unit*; `units` and `round` count in it and
no rounding happens in between.
-/

namespace ShaderAlgebra.Binary

/-- The widths of the stored fields of a binary floating-point format. -/
structure Format where
  fractionBits : Nat
  exponentBits : Nat
deriving DecidableEq

namespace Format

def single : Format := ⟨23, 8⟩

def double : Format := ⟨52, 11⟩

variable (f : Format)

/-- The number of bits of a pattern without its sign. -/
def magnitudeBits : Nat := f.exponentBits + f.fractionBits

/-- The least subnormal is `2 ^ -unitBits`. -/
def unitBits : Nat := 1 <<< (f.exponentBits - 1) - 2 + f.fractionBits

/-- The magnitude of infinity; smaller ones are finite and larger ones are no numbers. -/
def infinity : Nat := (1 <<< f.exponentBits - 1) <<< f.fractionBits

/-- The magnitude that every operation gives for "not a number". -/
def quietNaN : Nat := f.infinity + 1 <<< (f.fractionBits - 1)

/-- How often the unit of a finite magnitude's last place doubles the least subnormal. -/
def scale (magnitude : Nat) : Nat := magnitude >>> f.fractionBits - 1

/-- The integer significand of a finite magnitude, its leading bit written out. -/
def significand (magnitude : Nat) : Nat := magnitude - f.scale magnitude <<< f.fractionBits

/-- The value of a finite magnitude as a multiple of the least subnormal. -/
def units (magnitude : Nat) : Nat := f.significand magnitude <<< f.scale magnitude

end Format

def bitLength (n : Nat) : Nat := if n = 0 then 0 else n.log2 + 1

/-- The whole number nearest to `n / d`, the even one of two. -/
def divNearestEven (n d : Nat) : Nat :=
  let q := n / d
  let r := n % d
  if 2 * r < d then q
  else if d < 2 * r then q + 1
  else q + q % 2

/-- The magnitude nearest to `num / den`, the even one of two; infinity from half
a step above the greatest finite value on. -/
def Format.round (f : Format) (num den : Nat) : Nat :=
  let n := num <<< f.unitBits
  let k := bitLength (n / den) - (f.fractionBits + 1)
  min f.infinity (k <<< f.fractionBits + divNearestEven n (den <<< k))

end ShaderAlgebra.Binary
