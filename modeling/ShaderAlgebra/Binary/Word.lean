import ShaderAlgebra.Binary.Format

/-!
# Floating-point words

A word of a binary format is a bit pattern: a sign over a magnitude. Products
and quotients are exact rationals rounded once, to nearest with ties to even;
every operation without a numeric result gives the one quiet NaN.
-/

namespace ShaderAlgebra

open Binary (Format)

/-- A bit pattern of the format `f`. -/
structure Word (f : Format) where
  bits : BitVec (f.magnitudeBits + 1)
deriving DecidableEq

abbrev Single := Word Format.single

abbrev Double := Word Format.double

namespace Word

variable {f g : Format}

def negative (w : Word f) : Bool := w.bits.msb

/-- The pattern without its sign. -/
def magnitude (w : Word f) : Nat := w.bits.toNat % 1 <<< f.magnitudeBits

def ofMagnitude (f : Format) (negative : Bool) (magnitude : Nat) : Word f :=
  ⟨BitVec.ofNat _ (if negative then 1 <<< f.magnitudeBits + magnitude else magnitude)⟩

def nan (f : Format) : Word f := ofMagnitude f false f.quietNaN

/-- Not a number, with any payload. -/
def isNaN (w : Word f) : Bool := f.infinity < w.magnitude

def isInfinite (w : Word f) : Bool := w.magnitude == f.infinity

def isFinite (w : Word f) : Bool := w.magnitude < f.infinity

def isZero (w : Word f) : Bool := w.magnitude == 0

/-- The absolute value as a multiple of the least subnormal. -/
def units (w : Word f) : Nat := f.units w.magnitude

/-- Equality of values: no NaN is equal to anything, and the two zeros are equal. -/
def numericEq (a b : Word f) : Bool :=
  !a.isNaN && !b.isNaN && (a.isZero && b.isZero || a.bits == b.bits)

/-- The word nearest to `num / den`, or to its negative. -/
def ofRatio (f : Format) (negative : Bool) (num den : Nat) : Word f :=
  ofMagnitude f negative (f.round num den)

/-- The word nearest to a natural number. -/
def ofNat (f : Format) (n : Nat) : Word f := ofRatio f false n 1

def ofInt (f : Format) (n : Int) : Word f := ofRatio f (n < 0) n.natAbs 1

def neg (w : Word f) : Word f := ofMagnitude f (!w.negative) w.magnitude

def mul (a b : Word f) : Word f :=
  let sign := a.negative != b.negative
  if a.isNaN || b.isNaN then nan f
  else if a.isInfinite || b.isInfinite then
    if a.isZero || b.isZero then nan f else ofMagnitude f sign f.infinity
  else ofRatio f sign (a.units * b.units) (1 <<< (2 * f.unitBits))

def div (a b : Word f) : Word f :=
  let sign := a.negative != b.negative
  if a.isNaN || b.isNaN then nan f
  else if a.isInfinite then
    if b.isInfinite then nan f else ofMagnitude f sign f.infinity
  else if b.isInfinite then ofMagnitude f sign 0
  else if b.isZero then
    if a.isZero then nan f else ofMagnitude f sign f.infinity
  else ofRatio f sign a.units b.units

instance : Mul (Word f) := ⟨mul⟩
instance : Div (Word f) := ⟨div⟩
instance : Neg (Word f) := ⟨neg⟩
instance (n : Nat) : OfNat (Word f) n := ⟨ofNat f n⟩

/-- The nearest word of another format. -/
def convert (g : Format) (w : Word f) : Word g :=
  if w.isNaN then nan g
  else if w.isInfinite then ofMagnitude g w.negative g.infinity
  else ofRatio g w.negative w.units (1 <<< f.unitBits)

/-- The integer part of a finite word, truncated toward zero. -/
def truncate (w : Word f) : Int :=
  let n : Nat := w.units >>> f.unitBits
  if w.negative then -n else n

end Word

namespace Single

def ofBits (bits : UInt32) : Single := ⟨bits.toBitVec⟩

def toUInt32 (w : Single) : UInt32 := ⟨w.bits⟩

@[simp] theorem ofBits_toUInt32 (w : Single) : ofBits w.toUInt32 = w := rfl

@[simp] theorem toUInt32_ofBits (bits : UInt32) : (ofBits bits).toUInt32 = bits := rfl

/-- The signed integer that a single becomes: truncated toward zero and limited to
32 bits, with zero for NaN. -/
def toInt32 (w : Single) : Int32 :=
  if w.isNaN then 0
  else if w.isInfinite then if w.negative then Int32.minValue else Int32.maxValue
  else Int32.ofInt (max Int32.minValue.toInt (min Int32.maxValue.toInt w.truncate))

end Single

end ShaderAlgebra
