import ShaderAlgebra.Decimal.Shortest

/-!
# Layout of decimals

How a decimal is spelled: with its digits in place, or as a leading digit and
an exponent. A `Layout` says which exponents of the leading digit are written
in place, whether whole numbers show a fraction, and how shortest digits break
an exact tie.
-/

namespace ShaderAlgebra

namespace Decimal

structure Layout where
  tie : Tie
  inPlace : Int → Bool
  showFraction : Bool

def digits (d : Decimal) : List Char := Nat.toDigits 10 d.significand

/-- The decimal exponent of the leading digit. -/
def leadingExponent (d : Decimal) : Int := d.exponent + d.digits.length - 1

/-- Digits in place around the decimal point. -/
def inPlaceText (showFraction : Bool) (d : Decimal) : List Char :=
  let digits := d.digits
  if 0 ≤ d.exponent then
    digits ++ List.replicate d.exponent.toNat '0' ++ (if showFraction then ['.', '0'] else [])
  else
    let places := (-d.exponent).toNat
    if places < digits.length then
      digits.take (digits.length - places) ++ '.' :: digits.drop (digits.length - places)
    else
      '0' :: '.' :: List.replicate (places - digits.length) '0' ++ digits

/-- A leading digit, the other digits after a point, and a signed exponent. -/
def scientificText (d : Decimal) : List Char :=
  let exponent := d.leadingExponent
  let fraction := d.digits.drop 1
  d.digits.take 1 ++ (if fraction.isEmpty then [] else '.' :: fraction) ++
    'e' :: (if exponent < 0 then '-' else '+') :: Nat.toDigits 10 exponent.natAbs

def text (layout : Layout) (d : Decimal) : List Char :=
  if layout.inPlace d.leadingExponent then d.inPlaceText layout.showFraction
  else d.scientificText

end Decimal

namespace Word

/-- The text of a finite float: its sign and its shortest decimal. -/
def finiteText {f : Binary.Format} (layout : Decimal.Layout) (w : Word f) : List Char :=
  (if w.negative then ['-'] else []) ++ (Decimal.shortest layout.tie w).text layout

end Word

end ShaderAlgebra
