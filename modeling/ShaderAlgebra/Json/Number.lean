import ShaderAlgebra.Json.Scan
import ShaderAlgebra.Decimal.Layout

/-!
# JSON numbers

A number without fraction and exponent is an integer if it fits 64 bits; any
other is a 64-bit float. Of its digits those count that fit an unsigned 64-bit
significand: further integer digits only scale it, and further fraction digits
are dropped. The significand and the power of ten are both rounded to 64-bit
floats and then multiplied or divided.
-/

namespace ShaderAlgebra.Json

/-- A number as a text gives it. -/
inductive Number
  | integer (value : Int)
  | real (value : Double)
deriving DecidableEq

def powerOfTen (n : Nat) : Double := Word.ofNat .double (Nat.pow 10 n)

/-- Divides by `10 ^ n`, by the greatest power of ten at a time. -/
def divideByPower (x : Double) (n : Nat) : Double :=
  if n ≤ 308 then x / powerOfTen n
  else if x.isZero then x
  else divideByPower (x / powerOfTen 308) (n - 308)
termination_by n

/-- The float of a significand and a decimal exponent, unless it is too large. -/
def realOfParts? (significand : Nat) (exponent : Int) : Option Double :=
  let x := Word.ofNat .double significand
  if exponent < 0 then some (divideByPower x exponent.natAbs)
  else if exponent ≤ 308 then
    let y := x * powerOfTen exponent.toNat
    if y.isInfinite then none else some y
  else if x.isZero then some x
  else none

def digitValue (b : UInt8) : Nat := b.toNat - 48

def isDigit (b : UInt8) : Bool := ascii '0' ≤ b && b ≤ ascii '9'

/-- Appends digits to a significand while it fits 64 bits; the digits that are left over
come second. -/
def absorb (significand : Nat) : List UInt8 → Nat × List UInt8
  | [] => (significand, [])
  | b :: rest =>
    let next := significand * 10 + digitValue b
    if next < UInt64.size then absorb next rest else (significand, b :: rest)

namespace Scan

def digits : Scan Fault (List UInt8) := do
  let input ← get
  set (input.dropWhile isDigit)
  return input.takeWhile isDigit

def noDigit {α : Type} : Scan Fault α := do
  match ← peek with
  | none => throw .endInValue
  | some _ => throw .badNumber

/-- An exponent after its letter. -/
def exponent : Scan Fault Int := do
  let sign ← peek
  if sign = some (ascii '+') ∨ sign = some (ascii '-') then skip
  let run ← digits
  if run.isEmpty then noDigit
  let value : Int := run.foldl (fun n b => 10 * n + digitValue b) (0 : Nat)
  return if sign = some (ascii '-') then -value else value

def exponent? : Scan Fault (Option Int) := do
  let letter ← peek
  if letter = some (ascii 'e') ∨ letter = some (ascii 'E') then
    skip
    some <$> exponent
  else
    return none

/-- The float of a sign, a significand and an exponent. -/
def real (negative : Bool) (significand : Nat) (exponent : Int) : Scan Fault Number := do
  match realOfParts? significand exponent with
  | some x => return .real (if negative then -x else x)
  | none => throw .numberTooLarge

/-- An integer, or a float if it does not fit a signed or unsigned 64-bit word. -/
def integer (negative : Bool) (n : Nat) : Number :=
  if negative then
    if 0 < n ∧ Int64.minValue.toInt ≤ -n then .integer (-n) else .real (-Word.ofNat .double n)
  else .integer n

/-- A number after its sign. -/
def unsigned (negative : Bool) : Scan Fault Number := do
  let whole ← digits
  if whole.isEmpty then noDigit
  if whole.head? = some (ascii '0') ∧ 1 < whole.length then throw .badNumber
  let (significand, extra) := absorb 0 whole
  if (← peek) = some (ascii '.') then
    skip
    let fraction ← digits
    if fraction.isEmpty then noDigit
    let (significand, dropped) := absorb significand fraction
    let scale : Int := extra.length - (fraction.length - dropped.length : Nat)
    real negative significand (scale + (← exponent?).getD 0)
  else
    match ← exponent? with
    | some e => real negative significand (extra.length + e)
    | none =>
      if extra.isEmpty then return integer negative significand
      else real negative significand extra.length

/-- A number, from its sign or first digit on. -/
def number : Scan Fault Number := do
  if (← peek) = some (ascii '-') then
    skip
    unsigned true
  else
    unsigned false

end Scan

/-- Written 32-bit floats have a fraction or an exponent; they are in place from
`10 ^ -6` up to `10 ^ 13`, and an exact tie goes to the even digit. -/
def singleLayout : Decimal.Layout := ⟨.even, fun e => -6 ≤ e && e < 13, true⟩

/-- The same for 64-bit floats, from `10 ^ -5` up to `10 ^ 16`. -/
def doubleLayout : Decimal.Layout := ⟨.even, fun e => -5 ≤ e && e < 16, true⟩

/-- The written form of a 32-bit float; what is no finite number is null. -/
def singleText (x : Single) : String :=
  if x.isFinite then String.ofList (x.finiteText singleLayout) else "null"

/-- The written form of a finite 64-bit float. -/
def doubleText (x : Double) : String := String.ofList (x.finiteText doubleLayout)

end ShaderAlgebra.Json
