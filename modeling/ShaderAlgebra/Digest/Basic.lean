/-!
# 128-bit digests

A digest is a pair of 64-bit words. Its bytes run from the low half to the
high half, each with its least significant byte first, and its text is the
32 hexadecimal digits of its value.
-/

namespace ShaderAlgebra

structure Digest where
  hi : UInt64
  lo : UInt64
deriving DecidableEq, Inhabited

/-- The `n` low bytes of a number, least significant first. -/
def littleEndian : Nat → Nat → List UInt8
  | 0, _ => []
  | n + 1, value => UInt8.ofNat value :: littleEndian n (value / 256)

@[simp] theorem length_littleEndian (n value : Nat) : (littleEndian n value).length = n := by
  induction n generalizing value with
  | zero => rfl
  | succ n ih => simp [littleEndian, ih]

namespace Digest

def toNat (d : Digest) : Nat := d.hi.toNat * UInt64.size + d.lo.toNat

/-- The 16 bytes of a digest, least significant first. -/
def bytes (d : Digest) : List UInt8 := littleEndian 16 d.toNat

/-- A number in lowercase hexadecimal, filled up with zeros to `width` digits. -/
def hexDigits : Nat → Nat → List Char
  | 0, _ => []
  | width + 1, value => hexDigits width (value / 16) ++ [Nat.digitChar (value % 16)]

@[simp] theorem length_hexDigits (width value : Nat) :
    (hexDigits width value).length = width := by
  induction width generalizing value with
  | zero => rfl
  | succ width ih => simp [hexDigits, ih]

def text (d : Digest) : String := String.ofList (hexDigits 32 d.toNat)

end Digest

end ShaderAlgebra
