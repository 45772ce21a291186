import ShaderAlgebra.Formula.Conversion

/-!
# Random numbers

A low-discrepancy sequence by bit reversal, and random floats seeded by a hash.
-/

namespace ShaderAlgebra.Formula

open Build

/-- The low masks and distances by which neighbouring groups of bits are swapped. -/
def swapStages : List (UInt32 × UInt32) :=
  [(0x55555555, 1), (0x33333333, 2), (0x0F0F0F0F, 4), (0x00FF00FF, 8)]

def swapGroups (bits : Expr) (stage : UInt32 × UInt32) : Build Expr := do
  let (mask, distance) := stage
  let low ← shift .shl (← binary .and bits (← constant (.uint mask))) distance
  let high ← shift .shr (← binary .and bits (← constant (.uint (~~~mask)))) distance
  binary .or low high

/-- The bits of an unsigned integer in reverse order. -/
def reverseBits (bits : Expr) : Build Expr := do
  let swapped ← binary .or (← shift .shl bits 16) (← shift .shr bits 16)
  swapStages.foldlM swapGroups swapped

/-- The radical inverse in base two: the reversed bits, times `2 ^ -32`. -/
def vanDerCorputSequence (bits : Expr) : Build Expr :=
  if bits.type != .uint then
    refuse (.invalidArgument (.notUnsigned .vanDerCorputSequence "uint" bits.type))
  else do
    let reversed ← unary .toFloat (← reverseBits bits)
    mul reversed (← constant (.float (.ofRatio .single false 1 UInt32.size)))

/-- A random float seeded by a hash and the seed of the system; it may differ from
element to element. -/
def fixedRandom (hash : Expr) (perElement : Bool) : Build Expr :=
  if hash.type != .uint then
    refuse (.invalidArgument (.notUnsigned .fixedRandom "uint hash" hash.type))
  else do
    let seed ← binary .xor hash (← systemSeed)
    unary (.random perElement) seed

end ShaderAlgebra.Formula
