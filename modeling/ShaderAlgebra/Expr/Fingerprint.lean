import ShaderAlgebra.Expr.Basic
import ShaderAlgebra.Digest.Xxh3
import Std.Data.HashMap

/-!
# Fingerprints

The fingerprint of an expression is the hash of its top node: a tag for its
type, a tag for its kind, its own data, and the fingerprints of its operands.
It depends on the tree alone. The computation keeps the fingerprint of each
node that it has met, by identity, and so hashes a shared node once.
-/

namespace ShaderAlgebra

namespace Fingerprint

def seed : UInt64 := 0x5f1c9e3ab24d7c01

def byte (n : Nat) : UInt8 := UInt8.ofNat n

def word (n : Nat) : List UInt8 := littleEndian 4 n

/-- The bit patterns of a literal, component by component. -/
def constantBytes : Constant → List UInt8
  | .int n => word n.toUInt32.toNat
  | .uint n => word n.toNat
  | c => c.floats.flatMap fun x => word x.toUInt32.toNat

/-- A leaf's kind and data; a name follows its length. -/
def leafBytes : Leaf → List UInt8
  | .constant c => 0 :: constantBytes c
  | .input _ name => 1 :: word name.utf8ByteSize ++ name.toUTF8.data.toList
  | .systemSeed => [6]

def unaryBytes : UnaryOp → List UInt8
  | .floor => [2, 0]
  | .log2 => [2, 1]
  | .sin => [2, 2]
  | .cos => [2, 3]
  | .asin => [2, 4]
  | .toFloat => [2, 5]
  | .channel i => [4, byte i]
  | .random perElement => [7, byte perElement.toNat]

def binaryTag : BinaryOp → UInt8
  | .add => 0
  | .sub => 1
  | .mul => 2
  | .div => 3
  | .min => 4
  | .max => 5
  | .pow => 6
  | .atan2 => 7
  | .and => 8
  | .or => 9
  | .xor => 10
  | .shl => 11
  | .shr => 12

/-- The bytes of a node's kind and own data. -/
def headBytes : Node Digest → List UInt8
  | .leaf l => leafBytes l
  | .unary op _ => unaryBytes op
  | .binary op .. => [3, binaryTag op]
  | .vec2 .. => [5, 2]
  | .vec3 .. => [5, 3]
  | .vec4 .. => [5, 4]

/-- The bytes that are hashed for a node of a given type. -/
def encode (type : ValueType) (n : Node Digest) : List UInt8 :=
  byte type.index :: headBytes n ++ n.operands.flatMap Digest.bytes

/-- The fingerprints of the nodes met so far, by identity. -/
abbrev Memo := Std.HashMap Nat Digest

/-- The fingerprint of an expression under any hash, with the memo that it leaves. -/
def visit (hash : List UInt8 → Digest) (e : Expr) : StateM Memo Digest :=
  e.walk (fun e => return (← get)[e.id]?) fun e n => do
    let digest := hash (encode e.type n)
    modify (·.insert e.id digest)
    return digest

end Fingerprint

def Expr.fingerprint (e : Expr) : Digest :=
  ((Fingerprint.visit (Xxh3.digest Fingerprint.seed) e).run ∅).1

end ShaderAlgebra
