import Mathlib.Algebra.Order.Floor.Ring
import ShaderAlgebra.Proofs.Evaluation.Elementwise

/-!
# Arithmetic in a scalar domain

A formula has its meaning in domains that compute with numbers of some kind. The
numbers are embedded in the domain, which may have other values as well, and on
them the primitives are the operations of the numbers. So one domain can hold
machine words of both signs next to exact or rounded numbers. Nothing is said of
a division by zero.
-/

namespace ShaderAlgebra.Primitives

variable {A D K : Type}

/-- On the numbers that `embed` places in the domain, its arithmetic is theirs. -/
structure HasArithmetic [Add A] [Sub A] [Mul A] [Div A] [Zero A] (P : Primitives D)
    (embed : A → D) : Prop where
  add : ∀ a b, P.add (embed a) (embed b) = embed (a + b)
  sub : ∀ a b, P.sub (embed a) (embed b) = embed (a - b)
  mul : ∀ a b, P.mul (embed a) (embed b) = embed (a * b)
  div : ∀ a b, b ≠ 0 → P.div (embed a) (embed b) = embed (a / b)

/-- The numbers of an ordered field, with the greatest whole number below each of them. -/
structure HasFloor [Field K] [LinearOrder K] [FloorRing K] (P : Primitives D) (embed : K → D) :
    Prop extends P.HasArithmetic embed where
  floor : ∀ a, P.floor (embed a) = embed ⌊a⌋

/-- The numbers alone, as a domain. -/
def ofArithmetic [Add A] [Sub A] [Mul A] [Div A] [Zero A] (floor : A → A) : Primitives A where
  number _ := 0
  int _ := 0
  uint _ := 0
  unary
    | .floor, a => floor a
    | _, a => a
  binary
    | .add, a, b => a + b
    | .sub, a, b => a - b
    | .mul, a, b => a * b
    | .div, a, b => a / b
    | _, a, _ => a

theorem hasArithmetic_ofArithmetic [Add A] [Sub A] [Mul A] [Div A] [Zero A] (floor : A → A) :
    (ofArithmetic floor).HasArithmetic id :=
  ⟨fun _ _ => rfl, fun _ _ => rfl, fun _ _ => rfl, fun _ _ _ => rfl⟩

theorem hasFloor_ofArithmetic [Field K] [LinearOrder K] [FloorRing K] :
    (ofArithmetic fun a : K => ⌊a⌋).HasFloor id where
  toHasArithmetic := hasArithmetic_ofArithmetic _
  floor _ := rfl

/-- The words of 32 bits, with their constants, bit operations and shifts. -/
structure HasWords (P : Primitives D) (word : UInt32 → D) : Prop where
  constant : ∀ n, P.uint n = word n
  and : ∀ a b, P.binary .and (word a) (word b) = word (a &&& b)
  or : ∀ a b, P.binary .or (word a) (word b) = word (a ||| b)
  shl : ∀ a b, P.binary .shl (word a) (word b) = word (a <<< b)
  shr : ∀ a b, P.binary .shr (word a) (word b) = word (a >>> b)

/-- The words beside values of another kind, which conversion and multiplication give. -/
def ofWords (number : Single → A) (toFloat : UInt32 → A) (mul : A → A → A) :
    Primitives (UInt32 ⊕ A) where
  number x := .inr (number x)
  int _ := .inl 0
  uint := .inl
  unary
    | .toFloat, .inl n => .inr (toFloat n)
    | _, x => x
  binary
    | .and, .inl a, .inl b => .inl (a &&& b)
    | .or, .inl a, .inl b => .inl (a ||| b)
    | .shl, .inl a, .inl b => .inl (a <<< b)
    | .shr, .inl a, .inl b => .inl (a >>> b)
    | .mul, .inr a, .inr b => .inr (mul a b)
    | _, x, _ => x

theorem hasWords_ofWords (number : Single → A) (toFloat : UInt32 → A) (mul : A → A → A) :
    (ofWords number toFloat mul).HasWords .inl :=
  ⟨fun _ => rfl, fun _ _ => rfl, fun _ _ => rfl, fun _ _ => rfl, fun _ _ => rfl⟩

end ShaderAlgebra.Primitives
