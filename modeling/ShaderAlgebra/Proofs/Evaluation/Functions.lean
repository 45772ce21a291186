import Mathlib.Analysis.SpecialFunctions.Complex.Arg
import Mathlib.Analysis.SpecialFunctions.Log.Base
import Mathlib.Analysis.SpecialFunctions.Pow.Real
import ShaderAlgebra.Proofs.Evaluation.Exact

/-!
# Angles, powers and logarithms

Laws of coordinates and of hyperbolic functions hold in every domain whose functions
have the identities that the laws need, wherever these functions are defined. The
real numbers with the usual functions are such a domain.
-/

namespace ShaderAlgebra

variable {D K : Type}

/-- Euler's number as the constants of the library have it. -/
def eulerNumber [Field K] : K := Literal.e.value.value

namespace Primitives

theorem HasConstants.eulerNumber [Field K] {P : Primitives D} {embed : K → D}
    (h : P.HasConstants embed) : P.number Literal.e.value = embed eulerNumber :=
  h.number _ (by decide +kernel)

/-- Sines and cosines with their inverses. The angle of a point needs no more than its
direction, and square roots are only taken of squares. -/
structure HasAngles [Field K] [LinearOrder K] (P : Primitives D) (embed : K → D)
    (sin cos : K → K) (pi : K) : Prop extends P.HasConstants embed where
  unary_sin : ∀ a, P.unary .sin (embed a) = embed (sin a)
  unary_cos : ∀ a, P.unary .cos (embed a) = embed (cos a)
  sin_sq_add_cos_sq : ∀ a, sin a ^ 2 + cos a ^ 2 = 1
  root : ∀ a, 0 ≤ a → P.pow (embed (a * a)) (embed (1 / 2)) = embed a
  atan2 : ∀ k a, 0 < k → -pi < a → a ≤ pi →
    P.binary .atan2 (embed (k * sin a)) (embed (k * cos a)) = embed a
  asin : ∀ a, |a| < pi / 2 → P.unary .asin (embed (sin a)) = embed a
  cos_pos : ∀ a, |a| < pi / 2 → 0 < cos a

/-- The usual functions of the real numbers. The origin has no angle, and numbers beyond
`-1` and `1` are not sines. -/
structure HasRealFunctions (P : Primitives D) (embed : ℝ → D) : Prop
    extends P.HasConstants embed where
  sin : ∀ a, P.unary .sin (embed a) = embed (Real.sin a)
  cos : ∀ a, P.unary .cos (embed a) = embed (Real.cos a)
  asin : ∀ a, |a| ≤ 1 → P.unary .asin (embed a) = embed (Real.arcsin a)
  atan2 : ∀ x y, x ≠ 0 ∨ y ≠ 0 → P.binary .atan2 (embed y) (embed x) = embed (Complex.arg ⟨x, y⟩)
  root : ∀ q, 0 ≤ q → P.pow (embed q) (embed (1 / 2)) = embed √q

theorem HasRealFunctions.hasAngles {P : Primitives D} {embed : ℝ → D}
    (h : P.HasRealFunctions embed) : P.HasAngles embed Real.sin Real.cos Real.pi where
  toHasConstants := h.toHasConstants
  unary_sin := h.sin
  unary_cos := h.cos
  sin_sq_add_cos_sq := Real.sin_sq_add_cos_sq
  root a ha := by rw [h.root _ (mul_self_nonneg a), Real.sqrt_mul_self ha]
  atan2 k a hk hlow hhigh := by
    have hpoint : (⟨k * Real.cos a, k * Real.sin a⟩ : ℂ) =
        k * (Complex.cos a + Complex.sin a * Complex.I) := by
      apply Complex.ext <;> simp [← Complex.ofReal_cos, ← Complex.ofReal_sin]
    have hne : k * Real.cos a ≠ 0 ∨ k * Real.sin a ≠ 0 := by
      by_contra! hzero
      have hcos : Real.cos a = 0 := (mul_eq_zero_iff_left hk.ne').1 hzero.1
      have hsin : Real.sin a = 0 := (mul_eq_zero_iff_left hk.ne').1 hzero.2
      have hsquare := Real.sin_sq_add_cos_sq a
      rw [hcos, hsin] at hsquare
      norm_num at hsquare
    rw [h.atan2 _ _ hne, hpoint, Complex.arg_mul_cos_add_sin_mul_I hk ⟨hlow, hhigh⟩]
  asin a ha := by
    obtain ⟨hlow, hhigh⟩ := abs_lt.1 ha
    rw [h.asin _ (Real.abs_sin_le_one a), Real.arcsin_sin hlow.le hhigh.le]
  cos_pos a ha := Real.cos_pos_of_mem_Ioo (abs_lt.1 ha)

/-- Powers of Euler's number and logarithms to the base two. -/
structure HasExponentials [Field K] (P : Primitives D) (embed : K → D) (power : K → K → K)
    (logarithm : K → K) : Prop extends P.HasConstants embed where
  pow : ∀ a b, P.pow (embed a) (embed b) = embed (power a b)
  log2 : ∀ a, P.unary .log2 (embed a) = embed (logarithm a)
  power_add : ∀ a b, power eulerNumber (a + b) = power eulerNumber a * power eulerNumber b
  power_zero : power eulerNumber 0 = 1
  logarithm_power : ∀ a, logarithm (power eulerNumber a) = a * logarithm eulerNumber
  logarithm_ne : logarithm eulerNumber ≠ 0

/-- The real numbers with their usual functions, as a domain. -/
noncomputable def realNumbers : Primitives ℝ where
  number x := x.value
  int n := n.toInt
  uint n := n.toNat
  unary
    | .floor, a => ⌊a⌋
    | .log2, a => Real.logb (2 : ℕ) a
    | .sin, a => Real.sin a
    | .cos, a => Real.cos a
    | .asin, a => Real.arcsin a
    | _, a => a
  binary
    | .atan2, y, x => Complex.arg ⟨x, y⟩
    | op, a, b => (ofField fun a b : ℝ => a ^ b).binary op a b

theorem hasConstants_realNumbers : realNumbers.HasConstants id where
  add _ _ := rfl
  sub _ _ := rfl
  mul _ _ := rfl
  div _ _ _ := rfl
  number _ _ := rfl

theorem hasRealFunctions_realNumbers : realNumbers.HasRealFunctions id where
  toHasConstants := hasConstants_realNumbers
  sin _ := rfl
  cos _ := rfl
  asin _ _ := rfl
  atan2 _ _ _ := rfl
  root q _ := (Real.sqrt_eq_rpow q).symm

theorem one_lt_eulerNumber : (1 : ℝ) < eulerNumber := by
  have h : (1 : ℚ) < Literal.e.value.value := by decide +kernel
  unfold eulerNumber
  exact_mod_cast h

theorem hasExponentials_realNumbers :
    realNumbers.HasExponentials id (fun a b => a ^ b) (Real.logb 2) where
  toHasConstants := hasConstants_realNumbers
  pow _ _ := rfl
  log2 _ := rfl
  power_add := Real.rpow_add (zero_lt_one.trans one_lt_eulerNumber)
  power_zero := Real.rpow_zero _
  logarithm_power _ := Real.logb_rpow_eq_mul_logb_of_pos (zero_lt_one.trans one_lt_eulerNumber)
  logarithm_ne := (Real.logb_pos one_lt_two one_lt_eulerNumber).ne'

end Primitives

end ShaderAlgebra
