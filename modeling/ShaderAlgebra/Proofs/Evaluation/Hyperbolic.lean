import Mathlib.Tactic.FieldSimp
import Mathlib.Tactic.LinearCombination
import ShaderAlgebra.Proofs.Evaluation.Functions

/-!
# Hyperbolic identities

The powers of Euler's number turn sums into products, and the logarithms turn them back.
This is all that the identities between the hyperbolic functions need, in any field in
which two is not zero.
-/

namespace ShaderAlgebra

variable {D K : Type} [Field K]

section Laws

/-- The ratio of the sum and the difference of one and `(1 - q) / (1 + q)` is the reciprocal `r`
of `q`. -/
theorem one_add_div_one_sub {q r : K} (htwo : (2 : K) ≠ 0) (hq : 1 + q ≠ 0) (hinverse : r * q = 1) :
    1 - (1 - q) / (1 + q) ≠ 0 ∧ (1 + (1 - q) / (1 + q)) / (1 - (1 - q) / (1 + q)) = r := by
  have htop : 1 + (1 - q) / (1 + q) = 2 / (1 + q) := by
    rw [one_add_div hq]
    ring
  have hbottom : 1 - (1 - q) / (1 + q) = 2 * q / (1 + q) := by
    rw [one_sub_div hq]
    ring
  have hne : 1 - (1 - q) / (1 + q) ≠ 0 := by
    rw [hbottom]
    exact div_ne_zero (mul_ne_zero htwo (right_ne_zero_of_mul_eq_one hinverse)) hq
  refine ⟨hne, ?_⟩
  rw [div_eq_iff hne, htop, hbottom, mul_div_assoc', mul_left_comm, hinverse, mul_one]

variable {exp : K → K} {a : K}

theorem sine_neg : 1 / 2 * (exp (-a) - exp (- -a)) = -(1 / 2 * (exp a - exp (-a))) := by
  rw [neg_neg]
  ring

theorem cosine_neg : 1 / 2 * (exp (-a) + exp (- -a)) = 1 / 2 * (exp a + exp (-a)) := by
  rw [neg_neg, add_comm]

variable (hadd : ∀ a b, exp (a + b) = exp a * exp b)

include hadd

theorem exp_neg_two_mul (a : K) : exp (-2 * a) = exp (-a) * exp (-a) := by
  rw [← hadd, neg_mul, two_mul, neg_add]

variable (hzero : exp 0 = 1)

include hzero

theorem exp_mul_exp_neg (a : K) : exp a * exp (-a) = 1 := by
  rw [← hadd, add_neg_cancel, hzero]

theorem exp_two_mul_exp_neg (a : K) : exp (2 * a) * exp (-2 * a) = 1 := by
  rw [neg_mul]
  exact exp_mul_exp_neg hadd hzero _

theorem cosine_sq_sub_sine_sq (htwo : (2 : K) ≠ 0) :
    1 / 2 * (exp a + exp (-a)) * (1 / 2 * (exp a + exp (-a))) -
      1 / 2 * (exp a - exp (-a)) * (1 / 2 * (exp a - exp (-a))) = 1 := by
  have hinverse := exp_mul_exp_neg hadd hzero a
  field_simp
  linear_combination 4 * hinverse

theorem tangent_mul_cosine (hne : 1 + exp (-2 * a) ≠ 0) :
    (1 - exp (-2 * a)) / (1 + exp (-2 * a)) * (1 / 2 * (exp a + exp (-a))) =
      1 / 2 * (exp a - exp (-a)) := by
  have hinverse := exp_mul_exp_neg hadd hzero a
  rw [div_mul_eq_mul_div, div_eq_iff hne, exp_neg_two_mul hadd]
  linear_combination -(1 / 2 * 2 * exp (-a)) * hinverse

/-- The tangent is defined at a number if it is at its negative. -/
theorem one_add_exp_neg (hne : 1 + exp (-2 * a) ≠ 0) : 1 + exp (-2 * -a) ≠ 0 := by
  have hinverse := exp_two_mul_exp_neg hadd hzero a
  rw [neg_mul_neg]
  intro hzero
  apply hne
  linear_combination -hinverse + exp (-2 * a) * hzero

theorem tangent_neg (hne : 1 + exp (-2 * a) ≠ 0) :
    (1 - exp (-2 * -a)) / (1 + exp (-2 * -a)) = -((1 - exp (-2 * a)) / (1 + exp (-2 * a))) := by
  have hinverse := exp_two_mul_exp_neg hadd hzero a
  rw [← neg_div, div_eq_div_iff (one_add_exp_neg hadd hzero hne) hne, neg_mul_neg]
  linear_combination -2 * hinverse

end Laws

namespace Primitives

variable {P : Primitives D} {embed : K → D} {power : K → K → K} {logarithm : K → K} {a : K}

theorem negate_number (h : P.HasConstants embed) (a : K) :
    P.negate P.number (embed a) = embed (-a) := by
  rw [Primitives.negate, h.minusOne, h.mul, neg_one_mul]

theorem rising_number (h : P.HasExponentials embed power logarithm) (a : K) :
    P.rising P.number (embed a) = embed (power eulerNumber a) := by
  rw [rising, h.eulerNumber, h.pow]

theorem falling_number (h : P.HasExponentials embed power logarithm) (a : K) :
    P.falling P.number (embed a) = embed (power eulerNumber (-a)) := by
  rw [falling, negate_number h.toHasConstants, h.eulerNumber, h.pow]

theorem sinh_number (h : P.HasExponentials embed power logarithm) (a : K) :
    P.sinh P.number (embed a) =
      embed (1 / 2 * (power eulerNumber a - power eulerNumber (-a))) := by
  rw [sinh, rising_number h, falling_number h, h.sub, h.half, h.mul]

theorem cosh_number (h : P.HasExponentials embed power logarithm) (a : K) :
    P.cosh P.number (embed a) =
      embed (1 / 2 * (power eulerNumber a + power eulerNumber (-a))) := by
  rw [cosh, rising_number h, falling_number h, h.add, h.half, h.mul]

theorem tanh_number (h : P.HasExponentials embed power logarithm)
    (hne : 1 + power eulerNumber (-2 * a) ≠ 0) :
    P.tanh P.number (embed a) =
      embed ((1 - power eulerNumber (-2 * a)) / (1 + power eulerNumber (-2 * a))) := by
  have hone : P.number Literal.one.value = embed 1 := h.one
  rw [tanh, h.minusOne, h.two, h.mul, h.mul, neg_one_mul, h.eulerNumber, h.pow, hone, h.sub, h.add,
    h.div _ _ hne]

theorem atanh_number (h : P.HasExponentials embed power logarithm) (htwo : (2 : K) ≠ 0)
    (hne : 1 + power eulerNumber (-2 * a) ≠ 0) :
    P.atanh P.number
      (embed ((1 - power eulerNumber (-2 * a)) / (1 + power eulerNumber (-2 * a)))) = embed a := by
  have hone : P.number Literal.one.value = embed 1 := h.one
  have hratio := one_add_div_one_sub htwo hne (exp_two_mul_exp_neg h.power_add h.power_zero a)
  rw [atanh, hone, h.add, h.sub, h.div _ _ hratio.1, hratio.2, quotientOfLogs,
    h.log2, h.eulerNumber, h.log2, h.div _ _ h.logarithm_ne, h.logarithm_power, h.half, h.mul,
    mul_div_cancel_right₀ _ h.logarithm_ne, one_div_mul_eq_div, mul_div_cancel_left₀ _ htwo]

end Primitives

namespace Formula

open ShaderAlgebra.Expr Build Primitives

variable {P : Primitives D} {env : Environment D} {embed : K → D} {fails : Failure → Prop}
  {power : K → K → K} {logarithm : K → K} {x : Expr} {t : ValueType} {i : Nat} {a : K}

section Lane

variable (hi : i < t.components) (h : P.HasExponentials embed power logarithm)
  (hfloat : t.isFloat = true) (hx : x.HasNumberAt P env embed t i a)

include hi h hfloat hx

theorem negate_at : Meets fails (negate x) (HasNumberAt P env embed t i (-a)) := by
  apply numberAt_of_lanes hi (negate_lanes hx.hasLanes)
  rw [scalar_of_isFloat hfloat, hx.2, negate_number h.toHasConstants]

theorem sinh_at : Meets fails (sinh x)
    (HasNumberAt P env embed t i (1 / 2 * (power eulerNumber a - power eulerNumber (-a)))) := by
  apply numberAt_of_lanes hi (sinh_lanes hx.hasLanes)
  rw [scalar_of_isFloat hfloat, hx.2, sinh_number h]

theorem cosh_at : Meets fails (cosh x)
    (HasNumberAt P env embed t i (1 / 2 * (power eulerNumber a + power eulerNumber (-a)))) := by
  apply numberAt_of_lanes hi (cosh_lanes hx.hasLanes)
  rw [scalar_of_isFloat hfloat, hx.2, cosh_number h]

theorem squares_at (htwo : (2 : K) ≠ 0) :
    Meets fails (do
        let s ← sinh x
        let c ← cosh x
        sub (← mul c c) (← mul s s))
      (HasNumberAt P env embed t i 1) := by
  apply (sinh_at hi h hfloat hx).bind
  intro s hs
  apply (cosh_at hi h hfloat hx).bind
  intro c hc
  apply (binary_at hi hc hc (h.mul _ _)).bind
  intro cc hcc
  apply (binary_at hi hs hs (h.mul _ _)).bind
  intro ss hss
  have hone := cosine_sq_sub_sine_sq h.power_add h.power_zero (a := a) htwo
  exact binary_at hi hcc hss ((h.sub _ _).trans (congrArg embed hone))

theorem sinh_negate_at : Meets fails (do sinh (← negate x))
    (HasNumberAt P env embed t i (-(1 / 2 * (power eulerNumber a - power eulerNumber (-a))))) := by
  apply (negate_at hi h hfloat hx).bind
  intro y hy
  rw [← sine_neg]
  exact sinh_at hi h hfloat hy

theorem cosh_negate_at : Meets fails (do cosh (← negate x))
    (HasNumberAt P env embed t i (1 / 2 * (power eulerNumber a + power eulerNumber (-a)))) := by
  apply (negate_at hi h hfloat hx).bind
  intro y hy
  rw [← cosine_neg]
  exact cosh_at hi h hfloat hy

variable (hne : 1 + power eulerNumber (-2 * a) ≠ 0)

include hne

theorem tanh_at : Meets fails (tanh x)
    (HasNumberAt P env embed t i
      ((1 - power eulerNumber (-2 * a)) / (1 + power eulerNumber (-2 * a)))) := by
  apply numberAt_of_lanes hi (tanh_lanes hx.hasLanes)
  rw [scalar_of_isFloat hfloat, hx.2, tanh_number h hne]

theorem tanh_mul_cosh_at : Meets fails (do mul (← tanh x) (← cosh x))
    (HasNumberAt P env embed t i (1 / 2 * (power eulerNumber a - power eulerNumber (-a)))) := by
  apply (tanh_at hi h hfloat hx hne).bind
  intro tangent htangent
  apply (cosh_at hi h hfloat hx).bind
  intro cosine hcosine
  have hproduct := tangent_mul_cosine h.power_add h.power_zero hne
  exact binary_at hi htangent hcosine ((h.mul _ _).trans (congrArg embed hproduct))

theorem tanh_negate_at : Meets fails (do tanh (← negate x))
    (HasNumberAt P env embed t i
      (-((1 - power eulerNumber (-2 * a)) / (1 + power eulerNumber (-2 * a))))) := by
  apply (negate_at hi h hfloat hx).bind
  intro y hy
  rw [← tangent_neg h.power_add h.power_zero hne]
  exact tanh_at hi h hfloat hy (one_add_exp_neg h.power_add h.power_zero hne)

theorem atanh_tanh_at (htwo : (2 : K) ≠ 0) : Meets fails (do atanh (← tanh x))
    (HasNumberAt P env embed t i a) := by
  apply (tanh_at hi h hfloat hx hne).bind
  intro y hy
  apply numberAt_of_lanes hi (atanh_lanes hy.hasLanes)
  rw [scalar_of_isFloat hfloat, hy.2, atanh_number h htwo hne]

end Lane

/-- The square of the hyperbolic cosine of a float is greater than that of the sine by one, the
sine is odd and the cosine is even. Where the tangent is defined, its product with the cosine is
the sine, it is odd, and its inverse gives the operand back. -/
theorem hyperbolic_identities (h : P.HasExponentials embed power logarithm)
    (htwo : (2 : K) ≠ 0) (hfloat : x.type.isFloat = true) (hi : i < x.type.components)
    (ha : x.lane P env i = embed a) :
    let gives := EvaluatesAt P env embed x.type i
    let exp := power eulerNumber
    let sine := 1 / 2 * (exp a - exp (-a))
    let cosine := 1 / 2 * (exp a + exp (-a))
    let tangent := (1 - exp (-2 * a)) / (1 + exp (-2 * a))
    gives (sinh x) sine ∧
    gives (cosh x) cosine ∧
    gives (do
      let s ← sinh x
      let c ← cosh x
      sub (← mul c c) (← mul s s)) 1 ∧
    gives (do sinh (← negate x)) (-sine) ∧
    gives (do cosh (← negate x)) cosine ∧
    (exp (-2 * a) ≠ -1 →
      gives (tanh x) tangent ∧
      gives (do mul (← tanh x) (← cosh x)) sine ∧
      gives (do tanh (← negate x)) (-tangent) ∧
      gives (do atanh (← tanh x)) a) := by
  intro gives exp sine cosine tangent
  have hx : x.HasNumberAt P env embed x.type i a := ⟨rfl, ha⟩
  refine ⟨(sinh_at hi h hfloat hx).evaluatesAt, (cosh_at hi h hfloat hx).evaluatesAt,
    (squares_at hi h hfloat hx htwo).evaluatesAt, (sinh_negate_at hi h hfloat hx).evaluatesAt,
    (cosh_negate_at hi h hfloat hx).evaluatesAt, ?_⟩
  intro hpower
  have hne : 1 + exp (-2 * a) ≠ 0 := fun hzero => hpower (eq_neg_of_add_eq_zero_right hzero)
  exact ⟨(tanh_at hi h hfloat hx hne).evaluatesAt, (tanh_mul_cosh_at hi h hfloat hx hne).evaluatesAt,
    (tanh_negate_at hi h hfloat hx hne).evaluatesAt,
    (atanh_tanh_at hi h hfloat hx hne htwo).evaluatesAt⟩

/-- Lanes of vectors have the values `0`, `1` and so on. -/
noncomputable def countedLanes : Environment ℝ where
  input _ _ i := i
  seed := 0

/-- The identities of the squares and of the inverse tangent, for the number `1`. -/
theorem hyperbolic_identities_one :
    (∃ e, ((do
        let s ← sinh (pair 0 "v")
        let c ← cosh (pair 0 "v")
        sub (← mul c c) (← mul s s)).runFrom 1).1 = .ok e ∧
      e.lane realNumbers countedLanes 1 = 1) ∧
    ∃ e, ((do atanh (← tanh (pair 0 "v"))).runFrom 1).1 = .ok e ∧
      e.lane realNumbers countedLanes 1 = 1 := by
  have hone : (pair 0 "v").lane realNumbers countedLanes 1 = 1 := Nat.cast_one
  have hpower : (eulerNumber : ℝ) ^ (-2 * 1 : ℝ) ≠ -1 := by
    have hpos := Real.rpow_pos_of_pos (zero_lt_one.trans one_lt_eulerNumber) (-2 * 1)
    linarith
  obtain ⟨-, -, hsquares, -, -, htangent⟩ := hyperbolic_identities hasExponentials_realNumbers
    two_ne_zero rfl (by decide) hone
  obtain ⟨-, -, -, hinverse⟩ := htangent hpower
  obtain ⟨e, hrun, -, he⟩ := hsquares 1
  obtain ⟨e', hrun', -, he'⟩ := hinverse 1
  exact ⟨⟨e, hrun, he⟩, e', hrun', he'⟩

end Formula

end ShaderAlgebra
