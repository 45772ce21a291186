import Mathlib.Algebra.Order.Field.Basic
import Mathlib.Order.Monotone.Basic
import Mathlib.Tactic.Linarith
import Mathlib.Tactic.Ring
import ShaderAlgebra.Proofs.Evaluation.Exact

/-!
# The unit step

With exact numbers, a smooth step places its operand in the range of its two other
operands, from `0` at the one end to `1` at the other one, and lets a cubic rise
with the place. The cubic rises strictly from `0` to `1` and is symmetric about its
middle, so the step is constant outside the range and rises strictly inside it.
-/

namespace ShaderAlgebra

variable {D K : Type} [Field K]

def smoothRise (p : K) : K := (3 - 2 * p) * p * p

section Rise

variable {p q : K}

theorem smoothRise_zero : smoothRise (0 : K) = 0 := mul_zero _

theorem smoothRise_one : smoothRise (1 : K) = 1 := by
  unfold smoothRise
  ring

theorem smoothRise_add (h : p + q = 1) : smoothRise p + smoothRise q = 1 := by
  obtain rfl : q = 1 - p := eq_sub_of_add_eq' h
  unfold smoothRise
  ring

theorem smoothRise_sub (p q : K) : smoothRise q - smoothRise p =
    (q - p) * (2 * (p * (1 - p)) + 2 * (q * (1 - q)) + p * (1 - q) + q * (1 - p)) := by
  unfold smoothRise
  ring

end Rise

variable [LinearOrder K]

/-- The place of a number in the range from `a` to `b`, at an end for numbers outside it. -/
def rangePlace (a b r : K) : K := max (min ((r - a) / (b - a)) 1) 0

def unitStep (a b r : K) : K := smoothRise (rangePlace a b r)

/-- A function that rises from `0` at `a` to `1` at `b`, the same way from either end. -/
structure IsUnitStep (a b : K) (f : K → K) : Prop where
  nonneg : ∀ r, 0 ≤ f r
  le_one : ∀ r, f r ≤ 1
  eq_zero_iff : ∀ r, f r = 0 ↔ r ≤ a
  eq_one_iff : ∀ r, f r = 1 ↔ b ≤ r
  strictMonoOn : StrictMonoOn f (Set.Icc a b)
  monotone : Monotone f
  add_reflected : ∀ r, f r + f (a + b - r) = 1

section Place

variable [IsStrictOrderedRing K] {a b r s : K}

theorem rangePlace_mem_Icc (a b r : K) : rangePlace a b r ∈ Set.Icc 0 1 :=
  ⟨le_max_right _ _, max_le (min_le_right _ _) zero_le_one⟩

theorem rangePlace_of_mem_Icc (hab : a < b) (hr : r ∈ Set.Icc a b) :
    rangePlace a b r = (r - a) / (b - a) := by
  have hwidth : 0 < b - a := sub_pos.2 hab
  have hone : (r - a) / (b - a) ≤ 1 := (div_le_one hwidth).2 (sub_le_sub_right hr.2 a)
  rw [rangePlace, min_eq_left hone, max_eq_left (div_nonneg (sub_nonneg.2 hr.1) hwidth.le)]

theorem rangePlace_eq_zero_iff (hab : a < b) : rangePlace a b r = 0 ↔ r ≤ a := by
  have hwidth : 0 < b - a := sub_pos.2 hab
  rw [rangePlace, max_eq_right_iff, min_le_iff, or_iff_left (not_le.2 zero_lt_one),
    div_le_iff₀ hwidth, zero_mul, sub_nonpos]

theorem rangePlace_eq_one_iff (hab : a < b) : rangePlace a b r = 1 ↔ b ≤ r := by
  have hwidth : 0 < b - a := sub_pos.2 hab
  constructor
  · intro hone
    have hle : 1 ≤ min ((r - a) / (b - a)) 1 :=
      (le_max_iff.1 hone.ge).resolve_right (not_le.2 zero_lt_one)
    have hdiv : 1 ≤ (r - a) / (b - a) := (le_min_iff.1 hle).1
    exact (sub_le_sub_iff_right a).1 ((one_le_div hwidth).1 hdiv)
  · intro hr
    have hdiv : 1 ≤ (r - a) / (b - a) := (one_le_div hwidth).2 (sub_le_sub_right hr a)
    rw [rangePlace, min_eq_right hdiv, max_eq_left zero_le_one]

theorem monotone_rangePlace (hab : a < b) : Monotone (rangePlace a b) := by
  intro r s hrs
  have hdiv : (r - a) / (b - a) ≤ (s - a) / (b - a) :=
    div_le_div_of_nonneg_right (sub_le_sub_right hrs a) (sub_pos.2 hab).le
  exact max_le_max_right 0 (min_le_min_right 1 hdiv)

theorem strictMonoOn_rangePlace (hab : a < b) :
    StrictMonoOn (rangePlace a b) (Set.Icc a b) := by
  intro r hr s hs hrs
  rw [rangePlace_of_mem_Icc hab hr, rangePlace_of_mem_Icc hab hs]
  exact div_lt_div_of_pos_right (sub_lt_sub_right hrs a) (sub_pos.2 hab)

/-- A number and its mirror image in the range have places that add up to `1`. -/
theorem rangePlace_add_reflected (hab : a < b) :
    rangePlace a b r + rangePlace a b (a + b - r) = 1 := by
  rcases le_total r a with hra | har
  · have hfar : b ≤ a + b - r := by linarith
    rw [(rangePlace_eq_zero_iff hab).2 hra, (rangePlace_eq_one_iff hab).2 hfar, zero_add]
  rcases le_total b r with hbr | hrb
  · have hfar : a + b - r ≤ a := by linarith
    rw [(rangePlace_eq_one_iff hab).2 hbr, (rangePlace_eq_zero_iff hab).2 hfar, add_zero]
  · have hmirror : a + b - r ∈ Set.Icc a b := ⟨by linarith, by linarith⟩
    have hsum : r - a + (a + b - r - a) = b - a := by ring
    rw [rangePlace_of_mem_Icc hab ⟨har, hrb⟩, rangePlace_of_mem_Icc hab hmirror, ← add_div, hsum,
      div_self (sub_pos.2 hab).ne']

end Place

theorem strictMonoOn_smoothRise [IsStrictOrderedRing K] :
    StrictMonoOn (smoothRise (K := K)) (Set.Icc 0 1) := by
  intro p hp q hq hpq
  have hp' : 0 ≤ 1 - p := sub_nonneg.2 hp.2
  have hq' : 0 ≤ 1 - q := sub_nonneg.2 hq.2
  have hsum : 0 < 2 * (p * (1 - p)) + 2 * (q * (1 - q)) + p * (1 - q) + q * (1 - p) := by
    have hpp : 0 ≤ p * (1 - p) := mul_nonneg hp.1 hp'
    have hqq : 0 ≤ q * (1 - q) := mul_nonneg hq.1 hq'
    have hpq' : 0 ≤ p * (1 - q) := mul_nonneg hp.1 hq'
    -- the other summands vanish for `p = 0` and `q = 1`
    have hqp : 0 < q * (1 - p) := mul_pos (hp.1.trans_lt hpq) (sub_pos.2 (hpq.trans_le hq.2))
    linarith
  rw [← sub_pos, smoothRise_sub]
  exact mul_pos (sub_pos.2 hpq) hsum

/-- Both parts of the step keep the order, so it takes the ends and the order inside the range
from them. -/
theorem isUnitStep_unitStep [IsStrictOrderedRing K] {a b : K} (hab : a < b) :
    IsUnitStep a b (unitStep a b) := by
  have hzero : (0 : K) ∈ Set.Icc 0 1 := ⟨le_rfl, zero_le_one⟩
  have hone : (1 : K) ∈ Set.Icc 0 1 := ⟨zero_le_one, le_rfl⟩
  have hplace := rangePlace_mem_Icc a b
  have hrise := strictMonoOn_smoothRise (K := K)
  constructor
  · intro r
    exact smoothRise_zero.ge.trans (hrise.monotoneOn hzero (hplace r) (hplace r).1)
  · intro r
    exact (hrise.monotoneOn (hplace r) hone (hplace r).2).trans smoothRise_one.le
  · intro r
    rw [← rangePlace_eq_zero_iff hab, ← hrise.injOn.eq_iff (hplace r) hzero, smoothRise_zero]
    rfl
  · intro r
    rw [← rangePlace_eq_one_iff hab, ← hrise.injOn.eq_iff (hplace r) hone, smoothRise_one]
    rfl
  · exact hrise.comp (strictMonoOn_rangePlace hab) fun r _ => hplace r
  · intro r s hrs
    exact hrise.monotoneOn (hplace r) (hplace s) (monotone_rangePlace hab hrs)
  · intro r
    exact smoothRise_add (rangePlace_add_reflected hab)

namespace Primitives

variable {P : Primitives D} {embed : K → D} {a b r : K}

theorem saturate_embed (h : P.HasOrder embed) :
    P.saturate P.number (embed r) = embed (max (min r 1) 0) := by
  have hzero : P.number Literal.zero.value = embed 0 := h.zero
  have hone : P.number Literal.one.value = embed 1 := h.one
  rw [saturate, clamp, hzero, hone, h.min, h.max]

theorem smoothstep_embed (h : P.HasOrder embed) (hab : a ≠ b) :
    P.smoothstep P.number (embed a) (embed b) (embed r) = embed (unitStep a b r) := by
  have hthree : P.number Literal.three.value = embed 3 :=
    h.ofNat 3 (by decide +kernel) (by decide +kernel)
  have hplace : P.saturate P.number (P.div (P.sub (embed r) (embed a)) (P.sub (embed b) (embed a)))
      = embed (rangePlace a b r) := by
    rw [h.sub, h.sub, h.div _ _ (sub_ne_zero.2 hab.symm), saturate_embed h, rangePlace]
  rw [smoothstep, hplace, h.two, hthree, h.mul, h.sub, h.mul, h.mul, unitStep, smoothRise]

end Primitives

namespace Formula

open ShaderAlgebra.Expr Build Primitives

variable {P : Primitives D} {env : Environment D} {embed : K → D} {x y s : Expr} {t : ValueType}

/-- A smooth step of a float type. Operands have the numbers `value` as their lanes, and in each
lane the first one is less than the second one: then the step is a unit step between them. -/
theorem smoothstep_isUnitStep [IsStrictOrderedRing K] {value : Expr → Nat → K}
    (h : P.HasOrder embed)
    (hvalue : ∀ o ∈ [x, y, s], HasLanes P env t (fun i => embed (value o i)) o)
    (hfloat : t.isFloat = true) (hlt : ∀ i < t.components, value x i < value y i) :
    EvaluatesTo P env embed (smoothstep x y s) t
        (fun i => unitStep (value x i) (value y i) (value s i)) ∧
      ∀ i < t.components,
        IsUnitStep (value x i) (value y i) (unitStep (value x i) (value y i)) := by
  simp only [List.forall_mem_cons] at hvalue
  obtain ⟨hx, hy, hs, -⟩ := hvalue
  constructor
  · apply Meets.evaluatesTo
    apply (smoothstep_lanes hx hy hs).imp
    intro e he
    rw [scalar_of_isFloat hfloat] at he
    exact he.congr fun i hi => smoothstep_embed h (hlt i hi).ne
  · intro i hi
    exact isUnitStep_unitStep (hlt i hi)

/-- A fog begins and is complete at some distance, in each of two directions. -/
def fog : Environment ℚ where
  input _ name i :=
    if name = "near" then if i = 0 then 2 else 10
    else if name = "far" then if i = 0 then 6 else 20
    else if i = 0 then 3 else 25
  seed := 0

/-- In the one direction a quarter of the way is covered, in the other one the fog is complete. -/
theorem smoothstep_isUnitStep_fog :
    ∃ e, ((smoothstep (pair 0 "near") (pair 1 "far") (pair 2 "seen")).runFrom 3).1 = .ok e ∧
      e.lane (ofField fun a _ => a) fog 0 = 5 / 32 ∧ e.lane (ofField fun a _ => a) fog 1 = 1 ∧
      IsUnitStep (2 : ℚ) 6 (unitStep 2 6) := by
  let P : Primitives ℚ := ofField fun a _ => a
  have hlt : ∀ i < ValueType.float2.components,
      (pair 0 "near").lane P fog i < (pair 1 "far").lane P fog i := by
    decide +kernel
  obtain ⟨hruns, hstep⟩ := @smoothstep_isUnitStep ℚ ℚ _ _ P fog id (pair 0 "near") (pair 1 "far")
    (pair 2 "seen") .float2 _ (·.lane P fog) (hasOrder_ofField _)
    (fun o ho => ⟨by revert o; decide, fun _ _ => rfl⟩) rfl hlt
  obtain ⟨e, hrun, -, hlanes⟩ := hruns 3
  have hquarter : unitStep (2 : ℚ) 6 3 = 5 / 32 := by decide +kernel
  have hcomplete : unitStep (10 : ℚ) 20 25 = 1 := by decide +kernel
  exact ⟨e, hrun, (hlanes 0 (by decide)).trans hquarter, (hlanes 1 (by decide)).trans hcomplete,
    hstep 0 (by decide)⟩

end Formula

end ShaderAlgebra
