import Mathlib.Analysis.SpecialFunctions.Pow.Real
import ShaderAlgebra.Proofs.Evaluation.InnerProduct
import ShaderAlgebra.Proofs.Formula.Division

/-!
# Unit vectors

Where powers of one half are square roots, the length of a vector is the root of its
inner product with itself. A vector that is not zero, times the reciprocal of its
length in each lane, is a vector of length `1` in the same direction.
-/

namespace ShaderAlgebra

variable {D K : Type} [Field K]

theorem innerProduct_self_pos [LinearOrder K] [IsStrictOrderedRing K] {n : Nat} {f : Nat → K}
    (h : ∃ i < n, f i ≠ 0) : 0 < innerProduct n f f := by
  obtain ⟨i, hi, hne⟩ := h
  exact Finset.sum_pos' (fun _ _ => mul_self_nonneg _)
    ⟨i, Finset.mem_range.2 hi, mul_self_pos.2 hne⟩

namespace Primitives

theorem hasRoots_ofField_rpow : (ofField fun q s : ℝ => q ^ s).HasRoots id where
  toHasConstants := (hasOrder_ofField _).toHasConstants
  root q hq := ⟨√q, Real.sqrt_nonneg q, Real.mul_self_sqrt hq, (Real.sqrt_eq_rpow q).symm⟩

end Primitives

namespace Formula

open ShaderAlgebra.Expr Build Primitives

variable {P : Primitives D} {env : Environment D} {embed : K → D} {fails : Failure → Prop}
  {v : Expr} {t : ValueType} {f : Nat → K} {r : K}

theorem length_numbers (h : P.HasConstants embed) (hfloat : t.isFloat = true)
    (hv : HasLanes P env t (fun i => embed (f i)) v)
    (hroot : P.pow (embed (innerProduct t.components f f)) (embed (1 / 2)) = embed r) :
    Meets fails (length v) (HasLanes P env .float fun _ => embed r) := by
  unfold length
  apply (dot_numbers h.toHasArithmetic hfloat hv hv).bind
  intro square hsquare
  apply (sqrt_lanes hsquare).imp
  intro e he
  refine he.congr fun _ _ => ?_
  rw [scalar_of_isFloat rfl, Primitives.sqrt, h.half, hroot]

theorem normalize_numbers (h : P.HasConstants embed) (hfloat : t.isFloat = true)
    (hv : HasLanes P env t (fun i => embed (f i)) v)
    (hroot : P.pow (embed (innerProduct t.components f f)) (embed (1 / 2)) = embed r)
    (hr : r ≠ 0) :
    Meets fails (normalize v) (HasLanes P env t fun i => embed (f i / r)) := by
  have hone : HasLanes P env .float (fun _ => embed 1) (Literal.one.node .float) := by
    refine (hasLanes_literal Literal.one .float).congr fun _ _ => ?_
    rw [scalar_of_isFloat rfl]
    exact h.one
  unfold normalize
  rw [hv.1, hfloat, if_neg (by simp)]
  apply (length_numbers h hfloat hv hroot).bind
  intro size hsize
  apply (div_numbers h.toHasArithmetic hone hsize fun _ _ => hr).bind
  intro inverse hinverse
  apply (cast_scalar_lanes hinverse hfloat).bind
  intro factor hfactor
  apply (mul_numbers h.toHasArithmetic hv hfactor).imp
  intro unit hunit
  exact hunit.congr fun i _ => by rw [mul_one_div]

/-- A vector times its length. -/
theorem rescale_numbers {unit : Expr} {g : Nat → K} (h : P.HasConstants embed)
    (hfloat : t.isFloat = true) (hv : HasLanes P env t (fun i => embed (f i)) v)
    (hunit : HasLanes P env t (fun i => embed (g i)) unit)
    (hroot : P.pow (embed (innerProduct t.components f f)) (embed (1 / 2)) = embed r) :
    Meets fails (do mul unit (← cast (← length v) t 0))
      (HasLanes P env t fun i => embed (g i * r)) := by
  apply (length_numbers h hfloat hv hroot).bind
  intro size hsize
  apply (cast_scalar_lanes hsize hfloat).bind
  intro factor hfactor
  exact mul_numbers h.toHasArithmetic hunit hfactor

/-- The vector of length `1` in the direction of a float is of its type and has one division that
the float does not have, of scalars. Where powers of one half are square roots, and in every
environment in which the float is not zero, its lanes are those of the float over its length, its
inner product with itself is `1`, and times the length it is the float again. Other operands are
refused. -/
theorem normalize_unitVector (v : Expr) (next : Nat) :
    (v.type.isFloat = true → ∃ unit, ((normalize v).runFrom next).1 = .ok unit ∧
      unit.type = v.type ∧ DividesOnce v unit ∧
      ∀ {D K : Type} [Field K] [LinearOrder K] [IsStrictOrderedRing K] (P : Primitives D)
        (env : Environment D) (embed : K → D), P.HasRoots embed →
        ∀ f : Nat → K, HasLanes P env v.type (fun i => embed (f i)) v →
          (∃ i < v.type.components, f i ≠ 0) →
            ∃ r, 0 < r ∧ r * r = innerProduct v.type.components f f ∧
              EvaluatesTo P env embed (length v) .float (fun _ => r) ∧
              HasLanes P env v.type (fun i => embed (f i / r)) unit ∧
              EvaluatesTo P env embed (dot unit unit) .float (fun _ => 1) ∧
              EvaluatesTo P env embed (do mul unit (← cast (← length v) v.type 0)) v.type f) ∧
    (v.type.isFloat = false →
      ((normalize v).runFrom next).1 = .error (.refused (.invalidCast v.type .float))) := by
  constructor
  · intro hfloat
    -- that the run succeeds does not depend on the numbers
    have hruns : Meets (fun _ => False) (normalize v)
        (HasLanes .unit .unit v.type fun _ => ()) :=
      normalize_numbers (K := ℚ) (f := 0) (r := 1) hasConstants_unit hfloat
        (hasLanes_lane .unit .unit v) rfl one_ne_zero
    obtain ⟨unit, hrun, htype, -⟩ := hruns.exists_ok next
    refine ⟨unit, hrun, htype, (normalize_dividesOnce v).of_ok hrun, ?_⟩
    intro D K _ _ _ P env embed h f hv hne
    have hpos := innerProduct_self_pos hne
    obtain ⟨r, hr, hrr, hroot⟩ := h.root _ hpos.le
    have hr0 : r ≠ 0 := by
      rintro rfl
      rw [mul_zero] at hrr
      exact hpos.ne hrr
    have hnormalize : Meets (fun _ => False) (normalize v) _ :=
      normalize_numbers h.toHasConstants hfloat hv hroot hr0
    have hunit := hnormalize.of_ok hrun
    have hlength := (length_numbers h.toHasConstants hfloat hv hroot).evaluatesTo
    have hdot := (dot_numbers h.toHasArithmetic hfloat hunit hunit).evaluatesTo
    have hback := (rescale_numbers h.toHasConstants hfloat hv hunit hroot).evaluatesTo
    refine ⟨r, lt_of_le_of_ne hr hr0.symm, hrr, hlength, hunit, hdot.congr fun _ _ => ?_,
      hback.congr fun i _ => ?_⟩
    · rw [innerProduct_div_self, hrr, div_self hpos.ne']
    · exact div_mul_cancel₀ (f i) hr0
  · intro hother
    unfold normalize
    rw [hother, if_pos (by simp)]
    rfl

noncomputable def legs : Environment ℝ where
  input _ _ i := (i + 3 : Nat)
  seed := 0

/-- The legs as a vector have the length `5`. A whole number has no direction. -/
theorem normalize_unitVector_legs :
    (∃ unit, ((normalize (pair 0 "legs")).runFrom 1).1 = .ok unit ∧
      DividesOnce (pair 0 "legs") unit ∧
      unit.lane (ofField fun q s : ℝ => q ^ s) legs 0 = 3 / 5 ∧
      unit.lane (ofField fun q s : ℝ => q ^ s) legs 1 = 4 / 5) ∧
    ((normalize (.leaf 0 (.input .int "leg"))).runFrom 1).1 =
      .error (.refused (.invalidCast .int .float)) := by
  constructor
  · let P : Primitives ℝ := ofField fun q s => q ^ s
    let f : Nat → ℝ := (pair 0 "legs").lane P legs
    have hsquare : innerProduct 2 f f = 5 * 5 := by
      rw [innerProduct, Finset.sum_range_succ, Finset.sum_range_one]
      change (3 : ℝ) * 3 + 4 * 4 = 5 * 5
      norm_num
    have hthree : (3 : ℝ) ≠ 0 := by norm_num
    obtain ⟨unit, hrun, -, honce, hnumbers⟩ :=
      (normalize_unitVector (pair 0 "legs") 1).1 rfl
    obtain ⟨r, hr, hrr, -, hunit, -⟩ := hnumbers P legs id hasRoots_ofField_rpow f
      (hasLanes_lane P legs _) ⟨0, by decide, hthree⟩
    obtain rfl : r = 5 := (mul_self_inj hr.le (by norm_num)).1 (hrr.trans hsquare)
    exact ⟨unit, hrun, honce, hunit.2 0 (by decide), hunit.2 1 (by decide)⟩
  · exact (normalize_unitVector (.leaf 0 (.input .int "leg")) 1).2 rfl

end Formula

end ShaderAlgebra
