import Mathlib.Data.Rat.Floor
import Mathlib.Data.UInt
import Mathlib.Tactic.Linarith
import ShaderAlgebra.Proofs.Evaluation.Arithmetic

/-!
# Remainders

The remainder of integers is the one of truncating division, in wrapping 32-bit
arithmetic and for every divisor but zero. On floats it is the one of floored
division: it lies between zero and the divisor, and together with the multiple of
the divisor that discretization gives it makes up the dividend.
-/

namespace ShaderAlgebra

/-- What truncating division leaves of `a`: it has the sign of `a` and is smaller than `b`. -/
structure IsTruncatedRemainder (a b r : Int) : Prop where
  eq : r = a.tmod b
  natAbs_lt : r.natAbs < b.natAbs
  nonneg : 0 ≤ a → 0 ≤ r
  nonpos : a ≤ 0 → r ≤ 0

theorem isTruncatedRemainder_tmod {a b : Int} (hb : b ≠ 0) :
    IsTruncatedRemainder a b (a.tmod b) where
  eq := rfl
  natAbs_lt := by
    rw [Int.natAbs_tmod]
    exact Nat.mod_lt _ (Int.natAbs_pos.2 hb)
  nonneg ha := Int.tmod_nonneg b ha
  nonpos ha := by
    have hneg := Int.tmod_nonneg b (Int.neg_nonneg_of_nonpos ha)
    rw [Int.neg_tmod] at hneg
    exact Int.neg_nonneg.1 hneg

/-- The quotient and the product wrap around, and their difference to `a` comes out right. -/
theorem sub_div_mul_of_int (a b : Int32) : a - a / b * b = a % b := by
  have hmod : a.toInt - a.toInt.tdiv b.toInt * b.toInt = a.toInt.tmod b.toInt := by
    rw [Int.tmod_def, Int.mul_comm]
  apply Int32.toInt_inj.1
  calc (a - a / b * b).toInt
      = (a.toInt - a.toInt.tdiv b.toInt * b.toInt).bmod (2 ^ 32) := by
        rw [Int32.toInt_sub, Int32.toInt_mul, Int32.toInt_div, Int.bmod_mul_bmod, Int.sub_bmod_bmod]
    _ = (a % b).toInt.bmod (2 ^ 32) := by rw [hmod, Int32.toInt_mod]
    _ = (a % b).toInt := Int32.toInt_bmod _

theorem sub_div_mul_of_uint (a b : UInt32) : a - a / b * b = a % b := by
  have hle : a.toNat / b.toNat * b.toNat ≤ a.toNat := Nat.div_mul_le_self _ _
  -- No product of a quotient and its divisor wraps around.
  have hproduct : (a / b * b).toNat = a.toNat / b.toNat * b.toNat := by
    rw [UInt32.toNat_mul, UInt32.toNat_div, Nat.mod_eq_of_lt (Nat.lt_of_le_of_lt hle a.toNat_lt)]
  apply UInt32.toNat_inj.1
  rw [UInt32.toNat_sub_of_le _ _ (UInt32.le_iff_toNat_le.2 (hproduct ▸ hle)), hproduct,
    UInt32.toNat_mod, Nat.sub_eq_iff_eq_add hle, Nat.mod_add_div']

section Floored

variable {K : Type} [Field K] [LinearOrder K] [FloorRing K] {a b : K}

/-- What floored division leaves of `a`: it lies between zero and `b`. -/
structure IsFlooredRemainder (a b r : K) : Prop where
  eq : r = a - ⌊a / b⌋ * b
  of_pos : 0 < b → 0 ≤ r ∧ r < b
  of_neg : b < 0 → b < r ∧ r ≤ 0

theorem isFlooredRemainder_sub [IsStrictOrderedRing K] (a b : K) :
    IsFlooredRemainder a b (a - ⌊a / b⌋ * b) where
  eq := rfl
  of_pos hb := ⟨Int.sub_floor_div_mul_nonneg a hb, Int.sub_floor_div_mul_lt a hb⟩
  of_neg hb := by
    have hpos : 0 < -b := neg_pos.2 hb
    have hnonneg := Int.sub_floor_div_mul_nonneg (-a) hpos
    have hlt := Int.sub_floor_div_mul_lt (-a) hpos
    rw [neg_div_neg_eq] at hnonneg hlt
    constructor <;> linarith

variable {D : Type} {P : Primitives D} {embed : K → D}

theorem floatModulo_eq (h : P.HasFloor embed) (hb : b ≠ 0) :
    P.floatModulo (embed a) (embed b) = embed (a - ⌊a / b⌋ * b) := by
  rw [Primitives.floatModulo, Primitives.frac, h.div a b hb, h.floor, h.sub, h.mul, sub_mul,
    div_mul_cancel₀ a hb]

theorem discretize_eq (h : P.HasFloor embed) (hb : b ≠ 0) :
    P.discretize (embed a) (embed b) = embed (⌊a / b⌋ * b) := by
  rw [Primitives.discretize, h.div a b hb, h.floor, h.mul]

end Floored

theorem wholeModulo_eq {A D : Type} [Add A] [Sub A] [Mul A] [Div A] [Zero A] {P : Primitives D}
    {embed : A → D} (h : P.HasArithmetic embed) {a b : A} (hb : b ≠ 0) :
    P.wholeModulo (embed a) (embed b) = embed (a - a / b * b) := by
  rw [Primitives.wholeModulo, h.div a b hb, h.mul, h.sub]

namespace Formula

open ShaderAlgebra.Expr Build

variable {fails : Failure → Prop} {x y : Expr}

/-- An expression that gives the remainder of `x` by `y`, for every divisor but zero: of integers
in wrapping arithmetic, and of floats in each lane. -/
structure GivesRemainder (x y r : Expr) : Prop where
  type_eq : r.type = x.type
  int : x.type = .int → ∀ (D : Type) (P : Primitives D) (env : Environment D) (embed : Int32 → D),
    P.HasArithmetic embed → ∀ a b, x.lane P env 0 = embed a → y.lane P env 0 = embed b → b ≠ 0 →
      ∃ c, r.lane P env 0 = embed c ∧ IsTruncatedRemainder a.toInt b.toInt c.toInt
  uint : x.type = .uint → ∀ (D : Type) (P : Primitives D) (env : Environment D)
    (embed : UInt32 → D), P.HasArithmetic embed → ∀ a b, x.lane P env 0 = embed a →
      y.lane P env 0 = embed b → b ≠ 0 →
        ∃ c, r.lane P env 0 = embed c ∧ IsTruncatedRemainder a.toNat b.toNat c.toNat
  float : x.type.isFloat = true → ∀ (K : Type) [Field K] [LinearOrder K] [IsStrictOrderedRing K]
    [FloorRing K] (D : Type) (P : Primitives D) (env : Environment D) (embed : K → D),
      P.HasFloor embed → ∀ i < x.type.components, ∀ a b, x.lane P env i = embed a →
        y.lane P env i = embed b → b ≠ 0 →
          ∃ c, r.lane P env i = embed c ∧ IsFlooredRemainder a b c

theorem modulo_givesRemainder (hy : y.type = x.type) :
    Meets fails (modulo x y) (GivesRemainder x y) := by
  have hlanes : Meets fails (modulo x y) fun r => ∀ D (P : Primitives D) (env : Environment D),
      HasLanes P env x.type _ r :=
    Meets.forall_domains fun D P env =>
      modulo_lanes (hasLanes_lane P env x) ⟨hy, fun _ _ => rfl⟩
  apply hlanes.imp
  intro r hr
  refine ⟨(hr Unit .unit .unit).1, ?_, ?_, ?_⟩
  · intro hint D P env embed h a b ha hb hzero
    have hr := (hr D P env).2 0 x.type.components_pos
    dsimp only at hr
    rw [hint, if_neg (by decide), ha, hb, wholeModulo_eq h hzero, sub_div_mul_of_int] at hr
    refine ⟨a % b, hr, ?_⟩
    rw [Int32.toInt_mod]
    exact isTruncatedRemainder_tmod fun hb => hzero (Int32.toInt_inj.1 hb)
  · intro huint D P env embed h a b ha hb hzero
    have hr := (hr D P env).2 0 x.type.components_pos
    dsimp only at hr
    rw [huint, if_neg (by decide), ha, hb, wholeModulo_eq h hzero, sub_div_mul_of_uint] at hr
    refine ⟨a % b, hr, ?_⟩
    rw [UInt32.toNat_mod, Int.natCast_mod, ← Int.tmod_eq_emod_of_nonneg (Int.natCast_nonneg _)]
    exact isTruncatedRemainder_tmod fun hb => hzero (UInt32.toNat_inj.1 (by simpa using hb))
  · intro hfloat K _ _ _ _ D P env embed h i hi a b ha hb hzero
    have hr := (hr D P env).2 i hi
    dsimp only at hr
    rw [if_pos hfloat, ha, hb, floatModulo_eq h hzero] at hr
    exact ⟨_, hr, isFlooredRemainder_sub a b⟩

/-- The sum of the multiple that discretization gives and the remainder. -/
def recombine (x y : Expr) : Build Expr := do add (← discretize x y) (← modulo x y)

/-- An expression that gives `x` back in each lane, for every divisor but zero. -/
def Recombines (x y whole : Expr) : Prop :=
  whole.type = x.type ∧ ∀ (K : Type) [Field K] [LinearOrder K] [IsStrictOrderedRing K]
    [FloorRing K] (D : Type) (P : Primitives D) (env : Environment D) (embed : K → D),
      P.HasFloor embed → ∀ i < x.type.components, ∀ a b, x.lane P env i = embed a →
        y.lane P env i = embed b → b ≠ 0 → whole.lane P env i = embed a

theorem recombine_lanes (hy : y.type = x.type) (hfloat : x.type.isFloat = true) :
    Meets fails (recombine x y) fun whole =>
      ∀ D (P : Primitives D) (env : Environment D), HasLanes P env x.type (fun i =>
        P.add (P.discretize (x.lane P env i) (y.lane P env i))
          (P.floatModulo (x.lane P env i) (y.lane P env i))) whole := by
  refine Meets.forall_domains fun D P env => ?_
  have hx := hasLanes_lane P env x
  have hy : HasLanes P env x.type (y.lane P env) y := ⟨hy, fun _ _ => rfl⟩
  apply (discretize_lanes hx hy).bind
  intro multiple hmultiple
  apply (modulo_lanes hx hy).bind
  intro rest hrest
  simp only [hfloat, if_true] at hrest
  exact binary_lanes hmultiple hrest

theorem recombine_recombines (hy : y.type = x.type) (hfloat : x.type.isFloat = true) :
    Meets fails (recombine x y) (Recombines x y) := by
  apply (recombine_lanes hy hfloat).imp
  intro whole hwhole
  refine ⟨(hwhole Unit .unit .unit).1, ?_⟩
  intro K _ _ _ _ D P env embed h i hi a b ha hb hzero
  have hlane := (hwhole D P env).2 i hi
  dsimp only at hlane
  rwa [ha, hb, discretize_eq h hzero, floatModulo_eq h hzero, h.add, add_sub_cancel] at hlane

/-- Of two operands of one type the remainder always exists and is the one of truncating division
on integers and the one of floored division on floats, where discretization takes off the rest. -/
theorem modulo_remainder (x y : Expr) (hy : y.type = x.type) (next : Nat) :
    (∃ r, ((modulo x y).runFrom next).1 = .ok r ∧ GivesRemainder x y r) ∧
    (x.type.isFloat = true →
      ∃ whole, ((recombine x y).runFrom next).1 = .ok whole ∧ Recombines x y whole) :=
  ⟨(modulo_givesRemainder hy).exists_ok next,
    fun hfloat => (recombine_recombines hy hfloat).exists_ok next⟩

def dividend (t : ValueType) : Expr := .leaf 0 (.input t "x")

def divisor (t : ValueType) : Expr := .leaf 1 (.input t "y")

def division {D : Type} (a b : D) : Environment D where
  input _ name _ := if name = "x" then a else b
  seed := a

/-- The quotient of the least integer by `-1` wraps around, and the remainder is zero. The
remainder of `-7 / 2` by `2` is `1 / 2`, beside a multiple of `-4`. -/
theorem modulo_remainder_extremes :
    (∃ r, ((modulo (dividend .int) (divisor .int)).runFrom 2).1 = .ok r ∧
      r.lane (.ofArithmetic id) (division Int32.minValue (-1)) 0 = 0) ∧
    (∃ r, ((modulo (dividend .float) (divisor .float)).runFrom 2).1 = .ok r ∧
      r.lane (.ofArithmetic fun a : ℚ => ⌊a⌋) (division (-7 / 2) 2) 0 = 1 / 2) ∧
    ∃ whole, ((recombine (dividend .float) (divisor .float)).runFrom 2).1 = .ok whole ∧
      whole.lane (.ofArithmetic fun a : ℚ => ⌊a⌋) (division (-7 / 2) 2) 0 = -7 / 2 := by
  obtain ⟨⟨r, hrun, hr⟩, -⟩ := modulo_remainder (dividend .int) (divisor .int) rfl 2
  obtain ⟨⟨s, hrun', hs⟩, hwhole⟩ := modulo_remainder (dividend .float) (divisor .float) rfl 2
  obtain ⟨whole, hrun'', hwhole⟩ := hwhole rfl
  refine ⟨⟨r, hrun, ?_⟩, ⟨s, hrun', ?_⟩, ⟨whole, hrun'', ?_⟩⟩
  · obtain ⟨c, hlane, hc⟩ := hr.int rfl Int32 (.ofArithmetic id) (division Int32.minValue (-1)) id
      (Primitives.hasArithmetic_ofArithmetic _) _ _ rfl rfl (by decide)
    rw [hlane]
    exact Int32.toInt_inj.1 hc.eq
  · obtain ⟨c, hlane, hc⟩ := hs.float rfl ℚ ℚ _ (division (-7 / 2) 2) id
      Primitives.hasFloor_ofArithmetic 0 Nat.one_pos (-7 / 2) 2 rfl rfl two_ne_zero
    rw [hlane, id_eq, hc.eq]
    norm_num
  · exact hwhole.2 ℚ ℚ _ (division (-7 / 2) 2) id Primitives.hasFloor_ofArithmetic 0 Nat.one_pos
      _ _ rfl rfl two_ne_zero

end Formula

end ShaderAlgebra
