import Mathlib.Tactic.NormNum
import Mathlib.Tactic.Positivity
import ShaderAlgebra.Proofs.Binary.Nearest

/-!
# The error of one rounding

A rational and the float that it is rounded to differ by at most half a unit of
the last place, which is a fixed share of the float unless it is subnormal. Shares
add up along products and quotients. A rational with few enough binary digits is
not changed at all.
-/

namespace ShaderAlgebra

open Binary (Format)

/-- A rational that differs from another one by at most the share `δ` of it. -/
structure Near (δ q a : ℚ) : Prop where
  lower : a * (1 - δ) ≤ q
  upper : q ≤ a * (1 + δ)

namespace Near

variable {δ ε η q r a b : ℚ}

theorem mul (h : Near δ q a) (h' : Near ε r b) (ha : 0 ≤ a) (hb : 0 ≤ b) (hδ : 0 ≤ δ)
    (hδ1 : δ ≤ 1) (hε : 0 ≤ ε) (hε1 : ε ≤ 1) : Near (δ + ε + δ * ε) (q * r) (a * b) := by
  have hlow : 0 ≤ a * (1 - δ) := mul_nonneg ha (sub_nonneg.mpr hδ1)
  have hlow' : 0 ≤ b * (1 - ε) := mul_nonneg hb (sub_nonneg.mpr hε1)
  constructor
  · calc a * b * (1 - (δ + ε + δ * ε))
        ≤ a * b * (1 - (δ + ε + δ * ε)) + a * b * (2 * (δ * ε)) :=
          le_add_of_nonneg_right (by positivity)
      _ = a * (1 - δ) * (b * (1 - ε)) := by ring
      _ ≤ q * r := mul_le_mul h.lower h'.lower hlow' (hlow.trans h.lower)
  · calc q * r ≤ a * (1 + δ) * (b * (1 + ε)) :=
          mul_le_mul h.upper h'.upper (hlow'.trans h'.lower) (by positivity)
      _ = a * b * (1 + (δ + ε + δ * ε)) := by ring

theorem div (h : Near δ q a) (h' : Near ε r b) (ha : 0 ≤ a) (hb : 0 < b) (hδ : 0 ≤ δ)
    (hε : 0 ≤ ε) (hε1 : ε < 1) (hη1 : η ≤ 1) (hη : δ + ε ≤ η * (1 - ε)) :
    Near η (q / r) (a / b) := by
  have hr : 0 < r := lt_of_lt_of_le (mul_pos hb (sub_pos.mpr hε1)) h'.lower
  have hη0 : 0 ≤ η := by
    by_contra hneg
    have hproduct : η * (1 - ε) < 0 := mul_neg_of_neg_of_pos (not_le.mp hneg) (sub_pos.mpr hε1)
    linarith
  constructor
  · rw [div_mul_eq_mul_div, div_le_div_iff₀ hb hr]
    have hshare : (1 - η) * (1 + ε) ≤ 1 - δ := by
      have hproduct : 0 ≤ η * ε := mul_nonneg hη0 hε
      linarith
    calc a * (1 - η) * r ≤ a * (1 - η) * (b * (1 + ε)) :=
          mul_le_mul_of_nonneg_left h'.upper (mul_nonneg ha (sub_nonneg.mpr hη1))
      _ = a * b * ((1 - η) * (1 + ε)) := by ring
      _ ≤ a * b * (1 - δ) := mul_le_mul_of_nonneg_left hshare (mul_nonneg ha hb.le)
      _ = a * (1 - δ) * b := by ring
      _ ≤ q * b := mul_le_mul_of_nonneg_right h.lower hb.le
  · rw [div_mul_eq_mul_div, div_le_div_iff₀ hr hb]
    have hshare : 1 + δ ≤ (1 + η) * (1 - ε) := by linarith
    calc q * b ≤ a * (1 + δ) * b := mul_le_mul_of_nonneg_right h.upper hb.le
      _ = a * b * (1 + δ) := by ring
      _ ≤ a * b * ((1 + η) * (1 - ε)) := mul_le_mul_of_nonneg_left hshare (mul_nonneg ha hb.le)
      _ = a * (1 + η) * (b * (1 - ε)) := by ring
      _ ≤ a * (1 + η) * r :=
          mul_le_mul_of_nonneg_left h'.lower (mul_nonneg ha (by linarith))

theorem trans (h : Near δ q a) (h' : Near ε a b) (hb : 0 ≤ b) (hδ : 0 ≤ δ) (hδ1 : δ ≤ 1)
    (hε : 0 ≤ ε) : Near (δ + ε + δ * ε) q b := by
  constructor
  · calc b * (1 - (δ + ε + δ * ε))
        ≤ b * (1 - (δ + ε + δ * ε)) + b * (2 * (δ * ε)) := le_add_of_nonneg_right (by positivity)
      _ = b * (1 - ε) * (1 - δ) := by ring
      _ ≤ a * (1 - δ) := mul_le_mul_of_nonneg_right h'.lower (sub_nonneg.mpr hδ1)
      _ ≤ q := h.lower
  · calc q ≤ a * (1 + δ) := h.upper
      _ ≤ b * (1 + ε) * (1 + δ) := mul_le_mul_of_nonneg_right h'.upper (by positivity)
      _ = b * (1 + (δ + ε + δ * ε)) := by ring

theorem mono (h : Near δ q a) (ha : 0 ≤ a) (hδ : δ ≤ ε) : Near ε q a :=
  ⟨(mul_le_mul_of_nonneg_left (by linarith) ha).trans h.lower,
    h.upper.trans (mul_le_mul_of_nonneg_left (by linarith) ha)⟩

theorem le_two_mul (h : Near δ q a) (ha : 0 ≤ a) (hδ : δ ≤ 1 / 2) : q ≤ 2 * a ∧ a ≤ 2 * q := by
  have hshare : a * δ ≤ a * (1 / 2) := mul_le_mul_of_nonneg_left hδ ha
  have hlower := h.lower
  have hupper := h.upper
  constructor <;> linarith

end Near

namespace Binary.Format

variable {f : Format} {m num den a j k r : Nat} {q : ℚ}

theorem scale_of_significand_lt (h : f.significand m < 2 ^ f.fractionBits) : f.scale m = 0 := by
  have hstep := Nat.two_pow_pos f.fractionBits
  obtain ⟨e, r, hr, rfl⟩ : ∃ e r, r < 2 ^ f.fractionBits ∧ m = e * 2 ^ f.fractionBits + r :=
    ⟨m / 2 ^ f.fractionBits, m % 2 ^ f.fractionBits, Nat.mod_lt _ hstep,
      (Nat.div_add_mod' _ _).symm⟩
  obtain ⟨hscale, hsignificand⟩ := scale_significand f (e := e) hr
  rw [hsignificand] at h
  rw [hscale]
  split at h
  · omega
  · omega

/-- Four times a value in units, as the ends of intervals are counted. -/
theorem quarters_cast (f : Format) (q : ℚ) :
    q * (4 <<< f.unitBits : Nat) = 4 * (q * 2 ^ f.unitBits) := by
  rw [Nat.shiftLeft_eq]
  push_cast
  ring

/-- A rational that is not below the least normal number rounds to a normal one. -/
theorem Nearest.le_significand (h : f.Nearest m q)
    (hq : (2 : ℚ) ^ f.fractionBits ≤ q * 2 ^ f.unitBits) :
    2 ^ f.fractionBits ≤ f.significand m := by
  by_contra hlt
  have hscale := scale_of_significand_lt (Nat.lt_of_not_le hlt)
  have hupper := h.le_upper
  rw [upperEnd, hscale, Nat.shiftLeft_zero, Nat.shiftLeft_eq] at hupper
  have hsmall : ((f.significand m + 1 : Nat) : ℚ) ≤ (2 ^ f.fractionBits : Nat) := by
    exact_mod_cast Nat.lt_of_not_le hlt
  push_cast at hupper hsmall
  linarith

/-- The ends of an interval are at most half a last place away from its float. -/
theorem ends_le (f : Format) (m : Nat) :
    4 * f.units m ≤ f.lowerEnd m + 2 * 2 ^ f.scale m ∧
      f.upperEnd m = 4 * f.units m + 2 * 2 ^ f.scale m := by
  have hsplit (c : Nat) : (4 * f.significand m + c) * 2 ^ f.scale m =
      4 * (f.significand m * 2 ^ f.scale m) + c * 2 ^ f.scale m := by ring
  simp only [lowerEnd, upperEnd, units, Nat.shiftLeft_eq, hsplit, and_true]
  rw [Nat.sub_mul, Nat.mul_assoc]
  split <;> omega

/-- A rounded number differs from a normal float by a fixed share of the float. -/
theorem Nearest.near (h : f.Nearest m q) (hm : 2 ^ f.fractionBits ≤ f.significand m) :
    Near (1 / 2 ^ (f.fractionBits + 1)) q (f.units m / 2 ^ f.unitBits) := by
  obtain ⟨hlowerEnd, hupperEnd⟩ := ends_le f m
  have hunit : (0 : ℚ) < 2 ^ f.unitBits := by positivity
  have hscaled := quarters_cast f q
  have hlower : (4 * f.units m : ℚ) ≤ 4 * (q * 2 ^ f.unitBits) + 2 * 2 ^ f.scale m := by
    have hends : (4 * f.units m : ℚ) ≤ f.lowerEnd m + 2 * 2 ^ f.scale m := by
      exact_mod_cast hlowerEnd
    linarith [h.lower_le]
  have hupper : 4 * (q * 2 ^ f.unitBits) ≤ 4 * f.units m + 2 * 2 ^ f.scale m := by
    have hends : (f.upperEnd m : ℚ) = 4 * f.units m + 2 * 2 ^ f.scale m := by
      exact_mod_cast hupperEnd
    linarith [h.le_upper]
  -- The significand is full, so that half a last place is a share of the float.
  have hshare : (2 : ℚ) ^ f.scale m ≤ 2 * f.units m * (1 / 2 ^ (f.fractionBits + 1)) := by
    have hfull : 2 ^ f.fractionBits * 2 ^ f.scale m ≤ f.units m := by
      rw [units, Nat.shiftLeft_eq]
      exact Nat.mul_le_mul_right _ hm
    rw [mul_one_div, le_div_iff₀ (by positivity), pow_succ]
    have hcast : (2 : ℚ) ^ f.fractionBits * 2 ^ f.scale m ≤ f.units m := by exact_mod_cast hfull
    linarith
  constructor
  · rw [div_mul_eq_mul_div, div_le_iff₀ hunit]
    linarith
  · rw [div_mul_eq_mul_div, le_div_iff₀ hunit]
    linarith

theorem lowerEnd_of_scale_pos (h : 0 < f.scale m) :
    (4 * 2 ^ f.fractionBits - 1) * 2 ^ f.scale m ≤ f.lowerEnd m := by
  have hnormal : 2 ^ f.fractionBits ≤ f.significand m := by
    by_contra hsmall
    rw [scale_of_significand_lt (Nat.lt_of_not_le hsmall)] at h
    exact absurd h (Nat.lt_irrefl 0)
  rw [lowerEnd, Nat.shiftLeft_eq, Nat.one_shiftLeft]
  refine Nat.mul_le_mul_right _ ?_
  split <;> omega

/-- The lower end of a coarser float is above all numbers with so few digits. -/
theorem scale_le_of_lowerEnd_le (ha : a < 2 ^ (f.fractionBits + 1))
    (h : f.lowerEnd m ≤ 4 * (a * 2 ^ j)) : f.scale m ≤ j := by
  by_contra hcoarse
  have hends := lowerEnd_of_scale_pos (Nat.zero_lt_of_lt (Nat.not_le.1 hcoarse))
  have hdouble : 2 * 2 ^ j ≤ 2 ^ f.scale m := by
    rw [← Nat.pow_succ']
    exact Nat.pow_le_pow_right (by decide) (Nat.not_le.1 hcoarse)
  have hdigits : a + 1 ≤ 2 * 2 ^ f.fractionBits := by
    rw [← Nat.pow_succ']
    exact ha
  have hbelow : (4 * 2 ^ f.fractionBits - 1) * (2 * 2 ^ j) ≤ 4 * a * 2 ^ j :=
    calc (4 * 2 ^ f.fractionBits - 1) * (2 * 2 ^ j)
        ≤ (4 * 2 ^ f.fractionBits - 1) * 2 ^ f.scale m := Nat.mul_le_mul_left _ hdouble
      _ ≤ f.lowerEnd m := hends
      _ ≤ 4 * (a * 2 ^ j) := h
      _ = 4 * a * 2 ^ j := (Nat.mul_assoc ..).symm
  rw [← Nat.mul_assoc] at hbelow
  have hcontra := Nat.le_of_mul_le_mul_right hbelow (Nat.two_pow_pos j)
  omega

/-- A rational with few enough binary digits rounds to itself. -/
theorem Nearest.units_eq (h : f.Nearest m q) (ha : a < 2 ^ (f.fractionBits + 1))
    (hq : q * 2 ^ f.unitBits = a * 2 ^ j) : f.units m = a * 2 ^ j := by
  have hscaled : q * (4 <<< f.unitBits : Nat) = (4 * (a * 2 ^ j) : Nat) := by
    rw [quarters_cast, hq]
    push_cast
    rfl
  obtain ⟨hlowerEnd, hupperEnd⟩ := ends_le f m
  have hlower : f.lowerEnd m ≤ 4 * (a * 2 ^ j) := by
    have hle := h.lower_le
    rw [hscaled] at hle
    exact_mod_cast hle
  have hupper : 4 * (a * 2 ^ j) ≤ f.upperEnd m := by
    have hle := h.le_upper
    rw [hscaled] at hle
    exact_mod_cast hle
  -- Both are whole multiples of the float's last place, and less than one apart.
  obtain ⟨i, rfl⟩ := Nat.exists_eq_add_of_le (scale_le_of_lowerEnd_le ha hlower)
  have hmultiple : a * 2 ^ (f.scale m + i) = a * 2 ^ i * 2 ^ f.scale m := by ring
  have hunits : f.units m = f.significand m * 2 ^ f.scale m := Nat.shiftLeft_eq _ _
  rw [hmultiple] at hlower hupper ⊢
  rw [hunits] at hlowerEnd hupperEnd ⊢
  have hle : 4 * f.significand m ≤ 4 * (a * 2 ^ i) + 2 := by
    refine Nat.le_of_mul_le_mul_right ?_ (Nat.two_pow_pos (f.scale m))
    rw [Nat.add_mul, Nat.mul_assoc, Nat.mul_assoc 4]
    omega
  have hge : 4 * (a * 2 ^ i) ≤ 4 * f.significand m + 2 := by
    refine Nat.le_of_mul_le_mul_right ?_ (Nat.two_pow_pos (f.scale m))
    rw [Nat.add_mul, Nat.mul_assoc, Nat.mul_assoc 4]
    omega
  congr 1
  omega

theorem units_eq_mul (f : Format) (m : Nat) :
    4 * f.units m = 4 * f.significand m * 2 ^ f.scale m := by
  rw [units, Nat.shiftLeft_eq, Nat.mul_assoc]

theorem lowerEnd_lt (h : 0 < f.units m) : f.lowerEnd m < 4 * f.units m := by
  have hsignificand : 0 < f.significand m := by
    refine Nat.pos_of_ne_zero fun hzero => ?_
    rw [units, hzero, Nat.zero_shiftLeft] at h
    exact Nat.lt_irrefl 0 h
  rw [units_eq_mul, lowerEnd, Nat.shiftLeft_eq _ (f.scale m)]
  refine Nat.mul_lt_mul_of_pos_right ?_ (Nat.two_pow_pos _)
  split <;> omega

theorem lt_upperEnd (f : Format) (m : Nat) : 4 * f.units m < f.upperEnd m := by
  rw [units_eq_mul, upperEnd, Nat.shiftLeft_eq]
  exact Nat.mul_lt_mul_of_pos_right (by omega) (Nat.two_pow_pos _)

theorem lowerEnd_le (f : Format) (m : Nat) : f.lowerEnd m ≤ 4 * f.units m := by
  rw [units_eq_mul, lowerEnd, Nat.shiftLeft_eq _ (f.scale m)]
  exact Nat.mul_le_mul_right _ (Nat.sub_le _ _)

theorem units_lt_units (h : m < k) : f.units m < f.units k := by
  have hends := @upperEnd_le f m k h
  have hupper := lt_upperEnd f m
  have hlower := lowerEnd_le f k
  omega

theorem units_le_units (h : m ≤ k) : f.units m ≤ f.units k := by
  rcases Nat.lt_or_eq_of_le h with hlt | rfl
  · exact (units_lt_units hlt).le
  · exact Nat.le_refl _

/-- No two magnitudes stand for one value. -/
theorem units_inj : f.units m = f.units k ↔ m = k := by
  refine ⟨fun h => ?_, fun h => congrArg f.units h⟩
  rcases Nat.lt_trichotomy m k with hlt | heq | hgt
  · exact absurd h (units_lt_units hlt).ne
  · exact heq
  · exact absurd h (units_lt_units hgt).ne'

/-- A positive float rounds to itself. -/
theorem nearest_of_units (h : 0 < f.units m) (hq : q * 2 ^ f.unitBits = f.units m) :
    f.Nearest m q := by
  have hlower : (f.lowerEnd m : ℚ) < 4 * f.units m := by exact_mod_cast lowerEnd_lt h
  have hupper : (4 * f.units m : ℚ) < f.upperEnd m := by exact_mod_cast lt_upperEnd f m
  have hscaled : q * (4 <<< f.unitBits : Nat) = 4 * f.units m := by rw [quarters_cast, hq]
  refine ⟨?_, ?_, ?_⟩
  · rw [hscaled]
    exact hlower.le
  · rw [hscaled]
    exact hupper.le
  · rw [hscaled]
    rintro (hend | hend)
    · exact absurd hend hlower.ne'
    · exact absurd hend hupper.ne

/-- Rounding does not go beyond a float that is not less. -/
theorem Nearest.le_of_le (h : f.Nearest m q) (hq : q * 2 ^ f.unitBits ≤ f.units k) : m ≤ k := by
  by_contra hlt
  have hends : (f.upperEnd k : ℚ) ≤ f.lowerEnd m := by
    exact_mod_cast upperEnd_le (Nat.lt_of_not_le hlt)
  have hupper : (4 * f.units k : ℚ) < f.upperEnd k := by exact_mod_cast lt_upperEnd f k
  have hlower := h.lower_le
  rw [quarters_cast] at hlower
  linarith

theorem round_le_of_le (hf : 0 < f.fractionBits) (hden : 0 < den)
    (h : (num / den : ℚ) * 2 ^ f.unitBits ≤ f.units k) : f.round num den ≤ k := by
  rw [round_eq]
  exact Nat.le_trans (Nat.min_le_right _ _) ((nearest_place hf hden).le_of_le h)

/-- Rounding does not go below a float that is not greater. -/
theorem Nearest.units_le (h : f.Nearest m q) (hq : f.units k ≤ q * 2 ^ f.unitBits) :
    f.units k ≤ f.units m := by
  by_contra hlt
  have hless : m < k := Nat.lt_of_not_le fun hle => hlt (units_le_units hle)
  have hends : (f.upperEnd m : ℚ) ≤ f.lowerEnd k := by exact_mod_cast upperEnd_le hless
  have hlower : (f.lowerEnd k : ℚ) < 4 * f.units k := by
    exact_mod_cast lowerEnd_lt (Nat.zero_lt_of_lt (Nat.lt_of_not_le hlt))
  have hupper := h.le_upper
  rw [quarters_cast] at hupper
  linarith

end Binary.Format

namespace Word

variable {f g : Format} {a b w : Word f} {num den c j : Nat} {negative : Bool}

def size (w : Word f) : ℚ := w.units / 2 ^ f.unitBits

theorem size_nonneg (w : Word f) : 0 ≤ w.size := by
  unfold size
  positivity

/-- The number that a finite word stands for. -/
def value (w : Word f) : ℚ := if w.negative then -w.size else w.size

theorem nearest_ofRatio (hf : 0 < f.fractionBits) (hden : 0 < den)
    (h : (ofRatio f negative num den).isFinite) :
    f.Nearest (ofRatio f negative num den).magnitude (num / den) := by
  have hlt : (ofRatio f negative num den).magnitude < f.infinity := of_decide_eq_true h
  rw [magnitude_ofRatio] at hlt ⊢
  exact Format.nearest_round hf hden hlt

/-- The error of one rounding above the least normal number. -/
theorem near_ofRatio (hf : 0 < f.fractionBits) (hden : 0 < den)
    (h : (ofRatio f negative num den).isFinite)
    (hnormal : (2 : ℚ) ^ f.fractionBits ≤ num / den * 2 ^ f.unitBits) :
    Near (1 / 2 ^ (f.fractionBits + 1)) (num / den) (ofRatio f negative num den).size :=
  have hnearest := nearest_ofRatio hf hden h
  hnearest.near (hnearest.le_significand hnormal)

/-- A rational with few enough binary digits is not rounded. -/
theorem size_ofRatio (hf : 0 < f.fractionBits) (hden : 0 < den)
    (h : (ofRatio f negative num den).isFinite) (hc : c < 2 ^ (f.fractionBits + 1))
    (hq : (num / den : ℚ) * 2 ^ f.unitBits = c * 2 ^ j) :
    (ofRatio f negative num den).size = num / den := by
  have hunits : (ofRatio f negative num den).units = c * 2 ^ j :=
    (nearest_ofRatio hf hden h).units_eq hc hq
  rw [size, hunits, div_eq_iff (by positivity), hq]
  push_cast
  rfl

theorem isZero_of_units_pos (h : 0 < a.units) : a.isZero = false := by
  by_contra hzero
  rw [Bool.not_eq_false, Word.isZero, beq_iff_eq] at hzero
  rw [Word.units, hzero, Format.units, Format.significand, Nat.zero_sub, Nat.zero_shiftLeft] at h
  exact Nat.lt_irrefl 0 h

theorem div_of_isFinite (ha : a.isFinite) (hb : b.isFinite) (hzero : b.isZero = false) :
    a / b = ofRatio f (a.negative != b.negative) a.units b.units := by
  change div a b = _
  unfold div
  simp only [not_special_of_isFinite ha, not_special_of_isFinite hb, hzero, Bool.or_self,
    Bool.false_eq_true, if_false]

/-- No quotient by a float that is at least one overflows. -/
theorem isFinite_div (hf : 0 < f.fractionBits) (ha : a.isFinite) (hb : b.isFinite)
    (hone : 2 ^ f.unitBits ≤ b.units) : (a / b).isFinite := by
  have hpos : 0 < b.units := Nat.lt_of_lt_of_le (Nat.two_pow_pos _) hone
  have hcast : (2 : ℚ) ^ f.unitBits ≤ b.units := by exact_mod_cast hone
  have hle : (a.units / b.units : ℚ) * 2 ^ f.unitBits ≤ a.units := by
    rw [div_mul_eq_mul_div, div_le_iff₀ (by exact_mod_cast hpos)]
    exact mul_le_mul_of_nonneg_left hcast (Nat.cast_nonneg _)
  rw [div_of_isFinite ha hb (isZero_of_units_pos hpos), isFinite, magnitude_ofRatio,
    decide_eq_true_eq]
  exact Nat.lt_of_le_of_lt (Format.round_le_of_le hf hpos hle) (of_decide_eq_true ha)

theorem mul_size (a b : Word f) :
    ((a.units * b.units : Nat) / (1 <<< (2 * f.unitBits) : Nat) : ℚ) = a.size * b.size := by
  rw [size, size, div_mul_div_comm, ← pow_add, ← two_mul, Nat.one_shiftLeft]
  push_cast
  rfl

/-- A product does not go beyond a float that is not less. -/
theorem magnitude_mul_le {m : Nat} (hf : 0 < f.fractionBits) (ha : a.isFinite) (hb : b.isFinite)
    (h : a.size * b.size * 2 ^ f.unitBits ≤ f.units m) : (a * b).magnitude ≤ m := by
  have hden : 0 < 1 <<< (2 * f.unitBits) := by simp [Nat.shiftLeft_eq]
  rw [← mul_size] at h
  rw [mul_of_isFinite ha hb, magnitude_ofRatio]
  exact Format.round_le_of_le hf hden h

/-- A product is the float whose interval holds it. -/
theorem magnitude_mul_eq {m : Nat} (hf : 0 < f.fractionBits) (ha : a.isFinite) (hb : b.isFinite)
    (hm : m < f.infinity) (h : f.Nearest m (a.size * b.size)) : (a * b).magnitude = m := by
  have hden : 0 < 1 <<< (2 * f.unitBits) := by simp [Nat.shiftLeft_eq]
  rw [← mul_size] at h
  rw [mul_of_isFinite ha hb, magnitude_ofRatio]
  exact h.round_eq hf hden hm

theorem div_size (a b : Word f) : (a.units / b.units : ℚ) = a.size / b.size := by
  rw [size, size, div_div_div_cancel_right₀]
  positivity

theorem size_eq_div (w : Word f) : w.size = w.units / (1 <<< f.unitBits : Nat) := by
  rw [size, Nat.one_shiftLeft]
  push_cast
  rfl

/-- Conversion gives the float whose interval holds the number. -/
theorem magnitude_convert {m : Nat} (hg : 0 < g.fractionBits) (h : w.isFinite)
    (hm : m < g.infinity) (hnearest : g.Nearest m w.size) : (w.convert g).magnitude = m := by
  rw [convert_of_isFinite h, magnitude_ofRatio]
  rw [size_eq_div] at hnearest
  exact hnearest.round_eq hg (by simp [Nat.shiftLeft_eq]) hm

end Word

end ShaderAlgebra
