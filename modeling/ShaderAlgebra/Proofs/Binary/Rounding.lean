import Mathlib.Tactic.Ring
import ShaderAlgebra.Binary.Word

/-!
# The size of rounded numbers

Rounding a rational below a power of two gives a float that is at most that
power. So a product of two rounded naturals is infinite only if the factors are
too large together.
-/

namespace ShaderAlgebra

namespace Binary

theorem bitLength_le {n j : Nat} (h : n < 2 ^ j) : bitLength n ≤ j := by
  unfold bitLength
  split
  · exact Nat.zero_le j
  next hn => exact (Nat.log2_lt hn).mpr h

theorem lt_two_pow_bitLength (n : Nat) : n < 2 ^ bitLength n := by
  unfold bitLength
  split
  next hn => simp [hn]
  · exact Nat.lt_log2_self

theorem divNearestEven_le (n d : Nat) : divNearestEven n d ≤ n / d + 1 := by
  have hparity : n / d % 2 < 2 := Nat.mod_lt _ (by decide)
  simp only [divNearestEven]
  split
  · exact Nat.le_succ _
  split <;> omega

namespace Format

variable {f : Format} {num den magnitude i j : Nat}

/-- The exponent of the last place of a rounded number is at most that of `2 ^ j`. -/
theorem round_le (hden : 0 < den) (h : num < den * 2 ^ j) :
    f.round num den ≤ (j + f.unitBits - (f.fractionBits + 1) + 2) * 2 ^ f.fractionBits := by
  let n := num <<< f.unitBits
  let k := bitLength (n / den) - (f.fractionBits + 1)
  have hn : n < den * 2 ^ (j + f.unitBits) := by
    calc n = num * 2 ^ f.unitBits := Nat.shiftLeft_eq _ _
      _ < den * 2 ^ j * 2 ^ f.unitBits := Nat.mul_lt_mul_of_pos_right h (Nat.two_pow_pos _)
      _ = den * 2 ^ (j + f.unitBits) := by rw [Nat.mul_assoc, ← Nat.pow_add]
  have hk : k ≤ j + f.unitBits - (f.fractionBits + 1) :=
    Nat.sub_le_sub_right (bitLength_le ((Nat.div_lt_iff_lt_mul hden).mpr (by rwa [Nat.mul_comm]))) _
  have hquotient : n / (den <<< k) < 2 ^ (f.fractionBits + 1) := by
    have hbits : n / den < 2 ^ (f.fractionBits + 1 + k) :=
      Nat.lt_of_lt_of_le (lt_two_pow_bitLength _) (Nat.pow_le_pow_right (by decide) (by omega))
    rw [Nat.shiftLeft_eq, ← Nat.div_div_eq_div_mul]
    rw [Nat.pow_add] at hbits
    exact (Nat.div_lt_iff_lt_mul (Nat.two_pow_pos k)).mpr hbits
  calc f.round num den
      ≤ k <<< f.fractionBits + divNearestEven n (den <<< k) := Nat.min_le_right _ _
    _ ≤ k * 2 ^ f.fractionBits + 2 ^ (f.fractionBits + 1) := by
        rw [Nat.shiftLeft_eq]
        exact Nat.add_le_add_left (Nat.le_trans (divNearestEven_le _ _) hquotient) _
    _ = (k + 2) * 2 ^ f.fractionBits := by ring
    _ ≤ _ := Nat.mul_le_mul_right _ (Nat.add_le_add_right hk 2)

theorem significand_lt : f.significand magnitude < 2 ^ (f.fractionBits + 1) := by
  have hdiv := Nat.div_add_mod magnitude (2 ^ f.fractionBits)
  have hmod := Nat.mod_lt magnitude (Nat.two_pow_pos f.fractionBits)
  unfold significand scale
  rw [Nat.shiftRight_eq_div_pow, Nat.shiftLeft_eq, Nat.pow_succ]
  cases hexponent : magnitude / 2 ^ f.fractionBits with
  | zero =>
    rw [hexponent] at hdiv
    omega
  | succ e =>
    rw [hexponent, Nat.mul_succ] at hdiv
    rw [Nat.add_sub_cancel, Nat.mul_comm e]
    omega

theorem significand_pos (h : 0 < magnitude) : 0 < f.significand magnitude := by
  have hdiv := Nat.div_mul_le_self magnitude (2 ^ f.fractionBits)
  have hstep := Nat.two_pow_pos f.fractionBits
  unfold significand scale
  rw [Nat.shiftRight_eq_div_pow, Nat.shiftLeft_eq, Nat.sub_mul]
  omega

theorem units_lt (h : magnitude ≤ (j + 2) * 2 ^ f.fractionBits) :
    f.units magnitude < 2 ^ (j + f.fractionBits + 2) := by
  have hscale : f.scale magnitude ≤ j + 1 := by
    have hexponent : magnitude / 2 ^ f.fractionBits ≤ j + 2 :=
      Nat.div_le_of_le_mul (by rwa [Nat.mul_comm])
    unfold scale
    rw [Nat.shiftRight_eq_div_pow]
    omega
  calc f.units magnitude = f.significand magnitude * 2 ^ f.scale magnitude := Nat.shiftLeft_eq _ _
    _ < 2 ^ (f.fractionBits + 1) * 2 ^ f.scale magnitude :=
        Nat.mul_lt_mul_of_pos_right significand_lt (Nat.two_pow_pos _)
    _ = 2 ^ (f.fractionBits + 1 + f.scale magnitude) := (Nat.pow_add _ _ _).symm
    _ ≤ _ := Nat.pow_le_pow_right (by decide) (by omega)

end Format

end Binary

open Binary (Format)

namespace Word

variable {f g : Format} {num den magnitude i j : Nat} {negative : Bool} {w : Word f}

theorem magnitude_ofMagnitude (h : magnitude < 2 ^ f.magnitudeBits) :
    (ofMagnitude f negative magnitude).magnitude = magnitude := by
  unfold ofMagnitude Word.magnitude
  rw [BitVec.toNat_ofNat, Nat.shiftLeft_eq, Nat.one_mul, Nat.pow_succ, Nat.mod_mul_right_mod]
  cases negative with
  | true => simp [Nat.mod_eq_of_lt h]
  | false => simp [Nat.mod_eq_of_lt h]

/-- A word is its sign and its magnitude. -/
theorem eq_of_magnitude_eq {w w' : Word f} (hsign : w.negative = w'.negative)
    (h : w.magnitude = w'.magnitude) : w = w' := by
  have htoNat (w : Word f) :
      w.bits.toNat = (if w.negative then 2 ^ f.magnitudeBits else 0) + w.magnitude := by
    have hlt : w.bits.toNat < 2 * 2 ^ f.magnitudeBits := by
      rw [← Nat.pow_succ']
      exact w.bits.isLt
    simp only [negative, magnitude, BitVec.msb_eq_decide, Nat.add_sub_cancel, decide_eq_true_eq,
      Nat.shiftLeft_eq, Nat.one_mul]
    split
    next hle =>
      rw [Nat.mod_eq_sub_mod hle, Nat.mod_eq_of_lt (by omega)]
      omega
    next hlt => rw [Nat.mod_eq_of_lt (by omega), Nat.zero_add]
  cases w
  cases w'
  refine congrArg Word.mk (BitVec.eq_of_toNat_eq ?_)
  rw [htoNat ⟨_⟩, htoNat ⟨_⟩, hsign, h]

theorem magnitude_lt_of_le_infinity (h : magnitude ≤ f.infinity) :
    magnitude < 2 ^ f.magnitudeBits := by
  refine Nat.lt_of_le_of_lt h ?_
  rw [Format.infinity, Nat.shiftLeft_eq, Nat.shiftLeft_eq, Nat.one_mul, Format.magnitudeBits,
    Nat.pow_add]
  exact Nat.mul_lt_mul_of_pos_right (Nat.sub_lt (Nat.two_pow_pos _) Nat.one_pos)
    (Nat.two_pow_pos _)

theorem magnitude_ofRatio : (ofRatio f negative num den).magnitude = f.round num den :=
  magnitude_ofMagnitude (magnitude_lt_of_le_infinity (Nat.min_le_left _ _))

/-- `2 ^ j` is below infinity, with room for one more step of the exponent. -/
def Fits (f : Format) (j : Nat) : Prop :=
  f.fractionBits + 1 ≤ j + f.unitBits ∧
    j + f.unitBits - (f.fractionBits + 1) + 2 < 2 ^ f.exponentBits - 1

theorem isFinite_ofRatio (hj : Fits f j) (hden : 0 < den) (h : num < den * 2 ^ j) :
    (ofRatio f negative num den).isFinite := by
  rw [isFinite, magnitude_ofRatio, decide_eq_true_eq]
  refine Nat.lt_of_le_of_lt (Format.round_le hden h) ?_
  rw [Format.infinity, Nat.shiftLeft_eq, Nat.shiftLeft_eq, Nat.one_mul]
  exact Nat.mul_lt_mul_of_pos_right hj.2 (Nat.two_pow_pos _)

theorem not_special_of_isFinite {a : Word f} (h : a.isFinite) :
    a.isNaN = false ∧ a.isInfinite = false := by
  simp only [isFinite, decide_eq_true_eq] at h
  simp only [isNaN, isInfinite, decide_eq_false_iff_not, beq_eq_false_iff_ne]
  omega

theorem mul_of_isFinite {a b : Word f} (ha : a.isFinite) (hb : b.isFinite) :
    a * b = ofRatio f (a.negative != b.negative) (a.units * b.units) (1 <<< (2 * f.unitBits)) := by
  change mul a b = _
  unfold mul
  simp only [not_special_of_isFinite ha, not_special_of_isFinite hb, Bool.or_self,
    Bool.false_eq_true, if_false]

theorem negative_ofMagnitude {magnitude : Nat} (h : magnitude < 2 ^ f.magnitudeBits) :
    (ofMagnitude f negative magnitude).negative = negative := by
  rw [Word.negative, ofMagnitude, BitVec.msb_eq_decide, BitVec.toNat_ofNat, Nat.add_sub_cancel,
    Nat.one_shiftLeft, Nat.pow_succ]
  cases negative with
  | true =>
    rw [if_pos rfl, Nat.mod_eq_of_lt (by omega), decide_eq_true_eq]
    exact Nat.le_add_right _ _
  | false =>
    rw [if_neg (by decide), Nat.mod_eq_of_lt (by omega), decide_eq_false_iff_not]
    exact Nat.not_le.mpr h

theorem negative_ofRatio : (ofRatio f negative num den).negative = negative :=
  negative_ofMagnitude (magnitude_lt_of_le_infinity (Nat.min_le_left _ _))

/-- A rounded rational is finite unless it is infinite. -/
theorem isFinite_of_not_infinite (h : (ofRatio f negative num den).isInfinite = false) :
    (ofRatio f negative num den).isFinite := by
  have hle : f.round num den ≤ f.infinity := Nat.min_le_left _ _
  have hne : f.round num den ≠ f.infinity := by
    rwa [isInfinite, magnitude_ofRatio, beq_eq_false_iff_ne] at h
  rw [isFinite, magnitude_ofRatio, decide_eq_true_eq]
  exact Nat.lt_of_le_of_ne hle hne

theorem isNaN_ofRatio : (ofRatio f negative num den).isNaN = false := by
  rw [isNaN, magnitude_ofRatio, decide_eq_false_iff_not]
  exact Nat.not_lt.mpr (Nat.min_le_left _ _)

theorem magnitude_lt (w : Word f) : w.magnitude < 2 ^ f.magnitudeBits := by
  rw [← Nat.one_shiftLeft]
  exact Nat.mod_lt _ (by simp [Nat.shiftLeft_eq])

theorem negative_neg (w : Word f) : (-w).negative = !w.negative :=
  negative_ofMagnitude w.magnitude_lt

theorem magnitude_neg (w : Word f) : (-w).magnitude = w.magnitude :=
  magnitude_ofMagnitude w.magnitude_lt

theorem isFinite_neg (w : Word f) : (-w).isFinite = w.isFinite := by
  rw [isFinite, magnitude_neg, isFinite]

theorem convert_of_isFinite (h : w.isFinite) :
    w.convert g = ofRatio g w.negative w.units (1 <<< f.unitBits) := by
  obtain ⟨hnan, hinfinite⟩ := not_special_of_isFinite h
  simp only [convert, hnan, hinfinite, Bool.false_eq_true, if_false]

end Word

end ShaderAlgebra
