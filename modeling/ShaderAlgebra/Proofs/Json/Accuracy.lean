import Mathlib.Algebra.Order.Field.Power
import ShaderAlgebra.Json.Number
import ShaderAlgebra.Proofs.Binary.Error

/-!
# The accuracy of read numbers

A number is read with three roundings: of its significand, of its power of ten,
and of their product or quotient. Each is off by at most `2 ^ -53` of the float,
so that together they stay below `2 ^ -51`. Nothing is rounded at all if the
significand, the power of ten and the number itself have few enough digits.
-/

namespace ShaderAlgebra.Json

open Binary (Format)

variable {s n c j num den : Nat} {e : Int} {x y : Double} {a b q δ ε : ℚ}

theorem fits_double (h : j < 1024) : Word.Fits .double j := by
  have hunit : Format.double.unitBits = 1074 := rfl
  have hfraction : Format.double.fractionBits = 52 := rfl
  have hexponent : 2 ^ Format.double.exponentBits = 2048 := rfl
  unfold Word.Fits
  omega

/-- A finite float without a sign is a rational up to a share of the float. -/
structure Stands (δ q : ℚ) (x : Double) : Prop where
  isFinite : x.isFinite
  negative : x.negative = false
  near : Near δ q x.size

theorem Stands.bounds (h : Stands (1 / 2 ^ 53) q x) : q ≤ 2 * x.size ∧ x.size ≤ 2 * q :=
  h.near.le_two_mul x.size_nonneg (by norm_num)

theorem Stands.size_pos (h : Stands (1 / 2 ^ 53) q x) (hq : 0 < q) : 0 < x.size := by
  have hbounds := h.bounds
  linarith

/-- One rounding, far from both ends of the format. -/
theorem stands_ofRatio (hden : 0 < den) (hlow : (1 / 2 ^ 250 : ℚ) ≤ num / den)
    (hhigh : (num / den : ℚ) ≤ 2 ^ 250) :
    Stands (1 / 2 ^ 53) (num / den) (Word.ofRatio .double false num den) := by
  have hden' : (0 : ℚ) < den := by exact_mod_cast hden
  have hbelow : num < den * 2 ^ 251 := by
    have hlt : (num : ℚ) < den * 2 ^ 251 := by
      rw [← div_lt_iff₀' hden']
      exact lt_of_le_of_lt hhigh (pow_lt_pow_right₀ (by norm_num) (by norm_num))
    exact_mod_cast hlt
  have hfinite : (Word.ofRatio .double false num den).isFinite :=
    Word.isFinite_ofRatio (fits_double (by norm_num)) hden hbelow
  refine ⟨hfinite, Word.negative_ofRatio, Word.near_ofRatio (by decide) hden hfinite ?_⟩
  have hnormal :
      (2 : ℚ) ^ Format.double.fractionBits ≤ 1 / 2 ^ 250 * 2 ^ Format.double.unitBits := by
    rw [one_div_mul_eq_div, le_div_iff₀ (by positivity), ← pow_add]
    exact pow_le_pow_right₀ (by norm_num) (by decide)
  exact hnormal.trans (mul_le_mul_of_nonneg_right hlow (by positivity))

theorem stands_ofNat (hn : 0 < n) (h : n ≤ 2 ^ 250) :
    Stands (1 / 2 ^ 53) n (Word.ofNat .double n) := by
  have hone : (1 : ℚ) ≤ n := by exact_mod_cast hn
  have hread : Stands (1 / 2 ^ 53) (n / (1 : Nat)) (Word.ofNat .double n) := by
    refine stands_ofRatio Nat.one_pos ?_ ?_
    · rw [Nat.cast_one, div_one]
      refine le_trans ?_ hone
      rw [div_le_one (by positivity)]
      exact one_le_pow₀ (by norm_num)
    · rw [Nat.cast_one, div_one]
      exact_mod_cast h
  rwa [Nat.cast_one, div_one] at hread

theorem size_ofNat (h : Stands δ n (Word.ofNat .double n)) (hc : c < 2 ^ 53) (hn : n = c * 2 ^ j) :
    (Word.ofNat .double n).size = n := by
  have hexact : ((n / (1 : Nat) : ℚ)) * 2 ^ Format.double.unitBits =
      c * 2 ^ (j + Format.double.unitBits) := by
    rw [hn, pow_add]
    push_cast
    ring
  have hsize := Word.size_ofRatio (by decide) Nat.one_pos h.isFinite hc hexact
  rwa [Nat.cast_one, div_one] at hsize

theorem units_pos_of_size_pos (h : 0 < x.size) : 0 < x.units := by
  refine Nat.pos_of_ne_zero fun hzero => ?_
  rw [Word.size, hzero] at h
  norm_num at h

theorem div_le_four_mul {p p' r r' : ℚ} (hp : 0 ≤ p) (hr : 0 < r) (hpp : p ≤ 2 * p')
    (hrr : r' ≤ 2 * r) (hr' : 0 < r') : p / r ≤ 4 * (p' / r') := by
  rw [← mul_div_assoc, div_le_div_iff₀ hr hr']
  calc p * r' ≤ 2 * p' * (2 * r) := mul_le_mul hpp hrr hr'.le (hp.trans hpp)
    _ = 4 * p' * r := by ring

/-- The product of two rounded numbers. -/
theorem Stands.mul (hx : Stands (1 / 2 ^ 53) a x) (hy : Stands (1 / 2 ^ 53) b y) (ha : 0 < a)
    (hb : 0 < b) (hlow : 1 / 2 ^ 240 ≤ a * b) (hhigh : a * b ≤ 2 ^ 240) :
    Stands (1 / 2 ^ 51) (a * b) (x * y) := by
  have hxa := hx.bounds
  have hyb := hy.bounds
  have hbelow : x.size * y.size ≤ 2 * a * (2 * b) :=
    mul_le_mul hxa.2 hyb.2 y.size_nonneg (by positivity)
  have habove : a * b ≤ 2 * x.size * (2 * y.size) :=
    mul_le_mul hxa.1 hyb.1 hb.le (mul_nonneg (by norm_num) x.size_nonneg)
  have hround : Stands (1 / 2 ^ 53) (x.size * y.size) (x * y) := by
    rw [Word.mul_of_isFinite hx.isFinite hy.isFinite, hx.negative, hy.negative, ← Word.mul_size]
    refine stands_ofRatio (by decide) ?_ ?_
    · rw [Word.mul_size]
      linarith
    · rw [Word.mul_size]
      linarith
  have hfactors := hx.near.mul hy.near x.size_nonneg y.size_nonneg (by norm_num) (by norm_num)
    (by norm_num) (by norm_num)
  have htotal := hfactors.trans hround.near (x * y).size_nonneg (by norm_num) (by norm_num)
    (by norm_num)
  exact ⟨hround.isFinite, hround.negative, htotal.mono (x * y).size_nonneg (by norm_num)⟩

/-- The quotient of two rounded numbers. -/
theorem Stands.div (hx : Stands (1 / 2 ^ 53) a x) (hy : Stands (1 / 2 ^ 53) b y) (ha : 0 < a)
    (hb : 0 < b) (hlow : 1 / 2 ^ 240 ≤ a / b) (hhigh : a / b ≤ 2 ^ 240) :
    Stands (1 / 2 ^ 51) (a / b) (x / y) := by
  have hxa := hx.bounds
  have hyb := hy.bounds
  have hxpos := hx.size_pos ha
  have hypos := hy.size_pos hb
  have hunits := units_pos_of_size_pos hypos
  have hbelow := div_le_four_mul hxpos.le hypos hxa.2 hyb.1 hb
  have habove := div_le_four_mul ha.le hb hxa.1 hyb.2 hypos
  have hround : Stands (1 / 2 ^ 53) (x.size / y.size) (x / y) := by
    rw [Word.div_of_isFinite hx.isFinite hy.isFinite (Word.isZero_of_units_pos hunits),
      hx.negative, hy.negative, ← Word.div_size]
    refine stands_ofRatio hunits ?_ ?_
    · rw [Word.div_size]
      linarith
    · rw [Word.div_size]
      linarith
  have hfactors : Near (1 / 2 ^ 52 + 1 / 2 ^ 104) (a / b) (x.size / y.size) :=
    hx.near.div hy.near x.size_nonneg hypos (by norm_num) (by norm_num) (by norm_num)
      (by norm_num) (by norm_num)
  have htotal := hfactors.trans hround.near (x / y).size_nonneg (by norm_num) (by norm_num)
    (by norm_num)
  exact ⟨hround.isFinite, hround.negative, htotal.mono (x / y).size_nonneg (by norm_num)⟩

theorem Stands.size_mul_eq (hx : Stands δ a x) (hy : Stands δ b y) (hxy : Stands ε q (x * y))
    (ha : x.size = a) (hb : y.size = b) (hc : c < 2 ^ 53) (hq : a * b * 2 ^ 1074 = c * 2 ^ j) :
    (x * y).size = a * b := by
  have hfinite := hxy.isFinite
  rw [Word.mul_of_isFinite hx.isFinite hy.isFinite] at hfinite ⊢
  rw [← ha, ← hb, ← Word.mul_size] at hq ⊢
  exact Word.size_ofRatio (by decide) (by decide) hfinite hc hq

theorem Stands.size_div_eq (hx : Stands δ a x) (hy : Stands δ b y) (hxy : Stands ε q (x / y))
    (ha : x.size = a) (hb : y.size = b) (hpos : 0 < b) (hc : c < 2 ^ 53)
    (hq : a / b * 2 ^ 1074 = c * 2 ^ j) : (x / y).size = a / b := by
  have hunits := units_pos_of_size_pos (hb.symm ▸ hpos)
  have hfinite := hxy.isFinite
  rw [Word.div_of_isFinite hx.isFinite hy.isFinite (Word.isZero_of_units_pos hunits)] at hfinite ⊢
  rw [← ha, ← hb, ← Word.div_size] at hq ⊢
  exact Word.size_ofRatio (by decide) hunits hfinite hc hq

/-! ### Numbers from their parts -/

theorem stands_powerOfTen (hn : n ≤ 50) : Stands (1 / 2 ^ 53) (10 ^ n) (powerOfTen n) := by
  have hle : Nat.pow 10 n ≤ 2 ^ 250 :=
    (Nat.pow_le_pow_right (by decide) hn).trans (by norm_num)
  have hcast : ((Nat.pow 10 n : Nat) : ℚ) = 10 ^ n := by simp
  rw [← hcast]
  exact stands_ofNat (Nat.pow_pos (by decide)) hle

theorem size_powerOfTen (hn : n ≤ 22) : (powerOfTen n).size = 10 ^ n := by
  have hfive : 5 ^ n < 2 ^ 53 :=
    (Nat.pow_le_pow_right (by decide) hn).trans_lt (by norm_num)
  have hcast : ((Nat.pow 10 n : Nat) : ℚ) = 10 ^ n := by simp
  have hread := stands_powerOfTen (hn.trans (by decide))
  rw [← hcast] at hread ⊢
  exact size_ofNat hread hfive (Nat.mul_pow 5 2 n)

theorem divideByPower_of_le (hn : n ≤ 308) : divideByPower x n = x / powerOfTen n := by
  rw [divideByPower, if_pos hn]

/-- A significand divided by a power of ten. Both are exact if they have few enough digits. -/
theorem stands_div_powerOfTen (hs : 0 < s) (hsize : s < UInt64.size) (hn : n ≤ 50) :
    Stands (1 / 2 ^ 51) (s / 10 ^ n) (Word.ofNat .double s / powerOfTen n) ∧
      (s < 2 ^ 53 → n ≤ 22 → ∀ c j : Nat, c < 2 ^ 53 → (s / 10 ^ n : ℚ) * 2 ^ 1074 = c * 2 ^ j →
        (Word.ofNat .double s / powerOfTen n).size = s / 10 ^ n) := by
  have hone : (1 : ℚ) ≤ s := by exact_mod_cast hs
  have hbits : (s : ℚ) ≤ 2 ^ 64 := by exact_mod_cast hsize.le
  have hsignificand := stands_ofNat hs (hsize.le.trans (by decide +kernel))
  have hpower := stands_powerOfTen (n := n) (by omega)
  have hlargest : (10 : ℚ) ^ 50 ≤ 2 ^ 170 := by norm_num
  have hpos : (0 : ℚ) < 10 ^ n := by positivity
  have hpower1 : (1 : ℚ) ≤ 10 ^ n := one_le_pow₀ (by norm_num)
  have hle : (10 : ℚ) ^ n ≤ 10 ^ 50 := pow_le_pow_right₀ (by norm_num) hn
  have hstands : Stands (1 / 2 ^ 51) (s / 10 ^ n) (Word.ofNat .double s / powerOfTen n) := by
    refine hsignificand.div hpower (by linarith) hpos ?_ ?_
    · rw [div_le_div_iff₀ (by positivity) hpos, one_mul]
      linarith
    · rw [div_le_iff₀ hpos]
      linarith
  refine ⟨hstands, fun hs' hn' c j hc hq => ?_⟩
  have hexact : (Word.ofNat .double s).size = s :=
    size_ofNat (j := 0) hsignificand hs' (Nat.mul_one s).symm
  exact hsignificand.size_div_eq hpower hstands hexact (size_powerOfTen hn') hpos hc hq

/-- A significand times a power of ten. Both are exact if they have few enough digits. -/
theorem stands_mul_powerOfTen (hs : 0 < s) (hsize : s < UInt64.size) (hn : n ≤ 50) :
    Stands (1 / 2 ^ 51) (s * 10 ^ n) (Word.ofNat .double s * powerOfTen n) ∧
      (s < 2 ^ 53 → n ≤ 22 → ∀ c j : Nat, c < 2 ^ 53 → (s * 10 ^ n : ℚ) * 2 ^ 1074 = c * 2 ^ j →
        (Word.ofNat .double s * powerOfTen n).size = s * 10 ^ n) := by
  have hone : (1 : ℚ) ≤ s := by exact_mod_cast hs
  have hbits : (s : ℚ) ≤ 2 ^ 64 := by exact_mod_cast hsize.le
  have hsignificand := stands_ofNat hs (hsize.le.trans (by decide +kernel))
  have hpower := stands_powerOfTen (n := n) (by omega)
  have hlargest : (10 : ℚ) ^ 50 ≤ 2 ^ 170 := by norm_num
  have hpower1 : (1 : ℚ) ≤ 10 ^ n := one_le_pow₀ (by norm_num)
  have hle : (10 : ℚ) ^ n ≤ 10 ^ 50 := pow_le_pow_right₀ (by norm_num) hn
  have hlower : (1 : ℚ) ≤ s * 10 ^ n := one_le_mul_of_one_le_of_one_le hone hpower1
  have hupper : (s * 10 ^ n : ℚ) ≤ 2 ^ 64 * 2 ^ 170 :=
    mul_le_mul hbits (hle.trans hlargest) (by positivity) (by positivity)
  have hstands : Stands (1 / 2 ^ 51) (s * 10 ^ n) (Word.ofNat .double s * powerOfTen n) := by
    refine hsignificand.mul hpower (by linarith) (by positivity) ?_ ?_
    · linarith
    · linarith
  refine ⟨hstands, fun hs' hn' c j hc hq => ?_⟩
  have hexact : (Word.ofNat .double s).size = s :=
    size_ofNat (j := 0) hsignificand hs' (Nat.mul_one s).symm
  exact hsignificand.size_mul_eq hpower hstands hexact (size_powerOfTen hn') hc hq

/-- A decimal of moderate size is read as a float that differs from it by less than the share
`2 ^ -51`, and does not differ at all if its parts and its value have few enough digits. -/
theorem realOfParts?_stands (hs : 0 < s) (hsize : s < UInt64.size) (hlow : -50 ≤ e)
    (hhigh : e ≤ 50) :
    ∃ y, realOfParts? s e = some y ∧ Stands (1 / 2 ^ 51) (s * 10 ^ e) y ∧
      (s < 2 ^ 53 → -22 ≤ e → e ≤ 22 → ∀ c j : Nat, c < 2 ^ 53 →
        (s * 10 ^ e : ℚ) * 2 ^ 1074 = c * 2 ^ j → y.size = s * 10 ^ e) := by
  unfold realOfParts?
  by_cases hsign : e < 0
  · obtain ⟨n, rfl⟩ : ∃ n : Nat, e = -n := ⟨e.natAbs, by omega⟩
    obtain ⟨hstands, hexact⟩ := stands_div_powerOfTen hs hsize (n := n) (by omega)
    have hquotient : (s * 10 ^ (-n : Int) : ℚ) = s / 10 ^ n := by
      rw [zpow_neg, zpow_natCast, div_eq_mul_inv]
    rw [if_pos hsign, Int.natAbs_neg, Int.natAbs_natCast, divideByPower_of_le (by omega), hquotient]
    exact ⟨_, rfl, hstands, fun hs' hmin _ => hexact hs' (by omega)⟩
  · obtain ⟨n, rfl⟩ : ∃ n : Nat, e = n := ⟨e.toNat, by omega⟩
    obtain ⟨hstands, hexact⟩ := stands_mul_powerOfTen hs hsize (n := n) (by omega)
    have hnotInfinite := (Word.not_special_of_isFinite hstands.isFinite).2
    rw [if_neg hsign, if_pos (by omega), Int.toNat_natCast, zpow_natCast]
    simp only [hnotInfinite, Bool.false_eq_true, if_false]
    exact ⟨_, rfl, hstands, fun hs' _ hmax => hexact hs' (by omega)⟩

end ShaderAlgebra.Json
