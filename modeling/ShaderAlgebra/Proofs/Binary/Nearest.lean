import Mathlib.Algebra.Order.Field.Rat
import Mathlib.Tactic.FieldSimp
import Mathlib.Tactic.Linarith
import ShaderAlgebra.Proofs.Binary.Rounding

/-!
# Rounding to nearest

The rationals that round to a magnitude form an interval, and neighbours share
an end point, which belongs to the even one of them. So no rational rounds to
two magnitudes. Rounding gives a magnitude whose interval holds the rational, and
what lies in an interval is rounded to its magnitude.
-/

namespace ShaderAlgebra.Binary

theorem two_pow_le_of_bitLength {n : Nat} (h : 0 < n) : 2 ^ (bitLength n - 1) ≤ n := by
  rw [bitLength, if_neg h.ne', Nat.add_sub_cancel]
  exact Nat.log2_self_le h.ne'

/-- A quotient is rounded down or up, and half a unit away to the even side. -/
theorem divNearestEven_cases (n d : Nat) :
    divNearestEven n d = n / d ∧ 2 * (n % d) ≤ d ∧ (2 * (n % d) = d → n / d % 2 = 0) ∨
      divNearestEven n d = n / d + 1 ∧ d ≤ 2 * (n % d) ∧ (2 * (n % d) = d → n / d % 2 = 1) := by
  unfold divNearestEven
  dsimp only
  split
  · omega
  split
  · omega
  · rcases Nat.mod_two_eq_zero_or_one (n / d) with h | h <;> rw [h] <;> omega

/-- The nearest whole number is at most half a unit away, and even if it is half a unit away. -/
theorem divNearestEven_spec {n d : Nat} (hd : 0 < d) :
    2 * n ≤ (2 * divNearestEven n d + 1) * d ∧ 2 * divNearestEven n d * d ≤ 2 * n + d ∧
      (2 * n = (2 * divNearestEven n d + 1) * d ∨ 2 * divNearestEven n d * d = 2 * n + d →
        divNearestEven n d % 2 = 0) := by
  have hdiv : d * (n / d) + n % d = n := Nat.div_add_mod n d
  have hmod : n % d < d := Nat.mod_lt n hd
  have hcases := divNearestEven_cases n d
  generalize n / d = q at *
  rcases hcases with ⟨hq, hrest, htie⟩ | ⟨hq, hrest, htie⟩
  · have hupper : (2 * q + 1) * d = 2 * (d * q) + d := by ring
    have hlower : 2 * q * d = 2 * (d * q) := by ring
    rw [hq, hupper, hlower]
    omega
  · have hupper : (2 * (q + 1) + 1) * d = 2 * (d * q) + 3 * d := by ring
    have hlower : 2 * (q + 1) * d = 2 * (d * q) + 2 * d := by ring
    rw [hq, hupper, hlower]
    omega

namespace Format

variable {f : Format} {m n num den k r : Nat} {q : ℚ}

/-- Four times the lower end of the reals that round to a magnitude, in units. -/
def lowerEnd (f : Format) (m : Nat) : Nat :=
  (4 * f.significand m - if f.significand m = 1 <<< f.fractionBits ∧ 0 < f.scale m then 1 else 2) <<<
    f.scale m

/-- Four times the upper end of the reals that round to a magnitude, in units. -/
def upperEnd (f : Format) (m : Nat) : Nat := (4 * f.significand m + 2) <<< f.scale m

theorem lowerEnd_lt_upperEnd (f : Format) (m : Nat) : f.lowerEnd m < f.upperEnd m := by
  simp only [lowerEnd, upperEnd, Nat.shiftLeft_eq]
  refine Nat.mul_lt_mul_of_pos_right ?_ (Nat.two_pow_pos _)
  exact Nat.lt_of_le_of_lt (Nat.sub_le _ _) (by omega)

/-- The exponent field and the fraction field of a magnitude. -/
theorem scale_significand (f : Format) {e r : Nat} (hr : r < 2 ^ f.fractionBits) :
    f.scale (e * 2 ^ f.fractionBits + r) = e - 1 ∧
      f.significand (e * 2 ^ f.fractionBits + r) =
        if e = 0 then r else 2 ^ f.fractionBits + r := by
  have hscale : f.scale (e * 2 ^ f.fractionBits + r) = e - 1 := by
    unfold scale
    rw [Nat.shiftRight_eq_div_pow, Nat.mul_comm, Nat.mul_add_div (Nat.two_pow_pos _),
      Nat.div_eq_of_lt hr, Nat.add_zero]
  refine ⟨hscale, ?_⟩
  unfold significand
  rw [hscale, Nat.shiftLeft_eq]
  cases e with
  | zero => simp
  | succ e =>
    rw [Nat.add_sub_cancel, Nat.add_mul]
    simp
    omega

/-- The intervals of neighbours share an end point. -/
theorem upperEnd_eq (f : Format) (m : Nat) : f.upperEnd m = f.lowerEnd (m + 1) := by
  have hstep := Nat.two_pow_pos f.fractionBits
  obtain ⟨e, r, hr, rfl⟩ : ∃ e r, r < 2 ^ f.fractionBits ∧ m = e * 2 ^ f.fractionBits + r :=
    ⟨m / 2 ^ f.fractionBits, m % 2 ^ f.fractionBits, Nat.mod_lt _ hstep,
      (Nat.div_add_mod' _ _).symm⟩
  obtain ⟨hscale, hsignificand⟩ := scale_significand f (e := e) hr
  by_cases hnext : r + 1 < 2 ^ f.fractionBits
  · -- Within one binade the significand goes up by one.
    obtain ⟨hscale', hsignificand'⟩ := scale_significand f (e := e) hnext
    have hone : e * 2 ^ f.fractionBits + r + 1 = e * 2 ^ f.fractionBits + (r + 1) := by omega
    simp only [upperEnd, lowerEnd, hone, hscale, hsignificand, hscale', hsignificand',
      Nat.shiftLeft_eq]
    congr 1
    split <;> split <;> omega
  · -- The next binade begins, with a significand that is a power of two.
    have hlast : r + 1 = 2 ^ f.fractionBits := by omega
    obtain ⟨hscale', hsignificand'⟩ := scale_significand f (e := e + 1) hstep
    have hone : e * 2 ^ f.fractionBits + r + 1 = (e + 1) * 2 ^ f.fractionBits + 0 := by
      rw [Nat.add_mul]
      omega
    simp only [upperEnd, lowerEnd, hone, hscale, hsignificand, hscale', hsignificand',
      Nat.shiftLeft_eq]
    cases e with
    | zero =>
      simp
      omega
    | succ e =>
      simp only [Nat.add_eq_zero_iff, Nat.one_ne_zero, and_false, if_false, Nat.add_sub_cancel,
        Nat.add_zero, Nat.one_mul, Nat.zero_lt_succ, and_self, if_true]
      rw [Nat.pow_succ, Nat.mul_comm (2 ^ e) 2, ← Nat.mul_assoc]
      congr 1
      omega

theorem upperEnd_le (h : m < n) : f.upperEnd m ≤ f.lowerEnd n := by
  induction n with
  | zero => exact absurd h (Nat.not_lt_zero m)
  | succ n ih =>
    rcases Nat.lt_succ_iff_lt_or_eq.1 h with hlt | rfl
    · calc f.upperEnd m ≤ f.lowerEnd n := ih hlt
        _ ≤ f.upperEnd n := (lowerEnd_lt_upperEnd f n).le
        _ = f.lowerEnd (n + 1) := upperEnd_eq f n
    · exact (upperEnd_eq f m).le

/-- Neighbours have significands of different parity. -/
theorem significand_parity (hf : 0 < f.fractionBits) (m : Nat) :
    f.significand m % 2 = m % 2 := by
  obtain ⟨k, hk⟩ : ∃ k, f.fractionBits = k + 1 := ⟨f.fractionBits - 1, by omega⟩
  have hle : f.scale m * 2 ^ f.fractionBits ≤ m := by
    have hdiv := Nat.div_mul_le_self m (2 ^ f.fractionBits)
    unfold scale
    rw [Nat.shiftRight_eq_div_pow, Nat.sub_mul]
    omega
  unfold significand
  rw [Nat.shiftLeft_eq]
  have heven : f.scale m * 2 ^ f.fractionBits = 2 * (f.scale m * 2 ^ k) := by
    rw [hk, Nat.pow_succ]
    ring
  omega

/-- A rational rounds to a magnitude: it lies between the ends of the magnitude's interval, and
at an end only if the magnitude is even. -/
structure Nearest (f : Format) (m : Nat) (q : ℚ) : Prop where
  lower_le : (f.lowerEnd m : ℚ) ≤ q * (4 <<< f.unitBits : Nat)
  le_upper : q * (4 <<< f.unitBits : Nat) ≤ f.upperEnd m
  even_of_end : q * (4 <<< f.unitBits : Nat) = f.lowerEnd m ∨
    q * (4 <<< f.unitBits : Nat) = f.upperEnd m → m % 2 = 0

theorem Nearest.not_lt (h : f.Nearest m q) (h' : f.Nearest n q) : ¬m < n := by
  intro hlt
  have hends : (f.upperEnd m : ℚ) ≤ f.lowerEnd n := by exact_mod_cast upperEnd_le hlt
  have heven : m % 2 = 0 := h.even_of_end (.inr (le_antisymm h.le_upper (hends.trans h'.lower_le)))
  have heven' : n % 2 = 0 :=
    h'.even_of_end (.inl (le_antisymm (h.le_upper.trans hends) h'.lower_le))
  -- Both are even, so there is a magnitude between them, and its interval is not empty.
  have hbetween : f.upperEnd (m + 1) ≤ f.lowerEnd n := upperEnd_le (by omega)
  have hwide := lowerEnd_lt_upperEnd f (m + 1)
  rw [← upperEnd_eq] at hwide
  have hequal : f.lowerEnd n ≤ f.upperEnd m := by exact_mod_cast h'.lower_le.trans h.le_upper
  omega

/-- No rational rounds to two magnitudes. -/
theorem Nearest.unique (h : f.Nearest m q) (h' : f.Nearest n q) : m = n :=
  Nat.le_antisymm (Nat.le_of_not_lt (h'.not_lt h)) (Nat.le_of_not_lt (h.not_lt h'))

/-- How often the last place of a rounded rational doubles the least subnormal. -/
def place (f : Format) (num den : Nat) : Nat :=
  bitLength ((num <<< f.unitBits) / den) - (f.fractionBits + 1)

/-- A rational in units of its last place, rounded to a whole number. -/
def places (f : Format) (num den : Nat) : Nat :=
  divNearestEven (num <<< f.unitBits) (den <<< f.place num den)

theorem round_eq (f : Format) (num den : Nat) :
    f.round num den =
      min f.infinity (f.place num den * 2 ^ f.fractionBits + f.places num den) := by
  rw [← Nat.shiftLeft_eq]
  rfl

theorem lt_of_place (hden : 0 < den) :
    num <<< f.unitBits < den <<< f.place num den * 2 ^ (f.fractionBits + 1) := by
  have hbits : num <<< f.unitBits / den < 2 ^ (f.place num den + (f.fractionBits + 1)) :=
    Nat.lt_of_lt_of_le (lt_two_pow_bitLength _)
      (Nat.pow_le_pow_right (by decide) (by unfold place; omega))
  rw [Nat.div_lt_iff_lt_mul hden] at hbits
  calc num <<< f.unitBits < 2 ^ (f.place num den + (f.fractionBits + 1)) * den := hbits
    _ = _ := by rw [Nat.shiftLeft_eq]; ring

theorem le_of_place (hden : 0 < den) (h : 0 < f.place num den) :
    den <<< f.place num den * 2 ^ f.fractionBits ≤ num <<< f.unitBits := by
  have hpos : 0 < num <<< f.unitBits / den := by
    by_contra hzero
    have hlength : bitLength (num <<< f.unitBits / den) = 0 := by
      simp [bitLength, Nat.eq_zero_of_not_pos hzero]
    unfold place at h
    omega
  have hbits := two_pow_le_of_bitLength hpos
  rw [show bitLength (num <<< f.unitBits / den) - 1 = f.place num den + f.fractionBits by
    unfold place at h ⊢; omega, Nat.le_div_iff_mul_le hden] at hbits
  calc den <<< f.place num den * 2 ^ f.fractionBits
      = 2 ^ (f.place num den + f.fractionBits) * den := by rw [Nat.shiftLeft_eq]; ring
    _ ≤ _ := hbits

theorem places_le (hden : 0 < den) : f.places num den ≤ 2 ^ (f.fractionBits + 1) := by
  have hpos : 0 < den <<< f.place num den := by
    rw [Nat.shiftLeft_eq]
    exact Nat.mul_pos hden (Nat.two_pow_pos _)
  refine Nat.le_trans (divNearestEven_le _ _) ?_
  rw [Nat.succ_le_iff, Nat.div_lt_iff_lt_mul hpos, Nat.mul_comm]
  exact lt_of_place hden

theorem le_places (hden : 0 < den) (h : 0 < f.place num den) :
    2 ^ f.fractionBits ≤ f.places num den := by
  have hpos : 0 < den <<< f.place num den := by
    rw [Nat.shiftLeft_eq]
    exact Nat.mul_pos hden (Nat.two_pow_pos _)
  have hle := le_of_place hden h
  obtain ⟨hupper, -⟩ := divNearestEven_spec (n := num <<< f.unitBits) hpos
  change 2 * _ ≤ (2 * f.places num den + 1) * _ at hupper
  by_contra hlt
  have hsmall : 2 * f.places num den + 1 < 2 * 2 ^ f.fractionBits := by omega
  have hcontra := Nat.mul_lt_mul_of_pos_right hsmall hpos
  linarith

/-- The fields of a rounded magnitude without a carry into the next binade. -/
theorem fields_of_lt (hr : r < 2 ^ (f.fractionBits + 1)) (hk : 0 < k → 2 ^ f.fractionBits ≤ r) :
    f.scale (k * 2 ^ f.fractionBits + r) = k ∧ f.significand (k * 2 ^ f.fractionBits + r) = r := by
  by_cases hsmall : r < 2 ^ f.fractionBits
  · obtain rfl : k = 0 := by
      by_contra hk'
      exact absurd (hk (Nat.pos_of_ne_zero hk')) (Nat.not_le.mpr hsmall)
    simpa using scale_significand f (e := 0) hsmall
  · obtain ⟨s, rfl⟩ := Nat.exists_eq_add_of_le (Nat.le_of_not_lt hsmall)
    have hs : s < 2 ^ f.fractionBits := by
      rw [Nat.pow_succ] at hr
      omega
    have hfields := scale_significand f (e := k + 1) hs
    rw [Nat.add_mul, Nat.one_mul, Nat.add_assoc] at hfields
    simpa using hfields

theorem fields_of_eq (k : Nat) :
    f.scale (k * 2 ^ f.fractionBits + 2 ^ (f.fractionBits + 1)) = k + 1 ∧
      f.significand (k * 2 ^ f.fractionBits + 2 ^ (f.fractionBits + 1)) = 2 ^ f.fractionBits := by
  have hfields := scale_significand f (e := k + 2) (Nat.two_pow_pos f.fractionBits)
  have hsum : (k + 2) * 2 ^ f.fractionBits + 0 =
      k * 2 ^ f.fractionBits + 2 ^ (f.fractionBits + 1) := by
    rw [Nat.pow_succ]
    ring
  rw [hsum] at hfields
  simpa using hfields

/-- The ends of an interval and a rational, compared without quotients. -/
theorem nearest_of_nat (hden : 0 < den) (hlower : f.lowerEnd m * den ≤ num * 4 <<< f.unitBits)
    (hupper : num * 4 <<< f.unitBits ≤ f.upperEnd m * den)
    (heven : num * 4 <<< f.unitBits = f.lowerEnd m * den ∨
      num * 4 <<< f.unitBits = f.upperEnd m * den → m % 2 = 0) :
    f.Nearest m (num / den) := by
  have hpos : (0 : ℚ) < den := by exact_mod_cast hden
  have hscale : (num / den : ℚ) * (4 <<< f.unitBits : Nat) =
      (num * 4 <<< f.unitBits : Nat) / den := by
    push_cast
    ring
  refine ⟨?_, ?_, ?_⟩
  · rw [hscale, le_div_iff₀ hpos]
    exact_mod_cast hlower
  · rw [hscale, div_le_iff₀ hpos]
    exact_mod_cast hupper
  · rw [hscale, div_eq_iff hpos.ne', div_eq_iff hpos.ne']
    exact_mod_cast heven

/-- A rational in units of `2 ^ k` has a whole number nearest to it, the even one of two. -/
structure RoundsTo (f : Format) (num den k r : Nat) : Prop where
  upper : 2 * num <<< f.unitBits ≤ 2 * (r * den <<< k) + den <<< k
  lower : 2 * (r * den <<< k) ≤ 2 * num <<< f.unitBits + den <<< k
  tie : 2 * num <<< f.unitBits = 2 * (r * den <<< k) + den <<< k ∨
    2 * (r * den <<< k) = 2 * num <<< f.unitBits + den <<< k → r % 2 = 0

theorem roundsTo_places (hden : 0 < den) :
    f.RoundsTo num den (f.place num den) (f.places num den) := by
  have hunit : 0 < den <<< f.place num den := by
    rw [Nat.shiftLeft_eq]
    exact Nat.mul_pos hden (Nat.two_pow_pos _)
  have htwice (r unit : Nat) : 2 * r * unit = 2 * (r * unit) := Nat.mul_assoc 2 r unit
  have hhalf (r unit : Nat) : (2 * r + 1) * unit = 2 * (r * unit) + unit := by ring
  have hspec := divNearestEven_spec (n := num <<< f.unitBits) hunit
  simp only [htwice, hhalf] at hspec
  exact ⟨hspec.1, hspec.2.1, hspec.2.2⟩

theorem quarters_eq (f : Format) (num : Nat) : num * 4 <<< f.unitBits = 4 * num <<< f.unitBits := by
  simp only [Nat.shiftLeft_eq]
  ring

theorem shiftLeft_mul (a k den : Nat) : a <<< k * den = a * den <<< k := by
  simp only [Nat.shiftLeft_eq]
  ring

/-- Rounding within one binade. -/
theorem RoundsTo.nearest (h : f.RoundsTo num den k r) (hf : 0 < f.fractionBits) (hden : 0 < den)
    (hr : r < 2 ^ (f.fractionBits + 1)) (hk : 0 < k → 2 ^ f.fractionBits ≤ r)
    (hleast : 0 < k → den <<< k * 2 ^ f.fractionBits ≤ num <<< f.unitBits) :
    f.Nearest (k * 2 ^ f.fractionBits + r) (num / den) := by
  obtain ⟨hscale, hsignificand⟩ := fields_of_lt hr hk
  have hparity := significand_parity hf (k * 2 ^ f.fractionBits + r)
  rw [hsignificand] at hparity
  obtain ⟨hupper, hlower, htie⟩ := h
  have hproduct : r = 0 ∨ den <<< k ≤ r * den <<< k := by
    rcases Nat.eq_zero_or_pos r with hzero | hpos
    · exact .inl hzero
    · exact .inr (Nat.le_mul_of_pos_left _ hpos)
  have hend : (4 * r + 2) * den <<< k = 4 * (r * den <<< k) + 2 * den <<< k := by ring
  have hend' : (4 * r - if r = 1 <<< f.fractionBits ∧ 0 < k then 1 else 2) * den <<< k ≤
        4 * num <<< f.unitBits ∧
      (4 * num <<< f.unitBits =
        (4 * r - if r = 1 <<< f.fractionBits ∧ 0 < k then 1 else 2) * den <<< k → r % 2 = 0) := by
    split
    next hnarrow =>
      have hle := hleast hnarrow.2
      rw [← Nat.one_shiftLeft, ← hnarrow.1, Nat.mul_comm] at hle
      rw [Nat.sub_mul, Nat.mul_assoc]
      omega
    next =>
      rw [Nat.sub_mul, Nat.mul_assoc]
      omega
  refine nearest_of_nat hden ?_ ?_ ?_
  all_goals
    simp only [lowerEnd, upperEnd, hscale, hsignificand, quarters_eq, shiftLeft_mul]
    omega

/-- A carry into the next binade: the significand is a power of two. -/
theorem RoundsTo.nearest_carry (h : f.RoundsTo num den k (2 ^ (f.fractionBits + 1)))
    (hf : 0 < f.fractionBits) (hden : 0 < den) :
    f.Nearest (k * 2 ^ f.fractionBits + 2 ^ (f.fractionBits + 1)) (num / den) := by
  obtain ⟨hscale, hsignificand⟩ := fields_of_eq (f := f) k
  have hparity := significand_parity hf (k * 2 ^ f.fractionBits + 2 ^ (f.fractionBits + 1))
  have heven : 2 ^ f.fractionBits % 2 = 0 := by
    obtain ⟨j, hj⟩ : ∃ j, f.fractionBits = j + 1 := ⟨f.fractionBits - 1, by omega⟩
    rw [hj, Nat.pow_succ, Nat.mul_mod_left]
  rw [hsignificand, heven] at hparity
  obtain ⟨hupper, hlower, -⟩ := h
  have hshift (a : Nat) : a <<< (k + 1) * den = 2 * (a * den <<< k) := by
    simp only [Nat.shiftLeft_eq, Nat.pow_succ]
    ring
  have hdouble : 2 ^ (f.fractionBits + 1) * den <<< k = 2 * (2 ^ f.fractionBits * den <<< k) := by
    ring
  have hend : (4 * 2 ^ f.fractionBits + 2) * den <<< k =
      4 * (2 ^ f.fractionBits * den <<< k) + 2 * den <<< k := by ring
  refine nearest_of_nat hden ?_ ?_ fun _ => hparity.symm
  · simp only [lowerEnd, hscale, hsignificand, quarters_eq, hshift, Nat.one_shiftLeft,
      Nat.zero_lt_succ, and_self, if_true]
    rw [Nat.sub_mul, Nat.one_mul, Nat.mul_assoc]
    omega
  · simp only [upperEnd, hscale, hsignificand, quarters_eq, hshift]
    omega

/-- The magnitude before the limit at infinity is the one that the rational rounds to. -/
theorem nearest_place (hf : 0 < f.fractionBits) (hden : 0 < den) :
    f.Nearest (f.place num den * 2 ^ f.fractionBits + f.places num den) (num / den) := by
  have hrounds : f.RoundsTo num den (f.place num den) (f.places num den) := roundsTo_places hden
  have hle : f.places num den ≤ 2 ^ (f.fractionBits + 1) := places_le hden
  rcases Nat.lt_or_eq_of_le hle with hlt | hcarry
  · exact hrounds.nearest hf hden hlt (le_places hden) (le_of_place hden)
  · rw [hcarry] at hrounds ⊢
    exact hrounds.nearest_carry hf hden

/-- A rational in the interval of a finite magnitude is rounded to it. -/
theorem Nearest.round_eq (h : f.Nearest m (num / den)) (hf : 0 < f.fractionBits) (hden : 0 < den)
    (hm : m < f.infinity) : f.round num den = m := by
  rw [Format.round_eq, (nearest_place hf hden).unique h]
  exact Nat.min_eq_right hm.le

/-- Rounding to a finite magnitude gives one whose interval holds the rational. -/
theorem nearest_round (hf : 0 < f.fractionBits) (hden : 0 < den)
    (h : f.round num den < f.infinity) : f.Nearest (f.round num den) (num / den) := by
  rw [Format.round_eq] at h ⊢
  rw [Nat.min_eq_right (by omega)]
  exact nearest_place hf hden

end Format

end ShaderAlgebra.Binary
