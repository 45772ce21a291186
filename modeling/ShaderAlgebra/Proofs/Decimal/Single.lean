import ShaderAlgebra.Proofs.Decimal.Margin

/-!
# Shortest decimals of 32-bit floats

In half steps the interval of a 32-bit float ends at odd numbers below `2 ^ 25`.
So the shortest decimal of the float is one of these ends or keeps away from
them, but for two exceptions. It has few digits and a moderate exponent, and if
it is an end of the interval it has even fewer.
-/

namespace ShaderAlgebra.Decimal

open Binary.Format
open Halfway (half half_pos)

variable {x : Single} {tie : Tie} {d m k : Nat} {g : Int} {e : ℚ}

theorem proper_interval (h : x.isZero = false) : (interval x).Proper :=
  ⟨lower_lt_value h, value_lt_upper x, by simp [interval, Nat.shiftLeft_eq]⟩

theorem scale_lt (h : x.isFinite) : single.scale x.magnitude < 254 := by
  have hmagnitude : x.magnitude < 255 * 2 ^ 23 := of_decide_eq_true h
  have hexponent : x.magnitude / 2 ^ 23 < 255 := (Nat.div_lt_iff_lt_mul (by decide)).2 hmagnitude
  change x.magnitude >>> 23 - 1 < 254
  rw [Nat.shiftRight_eq_div_pow]
  omega

theorem denominator_interval (x : Single) : ((interval x).denominator : ℚ) = 2 * 2 ^ 150 := by
  norm_num [interval, Nat.shiftLeft_eq, unitBits, single]

/-- A float and the upper end of its interval in half steps. -/
theorem mid_high_eq (x : Single) :
    (interval x).mid = 2 * single.significand x.magnitude * half (single.scale x.magnitude) ∧
      (interval x).high =
        (2 * single.significand x.magnitude + 1 : Nat) * half (single.scale x.magnitude) := by
  rw [Interval.mid, Interval.high, denominator_interval, half, interval]
  simp only [Nat.shiftLeft_eq]
  generalize single.significand x.magnitude = s
  generalize single.scale x.magnitude = k
  constructor
  · push_cast
    field_simp
    ring
  · push_cast
    field_simp
    ring

/-- The lower end is half a step away, in steps that are shorter below a power of two. -/
theorem low_eq (h : x.isZero = false) :
    (∃ k, single.scale x.magnitude = k + 1 ∧ single.significand x.magnitude = 2 ^ 23 ∧
        (interval x).low = (2 ^ 25 - 1 : Nat) * half k) ∨
      (interval x).low =
        (2 * single.significand x.magnitude - 1 : Nat) * half (single.scale x.magnitude) := by
  have hpos : 0 < single.significand x.magnitude := by
    refine significand_pos (Nat.pos_of_ne_zero ?_)
    simpa [Word.isZero] using h
  rw [Interval.low, denominator_interval, interval]
  simp only [Nat.shiftLeft_eq]
  split
  next hnarrow =>
    obtain ⟨k, hk⟩ := Nat.exists_eq_succ_of_ne_zero hnarrow.2.ne'
    refine .inl ⟨k, hk, hnarrow.1, ?_⟩
    have hwhole : (4 * (1 * 2 ^ single.fractionBits) - 1) * 2 ^ (k + 1) =
        (2 ^ 25 - 1) * 2 ^ k * 2 := by
      rw [Nat.pow_succ, ← Nat.mul_assoc]
      rfl
    rw [hnarrow.1, hk, half, hwhole, Nat.cast_mul, Nat.cast_mul, Nat.cast_pow, Nat.cast_ofNat]
    field_simp
  next =>
    obtain ⟨s, hs⟩ := Nat.exists_eq_succ_of_ne_zero hpos.ne'
    refine .inr ?_
    rw [hs, half, show 4 * (s + 1) - 2 = (2 * (s + 1) - 1) * 2 by omega, Nat.cast_mul, Nat.cast_mul,
      Nat.cast_pow, Nat.cast_ofNat]
    field_simp

/-- The ends of the interval are halfway points, half a step or a quarter of a step away. -/
theorem halfwayEnds (hfinite : x.isFinite) (h : x.isZero = false) :
    (∃ k m, HalfwayEnd (interval x).low ((interval x).mid - (interval x).low)
        ((interval x).high - (interval x).mid) k m) ∧
      ∃ k m, HalfwayEnd (interval x).high ((interval x).high - (interval x).mid)
        ((interval x).mid - (interval x).low) k m := by
  have hscale := scale_lt hfinite
  have hsignificand : single.significand x.magnitude < 2 ^ 24 := significand_lt
  have hpos : 0 < single.significand x.magnitude := by
    refine significand_pos (Nat.pos_of_ne_zero ?_)
    simpa [Word.isZero] using h
  obtain ⟨hmid, hhigh⟩ := mid_high_eq x
  have hhighEnd : (interval x).high - (interval x).mid = half (single.scale x.magnitude) := by
    rw [hmid, hhigh]
    push_cast
    ring
  suffices hlowEnd : ∃ k m, HalfwayEnd (interval x).low ((interval x).mid - (interval x).low)
      ((interval x).high - (interval x).mid) k m ∧
        half (single.scale x.magnitude) / 2 ≤ (interval x).mid - (interval x).low by
    obtain ⟨k, m, hend, hother⟩ := hlowEnd
    exact ⟨⟨k, m, hend⟩, _, _, hscale, by omega, by omega, hhigh, hhighEnd, hother⟩
  rw [hhighEnd]
  rcases low_eq h with ⟨k, hk, hpower, hlow⟩ | hlow
  · have hdouble : half (single.scale x.magnitude) = 2 * half k := by
      rw [hk, half, half, pow_succ]
      ring
    have hlowEnd : (interval x).mid - (interval x).low = half k := by
      rw [hmid, hlow, hpower, hdouble]
      push_cast
      ring
    have hpositive := half_pos k
    rw [hdouble, hlowEnd]
    refine ⟨k, 2 ^ 25 - 1, ⟨by omega, by decide, by decide, hlow, rfl, ?_⟩, ?_⟩ <;> linarith
  · have hlowEnd : (interval x).mid - (interval x).low = half (single.scale x.magnitude) := by
      rw [hmid, hlow, Nat.cast_sub (by omega)]
      push_cast
      ring
    have hpositive := half_pos (single.scale x.magnitude)
    rw [hlowEnd]
    refine ⟨_, _, ⟨hscale, by omega, by omega, hlow, rfl, ?_⟩, ?_⟩ <;> linarith

theorem HalfwayEnd.width {own other : ℚ} (h : HalfwayEnd e own other k m) :
    3 / 2 * half k ≤ own + other := by
  have hown := h.own_eq
  have hother := h.le_other
  linarith

/-- The coarsest grid is too coarse for the float itself. -/
theorem pick_coarsest_le {v : Interval} {whole : Nat}
    (hwhole : v.value / v.denominator < 10 ^ whole)
    (h : (v.inUnitsOf whole).pick tie = some d) : d ≤ 1 := by
  have hzero : (v.inUnitsOf whole).value / (v.inUnitsOf whole).denominator = 0 := by
    rw [Interval.inUnitsOf, if_pos (Int.natCast_nonneg whole)]
    change v.value / (v.denominator * 10 ^ whole) = 0
    rw [← Nat.div_div_eq_div_mul, Nat.div_eq_of_lt hwhole]
  have hle := (Interval.pick_spec h).2
  rwa [hzero] at hle

/-- What is known of a shortest decimal: it is picked on some grid, which is not much finer
than the interval is wide unless it is the coarsest. -/
theorem exists_picked_shortest (tie : Tie) (hfinite : x.isFinite) (h : x.isZero = false) :
    ∃ d g, shortest tie x = ⟨d, g⟩ ∧ (interval x).Picked d g ∧
      (d ≤ 1 ∧ 0 ≤ g ∨ (interval x).high - (interval x).low ≤ 10 ^ (g + 1)) := by
  let v := interval x
  let whole := (Nat.toDigits 10 (v.value / v.denominator)).length
  have hproper := proper_interval h
  obtain ⟨-, k, m, hend⟩ := halfwayEnds hfinite h
  have hfine : (10 : ℚ) ^ (1 - (151 : Nat) : Int) < v.high - v.low := by
    have hwidth := hend.width
    have hhalf : (1 / 2 ^ 150 : ℚ) ≤ half k :=
      div_le_div_of_nonneg_right (one_le_pow₀ (by norm_num)) (by positivity)
    calc (10 : ℚ) ^ (1 - (151 : Nat) : Int) < 1 / 2 ^ 150 := by norm_num
      _ ≤ v.high - v.low := by linarith
  obtain ⟨d, g, hcoarsest, hpick, hgrid⟩ := Interval.exists_picked tie hproper hfine
    (n := whole + 151) (by omega)
  refine ⟨d, g, ?_, Interval.picked_of_pick hproper hpick, ?_⟩
  · have hplaces : single.unitBits + 2 = 151 := rfl
    rw [shortest, h, hplaces, if_neg (by decide)]
    exact hcoarsest
  · rcases hgrid with hgrid | hwidth
    · obtain rfl : g = whole := by omega
      have hwhole : v.value / v.denominator < 10 ^ whole :=
        (Nat.length_toDigits_le_iff (by decide) Nat.length_toDigits_pos).1 (Nat.le_refl _)
      exact .inl ⟨pick_coarsest_le hwhole hpick, Int.natCast_nonneg whole⟩
    · exact .inr hwidth

/-- A shortest decimal is at an end of its interval, or not very near to it, or one of the two
exceptions. -/
theorem shortest_apart (tie : Tie) (hfinite : x.isFinite) (h : x.isZero = false)
    (he : e = (interval x).low ∨ e = (interval x).high) :
    (shortest tie x).value = e ∨ e < |(shortest tie x).value - e| * 2 ^ 51 ∨
      (shortest tie x).significand ∈ Halfway.nearest ∧ (shortest tie x).exponent = -32 := by
  obtain ⟨⟨k, m, hlow⟩, k', m', hhigh⟩ := halfwayEnds hfinite h
  obtain ⟨d, g, hshortest, hpicked, -⟩ := exists_picked_shortest tie hfinite h
  rw [hshortest]
  rcases he with rfl | rfl
  · refine hlow.apart (t := (interval x).mid - d * 10 ^ g) ?_ ?_
    · rcases hpicked.near with ⟨-, hnear | hhigh⟩ | ⟨hbelow, -⟩
      · exact .inr (.inl hnear)
      · exact .inr (.inr (by linarith))
      · exact .inl (by linarith)
    · congr 1
      ring
  · refine hhigh.apart (t := d * 10 ^ g - (interval x).mid) ?_ ?_
    · rcases hpicked.near with ⟨habove, -⟩ | ⟨-, hnear | hlow⟩
      · exact .inl (by linarith)
      · exact .inr (.inl hnear)
      · exact .inr (.inr (by linarith))
    · rw [← abs_neg]
      congr 1
      ring

/-! ### Digits and exponents -/

theorem Interval.Holds.bounds {v : Interval} {q : ℚ} (h : v.Holds q) (hv : v.Proper) :
    v.low ≤ q ∧ q ≤ v.high := by
  have hpos : (0 : ℚ) < v.denominator := by exact_mod_cast hv.denominator_pos
  obtain ⟨hlower, hupper, -⟩ := h.ends
  exact ⟨(div_le_iff₀ hpos).2 hlower, (le_div_iff₀ hpos).2 hupper⟩

/-- The shortest decimal of a 32-bit float has at most nine digits. -/
theorem shortest_bounds (tie : Tie) (hfinite : x.isFinite) (h : x.isZero = false) :
    (shortest tie x).significand < 2 ^ 28 ∧ -50 ≤ (shortest tie x).exponent ∧
      (shortest tie x).exponent ≤ 39 := by
  have hleading : (shortest tie x).leadingExponent ≤ 39 := leadingExponent_shortest_le hfinite h
  have hholds : (interval x).Holds (shortest tie x).value := holds_shortest h
  obtain ⟨-, hhigh⟩ := hholds.bounds (proper_interval h)
  obtain ⟨-, k, m, hend⟩ := halfwayEnds hfinite h
  obtain ⟨d, g, hshortest, -, hgrid⟩ := exists_picked_shortest tie hfinite h
  rw [hshortest] at hleading hhigh ⊢
  change d < 2 ^ 28 ∧ -50 ≤ g ∧ g ≤ 39
  have hupper : g ≤ 39 := by
    have hlength : 0 < (Nat.toDigits 10 d).length := Nat.length_toDigits_pos
    change g + (Nat.toDigits 10 d).length - 1 ≤ 39 at hleading
    omega
  rcases hgrid with ⟨hd, hg⟩ | hwidth
  · omega
  · have hhalf : (1 / 2 ^ 150 : ℚ) ≤ half k :=
      div_le_div_of_nonneg_right (one_le_pow₀ (by norm_num)) (by positivity)
    have hsteps : 3 / 2 * half k ≤ 10 ^ (g + 1) := by linarith [hend.width]
    refine ⟨?_, ?_, hupper⟩
    · have hpow : (0 : ℚ) < 10 ^ g := by positivity
      have hm : (m : ℚ) * half k ≤ 2 ^ 25 * half k :=
        mul_le_mul_of_nonneg_right (by exact_mod_cast hend.lt.le) (half_pos k).le
      rw [zpow_add_one₀ (by norm_num)] at hsteps
      have hscaled : (d : ℚ) * 10 ^ g < 2 ^ 28 * 10 ^ g := by
        have hvalue : (d : ℚ) * 10 ^ g ≤ m * half k := hhigh.trans_eq hend.eq
        linarith
      exact_mod_cast lt_of_mul_lt_mul_right hscaled hpow.le
    · by_contra hlow
      have hless : (10 : ℚ) ^ (g + 1) < 10 ^ (g + 1) :=
        calc (10 : ℚ) ^ (g + 1) ≤ 10 ^ (-49 : Int) := zpow_le_zpow_right₀ (by norm_num) (by omega)
          _ < 1 / 2 ^ 150 := by norm_num
          _ ≤ half k := hhalf
          _ ≤ 10 ^ (g + 1) := by linarith [half_pos k]
      exact lt_irrefl _ hless

/-- Powers of five in both sides of an equality of a decimal and a halfway point. -/
theorem exponent_of_halfway (hd : d < 2 ^ 28) (hm : m < 2 ^ 25) (hodd : m % 2 = 1)
    (h : (d * 10 ^ g : ℚ) = m * half k) : -22 ≤ g ∧ g ≤ 22 := by
  have hcoprime (n j : Nat) : Nat.Coprime (5 ^ n) (2 ^ j) := Nat.Coprime.pow n j (by decide)
  rw [half, ← mul_div_assoc, eq_div_iff (by positivity)] at h
  rcases Int.le_total 0 g with hg | hg
  · obtain ⟨n, rfl⟩ := Int.eq_ofNat_of_zero_le hg
    have hwhole : d * 10 ^ n * 2 ^ 150 = m * 2 ^ k := by exact_mod_cast h
    have hdvd : 5 ^ n ∣ m := by
      refine (hcoprime n k).dvd_of_dvd_mul_right (hwhole ▸ ?_)
      exact ((pow_dvd_pow_of_dvd (by decide) n).mul_left d).mul_right _
    have hpow : 5 ^ n < 5 ^ 22 :=
      (Nat.le_of_dvd (by omega) hdvd).trans_lt (hm.trans (by norm_num))
    have hn := (Nat.pow_lt_pow_iff_right (by decide)).1 hpow
    omega
  · obtain ⟨n, rfl⟩ : ∃ n : Nat, g = -n := ⟨(-g).toNat, by omega⟩
    have hwhole : d * 2 ^ 150 = m * 2 ^ k * 10 ^ n := by
      rw [zpow_neg, zpow_natCast, ← div_eq_mul_inv, div_mul_eq_mul_div,
        div_eq_iff (by positivity)] at h
      exact_mod_cast h
    have hpos : 0 < d := by
      refine Nat.pos_of_ne_zero ?_
      rintro rfl
      have hright : 0 < m * 2 ^ k * 10 ^ n :=
        Nat.mul_pos (Nat.mul_pos (by omega) (Nat.two_pow_pos k)) (Nat.pow_pos (by decide))
      omega
    have hdvd : 5 ^ n ∣ d := by
      refine (hcoprime n 150).dvd_of_dvd_mul_right (hwhole ▸ ?_)
      exact (pow_dvd_pow_of_dvd (by decide) n).mul_left _
    have hpow : 5 ^ n < 5 ^ 22 := (Nat.le_of_dvd hpos hdvd).trans_lt (hd.trans (by norm_num))
    have hn := (Nat.pow_lt_pow_iff_right (by decide)).1 hpow
    omega

/-- A shortest decimal at an end of its interval has few digits in either notation. -/
theorem shortest_of_eq_end (tie : Tie) (hfinite : x.isFinite) (h : x.isZero = false)
    (he : e = (interval x).low ∨ e = (interval x).high) (hend : (shortest tie x).value = e) :
    -22 ≤ (shortest tie x).exponent ∧ (shortest tie x).exponent ≤ 22 ∧
      ∃ c j : Nat, c < 2 ^ 53 ∧ (shortest tie x).value * 2 ^ 1074 = c * 2 ^ j := by
  obtain ⟨k, m, hm, hodd, hvalue⟩ : ∃ k m : Nat, m < 2 ^ 25 ∧ m % 2 = 1 ∧
      (shortest tie x).value = m * half k := by
    obtain ⟨⟨k, m, hlow⟩, k', m', hhigh⟩ := halfwayEnds hfinite h
    rcases he with rfl | rfl
    · exact ⟨k, m, hlow.lt, hlow.odd, hend.trans hlow.eq⟩
    · exact ⟨k', m', hhigh.lt, hhigh.odd, hend.trans hhigh.eq⟩
  obtain ⟨hlow, hhigh⟩ := exponent_of_halfway (shortest_bounds tie hfinite h).1 hm hodd hvalue
  refine ⟨hlow, hhigh, m, k + 924, hm.trans (by norm_num), ?_⟩
  rw [hvalue, half, show 1074 = 150 + 924 from rfl, pow_add, pow_add]
  field_simp

end ShaderAlgebra.Decimal
