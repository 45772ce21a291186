import ShaderAlgebra.Proofs.Decimal.Single
import ShaderAlgebra.Proofs.Json.Accuracy
import ShaderAlgebra.Proofs.Json.Number

/-!
# Written 32-bit floats

A written 32-bit float is read with three roundings to 64 bits, and then rounded to
32 bits. The float that comes out is the one that was written: its shortest decimal
keeps away from the ends of the float's interval by more than the error of the
reading, or it is an end itself and is read without an error. Two decimals are
nearer to an end than that; for them the reading is evaluated.
-/

namespace ShaderAlgebra

namespace Decimal

variable {d : Decimal} {layout : Layout} {tie : Tie} {x : Single} {v : Interval} {p q : ℚ}

theorem value_spelled (layout : Layout) (d : Decimal) : (d.spelled layout).value = d.value := by
  unfold spelled
  split
  · exact d.value_inFull true
  · rfl

theorem spelled_of_neg (h : d.exponent < 0) : d.spelled layout = d := by
  have hself : d.withFraction = d := if_neg (by omega)
  rw [spelled, hself, ite_self]

theorem spelled_cases (layout : Layout) (d : Decimal) :
    d.spelled layout = d ∨ layout.inPlace d.leadingExponent ∧ 0 ≤ d.exponent ∧
      d.spelled layout = ⟨d.significand * 10 ^ (d.exponent.toNat + 1), -1⟩ := by
  unfold spelled withFraction
  split
  next hplace =>
    split
    next hexponent => exact .inr ⟨hplace, hexponent, rfl⟩
    next => exact .inl rfl
  next => exact .inl rfl

theorem significand_lt_pow_length (d : Decimal) : d.significand < 10 ^ d.digits.length :=
  (Nat.length_toDigits_le_iff (by decide) Nat.length_toDigits_pos).1 (Nat.le_refl _)

/-- What is spelled of a shortest decimal fits the significand of a 64-bit float. -/
theorem spelled_bounds (tie : Tie) (hfinite : x.isFinite) (h : x.isZero = false) :
    0 < ((shortest tie x).spelled Json.singleLayout).significand ∧
      ((shortest tie x).spelled Json.singleLayout).significand < 2 ^ 53 ∧
      -50 ≤ ((shortest tie x).spelled Json.singleLayout).exponent ∧
      ((shortest tie x).spelled Json.singleLayout).exponent ≤ 50 := by
  have hpos : 0 < (shortest tie x).significand := (shortest_spec h).1
  obtain ⟨hsignificand, hlow, hhigh⟩ := shortest_bounds tie hfinite h
  rcases spelled_cases Json.singleLayout (shortest tie x) with heq | ⟨hplace, hexponent, heq⟩
  · rw [heq]
    exact ⟨hpos, hsignificand.trans (by norm_num), hlow, hhigh.trans (by decide)⟩
  · rw [heq]
    refine ⟨Nat.mul_pos hpos (Nat.pow_pos (by decide)), ?_, by norm_num, by norm_num⟩
    have hplaces : (shortest tie x).digits.length + ((shortest tie x).exponent.toNat + 1) ≤ 14 := by
      have hleading : (shortest tie x).leadingExponent < 13 := by
        simp [Json.singleLayout] at hplace
        exact hplace.2
      unfold leadingExponent at hleading
      omega
    calc (shortest tie x).significand * 10 ^ ((shortest tie x).exponent.toNat + 1)
        < 10 ^ (shortest tie x).digits.length * 10 ^ ((shortest tie x).exponent.toNat + 1) :=
          Nat.mul_lt_mul_of_pos_right (significand_lt_pow_length _) (Nat.pow_pos (by decide))
      _ ≤ 10 ^ 14 := by
          rw [← Nat.pow_add]
          exact Nat.pow_le_pow_right (by decide) hplaces
      _ < 2 ^ 53 := by norm_num

/-- What is near enough to a point of an interval lies in it too, if the point keeps away from
the ends or is not changed. -/
theorem Interval.Holds.of_near (hv : v.Proper) (h : v.Holds q) (hnear : Near (1 / 2 ^ 51) q p)
    (hlow : q = v.low → p = q) (hhigh : q = v.high → p = q)
    (hlow' : q = v.low ∨ v.low < |q - v.low| * 2 ^ 51)
    (hhigh' : q = v.high ∨ v.high < |q - v.high| * 2 ^ 51) : v.Holds p := by
  have hpos : (0 : ℚ) < v.denominator := by exact_mod_cast hv.denominator_pos
  obtain ⟨hbelow, habove⟩ := h.bounds hv
  by_cases hend : q = v.low ∨ q = v.high
  · obtain rfl : p = q := hend.elim hlow hhigh
    exact h
  · rw [not_or] at hend
    have hnearLow := hlow'.resolve_left hend.1
    have hnearHigh := hhigh'.resolve_left hend.2
    rw [abs_of_nonneg (sub_nonneg.2 hbelow)] at hnearLow
    rw [abs_of_nonpos (sub_nonpos.2 habove)] at hnearHigh
    have hinside : v.low < p ∧ p < v.high := by
      have hlower := hnear.lower
      have hupper := hnear.upper
      constructor <;> linarith
    rw [Interval.low, div_lt_iff₀ hpos, Interval.high, lt_div_iff₀ hpos] at hinside
    unfold Interval.Holds
    split
    · exact ⟨hinside.1.le, hinside.2.le⟩
    · exact hinside

end Decimal

namespace Json

open Decimal (shortest interval)
open Binary.Format (single)

variable {x : Single} {y : Double}

/-- The exceptions are read as the float that is nearest to them. -/
theorem convert_nearest : ∀ s ∈ Decimal.Halfway.nearest,
    ((Word.ofNat .double s / powerOfTen 32).convert .single).magnitude =
      single.round s (10 ^ 32) := by
  decide +kernel

theorem magnitude_of_nearest {d : Decimal} (hd : d.significand ∈ Decimal.Halfway.nearest)
    (hexponent : d.exponent = -32) (hx : x.magnitude < single.infinity)
    (hnearest : single.Nearest x.magnitude d.value)
    (hread : realOfParts? d.significand d.exponent = some y) :
    (y.convert .single).magnitude = x.magnitude := by
  have hvalue : d.value = d.significand / (10 ^ 32 : Nat) := by
    rw [Decimal.value, hexponent, zpow_neg, div_eq_mul_inv]
    norm_num
  have hparts : realOfParts? d.significand d.exponent =
      some (Word.ofNat .double d.significand / powerOfTen 32) := by
    rw [hexponent]
    exact congrArg some (divideByPower_of_le (by decide))
  obtain rfl := Option.some.inj (hparts.symm.trans hread)
  rw [hvalue] at hnearest
  rw [convert_nearest _ hd, hnearest.round_eq (by decide) (by norm_num) hx]

/-- A 64-bit float without a sign that becomes a given 32-bit float up to its sign. -/
structure Narrows (y : Double) (x : Single) : Prop where
  isFinite : y.isFinite
  negative : y.negative = false
  magnitude : (y.convert .single).magnitude = x.magnitude

theorem Narrows.convert (h : Narrows y x) :
    (if x.negative then -y else y).convert .single = x := by
  have hneg : (-y).isFinite := (Word.isFinite_neg y).trans h.isFinite
  cases hsign : x.negative with
  | true =>
    rw [if_pos rfl]
    refine Word.eq_of_magnitude_eq ?_ ?_
    · rw [Word.convert_of_isFinite hneg, Word.negative_ofRatio, Word.negative_neg, h.negative,
        hsign]
      rfl
    · rw [← h.magnitude, Word.convert_of_isFinite hneg, Word.convert_of_isFinite h.isFinite,
        Word.magnitude_ofRatio, Word.magnitude_ofRatio, Word.units, Word.units, Word.magnitude_neg]
  | false =>
    rw [if_neg (by decide)]
    refine Word.eq_of_magnitude_eq ?_ h.magnitude
    rw [Word.convert_of_isFinite h.isFinite, Word.negative_ofRatio, h.negative, hsign]

theorem exists_narrows_of_isZero (h : x.isZero = true) :
    ∃ y, Scan.Reads ((shortest .even x).spelled singleLayout) y ∧ Narrows y x := by
  have hspelled : (shortest .even x).spelled singleLayout = ⟨0, -1⟩ := by
    rw [Decimal.shortest_of_isZero h]
    decide
  have hmagnitude : x.magnitude = 0 := by simpa [Word.isZero] using h
  have hread : realOfParts? 0 (-1) = some (Word.ofNat .double 0 / powerOfTen 1) :=
    congrArg some (divideByPower_of_le (by decide))
  rw [hspelled]
  refine ⟨_, ⟨by decide, hread⟩, by decide +kernel, by decide +kernel, ?_⟩
  rw [hmagnitude]
  decide +kernel

/-- A finite float that is not zero is read back from its shortest decimal. -/
theorem exists_narrows (hfinite : x.isFinite) (h : x.isZero = false) :
    ∃ y, Scan.Reads ((shortest .even x).spelled singleLayout) y ∧ Narrows y x := by
  have hinfinity : x.magnitude < single.infinity := of_decide_eq_true hfinite
  have hholds : (interval x).Holds (shortest .even x).value := Decimal.holds_shortest h
  have hvalue := (shortest .even x).value_spelled singleLayout
  obtain ⟨hpos, hsize, hlow, hhigh⟩ := Decimal.spelled_bounds .even hfinite h
  obtain ⟨y, hread, hstands, hexact⟩ :=
    realOfParts?_stands hpos (hsize.trans (by norm_num)) hlow hhigh
  change Stands _ ((shortest .even x).spelled singleLayout).value y at hstands
  change _ → _ → _ → ∀ c j : Nat, c < 2 ^ 53 →
    ((shortest .even x).spelled singleLayout).value * 2 ^ 1074 = c * 2 ^ j →
      y.size = ((shortest .even x).spelled singleLayout).value at hexact
  rw [hvalue] at hstands hexact
  refine ⟨y, ⟨hsize.trans (by norm_num), hread⟩, hstands.isFinite, hstands.negative, ?_⟩
  by_cases hexception : (shortest .even x).significand ∈ Decimal.Halfway.nearest ∧
      (shortest .even x).exponent = -32
  · obtain ⟨hmem, hexponent⟩ := hexception
    rw [Decimal.spelled_of_neg (by omega)] at hread
    exact magnitude_of_nearest hmem hexponent hinfinity
      (Decimal.nearest_of_holds (by decide) hholds) hread
  · -- An end of the interval has few digits, so it is read without an error.
    have hend {e : ℚ} (he : e = (interval x).low ∨ e = (interval x).high)
        (heq : (shortest .even x).value = e) : y.size = (shortest .even x).value := by
      obtain ⟨hlow', hhigh', c, j, hc, hdigits⟩ := Decimal.shortest_of_eq_end .even hfinite h he heq
      rcases Decimal.spelled_cases singleLayout (shortest .even x) with hsame | ⟨-, -, hsame⟩
      · exact hexact hsize (by rwa [hsame]) (by rwa [hsame]) c j hc hdigits
      · exact hexact hsize (by rw [hsame]; norm_num) (by rw [hsame]; norm_num) c j hc hdigits
    have hapart {e : ℚ} (he : e = (interval x).low ∨ e = (interval x).high) :
        (shortest .even x).value = e ∨ e < |(shortest .even x).value - e| * 2 ^ 51 := by
      rcases Decimal.shortest_apart .even hfinite h he with heq | hfar | hexceptional
      · exact .inl heq
      · exact .inr hfar
      · exact absurd hexceptional hexception
    have hinside : (interval x).Holds y.size :=
      hholds.of_near (Decimal.proper_interval h) hstands.near (hend (.inl rfl)) (hend (.inr rfl))
        (hapart (.inl rfl)) (hapart (.inr rfl))
    exact Word.magnitude_convert (by decide) hstands.isFinite hinfinity
      (Decimal.nearest_of_holds (by decide) hinside)

/-- Every finite 32-bit float is written as a number that is read as the same float. -/
theorem takes_number_single (x : Single) (h : x.isFinite) :
    ∃ y : Double, Scan.Takes Scan.number (Request.bytesOfString (singleText x)) (.ok (.real y)) ∧
      y.convert .single = x := by
  obtain ⟨y, hreads, hnarrows⟩ :
      ∃ y, Scan.Reads ((shortest .even x).spelled singleLayout) y ∧ Narrows y x := by
    cases hzero : x.isZero with
    | true => exact exists_narrows_of_isZero hzero
    | false => exact exists_narrows h hzero
  exact ⟨_, Scan.takes_singleText h hreads, hnarrows.convert⟩

end Json

end ShaderAlgebra
