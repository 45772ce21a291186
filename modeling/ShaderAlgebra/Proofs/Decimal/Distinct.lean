import Mathlib.Algebra.Order.Field.Power
import ShaderAlgebra.Proofs.Binary.Nearest
import ShaderAlgebra.Proofs.Decimal.Layout

/-!
# Different floats have different decimals

The shortest decimal of a float lies in the interval of the reals that round to
it. Intervals of neighbours share one end point, which belongs to the even
neighbour alone, so the intervals of all floats are disjoint and a decimal tells
which float it was made of. The text of a decimal in place tells its value.
-/

namespace ShaderAlgebra

namespace Decimal

def value (d : Decimal) : ℚ := d.significand * 10 ^ d.exponent

namespace Interval

variable {v : Interval} {tie : Tie} {d n places : Nat} {g : Int} {q : ℚ}

/-- Whether a rational lies in an interval. For a given float the parity that decides it is not
to be evaluated. -/
@[irreducible] def Holds (v : Interval) (q : ℚ) : Prop :=
  if v.closed then v.lower ≤ q * v.denominator ∧ q * v.denominator ≤ v.upper
  else v.lower < q * v.denominator ∧ q * v.denominator < v.upper

/-- An end point of an interval that lies in it shows that the interval is closed. -/
theorem Holds.ends (h : v.Holds q) :
    v.lower ≤ q * v.denominator ∧ q * v.denominator ≤ v.upper ∧
      (q * v.denominator = v.lower ∨ q * v.denominator = v.upper → v.closed = true) := by
  unfold Holds at h
  split at h
  next hclosed => exact ⟨h.1, h.2, fun _ => hclosed⟩
  next hopen =>
    refine ⟨h.1.le, h.2.le, ?_⟩
    rintro (hlower | hupper)
    · exact absurd hlower h.1.ne'
    · exact absurd hupper h.2.ne

theorem holds_of_contains (h : v.contains n) : v.Holds n := by
  unfold contains at h
  unfold Holds
  split at h
  next hclosed =>
    rw [if_pos hclosed]
    simpa only [Bool.and_eq_true, decide_eq_true_eq, ← Nat.cast_mul, Nat.cast_le] using h
  next hopen =>
    rw [if_neg hopen]
    simpa only [Bool.and_eq_true, decide_eq_true_eq, ← Nat.cast_mul, Nat.cast_lt] using h

theorem holds_inUnitsOf : (v.inUnitsOf g).Holds q ↔ v.Holds (q * 10 ^ g) := by
  unfold inUnitsOf
  split
  next hg =>
    obtain ⟨k, rfl⟩ := Int.eq_ofNat_of_zero_le hg
    have hscale : q * ((v.denominator * 10 ^ k : Nat) : ℚ) = q * 10 ^ k * v.denominator := by
      push_cast
      ring
    simp only [Holds, Int.toNat_natCast, Nat.pow_eq, zpow_natCast, hscale]
  next hg =>
    obtain ⟨k, rfl⟩ : ∃ k : Nat, g = -k := ⟨(-g).toNat, by omega⟩
    have hpow : (0 : ℚ) < 10 ^ k := by positivity
    have hscale : q * 10 ^ (-(k : Int)) * v.denominator = q * v.denominator / 10 ^ k := by
      rw [zpow_neg, zpow_natCast]
      ring
    simp only [Holds, neg_neg, Int.toNat_natCast, Nat.pow_eq, Nat.cast_mul, Nat.cast_pow,
      Nat.cast_ofNat, hscale, le_div_iff₀ hpow, div_le_iff₀ hpow, lt_div_iff₀ hpow,
      div_lt_iff₀ hpow]

theorem holds_of_pick (h : (v.inUnitsOf g).pick tie = some d) : v.Holds (d * 10 ^ g) :=
  holds_inUnitsOf.1 (holds_of_contains (pick_spec h).1)

/-- The point that is found lies in the interval, if the finest grid holds the value itself. -/
theorem holds_coarsest (hlower : v.lower < v.value) (hupper : v.value < v.upper)
    (hdenominator : 0 < v.denominator) (hexact : v.denominator ∣ v.value * 10 ^ places) (n : Nat) :
    v.Holds (v.coarsest tie places n).value := by
  induction n with
  | zero =>
    obtain ⟨m, hm⟩ := hexact
    have hvalue : (v.coarsest tie places 0).value * v.denominator = v.value := by
      have hpow : (10 : ℚ) ^ places ≠ 0 := by positivity
      have hcast : (v.value : ℚ) * 10 ^ places = v.denominator * m := by exact_mod_cast hm
      rw [coarsest, inUnitsOf_finest, hm, Nat.mul_div_cancel_left m hdenominator, Decimal.value,
        zpow_neg, zpow_natCast]
      field_simp
      linarith
    have hlower : (v.lower : ℚ) < v.value := by exact_mod_cast hlower
    have hupper : (v.value : ℚ) < v.upper := by exact_mod_cast hupper
    unfold Holds
    rw [hvalue]
    split
    · exact ⟨hlower.le, hupper.le⟩
    · exact ⟨hlower, hupper⟩
  | succ n ih =>
    rw [coarsest]
    split
    next d hd => exact holds_of_pick hd
    next => exact ih

end Interval

end Decimal

namespace Decimal

open Binary.Format

variable {f : Binary.Format} {tie tie' : Tie} {w w' : Word f} {q : ℚ}

theorem lower_lt_value (h : w.isZero = false) : (interval w).lower < (interval w).value := by
  have hsignificand : 0 < f.significand w.magnitude := by
    refine significand_pos (Nat.pos_of_ne_zero ?_)
    simpa [Word.isZero] using h
  simp only [interval, Nat.shiftLeft_eq]
  refine Nat.mul_lt_mul_of_pos_right ?_ (Nat.two_pow_pos _)
  split <;> omega

theorem value_lt_upper (w : Word f) : (interval w).value < (interval w).upper := by
  simp only [interval, Nat.shiftLeft_eq]
  exact Nat.mul_lt_mul_of_pos_right (by omega) (Nat.two_pow_pos _)

/-- The shortest decimal of a float rounds to it. -/
theorem holds_shortest (h : w.isZero = false) : (interval w).Holds (shortest tie w).value := by
  have hdenominator : (interval w).denominator = 2 ^ (f.unitBits + 2) := by
    simp only [interval, Nat.shiftLeft_eq, Nat.pow_add]
    ring
  have hexact : (interval w).denominator ∣ (interval w).value * 10 ^ (f.unitBits + 2) := by
    rw [hdenominator]
    exact Dvd.dvd.mul_left (pow_dvd_pow_of_dvd (by decide) _) _
  rw [shortest, h]
  exact Interval.holds_coarsest (lower_lt_value h) (value_lt_upper w)
    (hdenominator ▸ Nat.two_pow_pos _) hexact _

/-- What lies in the interval of a float rounds to it. -/
theorem nearest_of_holds (hf : 0 < f.fractionBits) (h : (interval w).Holds q) :
    f.Nearest w.magnitude q := by
  obtain ⟨hlower, hupper, hclosed⟩ := h.ends
  refine ⟨hlower, hupper, fun hend => ?_⟩
  have heven : f.significand w.magnitude % 2 = 0 := of_decide_eq_true (hclosed hend)
  rwa [significand_parity hf] at heven

theorem value_shortest_of_isZero (h : w.isZero = true) : (shortest tie w).value = 0 := by
  rw [shortest_of_isZero h]
  simp [value]

theorem value_shortest_pos (h : w.isZero = false) : 0 < (shortest tie w).value := by
  have hsignificand : (0 : ℚ) < (shortest tie w).significand := by
    exact_mod_cast (shortest_spec h).1
  exact mul_pos hsignificand (by positivity)

/-- Floats with shortest decimals of one value are equal up to their signs. -/
theorem magnitude_eq_of_value_eq (hf : 0 < f.fractionBits)
    (h : (shortest tie w).value = (shortest tie' w').value) : w.magnitude = w'.magnitude := by
  cases hzero : w.isZero with
  | true =>
    cases hzero' : w'.isZero with
    | true =>
      rw [Word.isZero, beq_iff_eq] at hzero hzero'
      rw [hzero, hzero']
    | false =>
      rw [value_shortest_of_isZero hzero] at h
      exact absurd h (value_shortest_pos hzero').ne
  | false =>
    cases hzero' : w'.isZero with
    | true =>
      rw [value_shortest_of_isZero hzero'] at h
      exact absurd h (value_shortest_pos hzero).ne'
    | false =>
      have hq := @holds_shortest f tie w hzero
      have hq' := @holds_shortest f tie' w' hzero'
      rw [h] at hq
      exact (nearest_of_holds hf hq).unique (nearest_of_holds hf hq')

section Text

variable {d d' : Decimal} {whole fraction whole' fraction' : List Char}

/-- The parts of a decimal in place, which tell its value. -/
structure Parts (d : Decimal) (whole fraction : List Char) : Prop where
  text_eq : d.inPlaceText false = pointed whole fraction
  whole_digits : ∀ c ∈ whole, c.isDigit
  whole_ne_nil : whole ≠ []
  fraction_digits : ∀ c ∈ fraction, c.isDigit
  value_eq : d.value = (Nat.ofDigitChars 10 (whole ++ fraction) 0 : Nat) / 10 ^ fraction.length

theorem value_inFull (showFraction : Bool) (d : Decimal) :
    (d.inFull showFraction).value = d.value := by
  by_cases h : 0 ≤ d.exponent
  case pos =>
    obtain ⟨n, hn⟩ := Int.eq_ofNat_of_zero_le h
    cases showFraction with
    | true =>
      rw [inFull, if_pos rfl, withFraction, if_pos h, value, value, hn, Int.toNat_natCast,
        zpow_natCast]
      push_cast
      ring
    | false =>
      rw [inFull, if_neg (by decide), if_pos h, value, value, hn, Int.toNat_natCast, zpow_natCast]
      push_cast
      ring
  case neg => rw [inFull_of_neg h]

theorem exists_parts (d : Decimal) : ∃ whole fraction, d.Parts whole fraction := by
  obtain ⟨whole, fraction, h⟩ := exists_split false d
  refine ⟨whole, fraction, h.text_eq, h.whole_digits, h.whole_ne_nil, h.fraction_digits, ?_⟩
  rw [← value_inFull false, value, ← h.significand_eq, ← h.exponent_eq, zpow_neg, zpow_natCast,
    div_eq_mul_inv]

theorem pointed_injective (hwhole : ∀ c ∈ whole, c.isDigit) (hwhole' : ∀ c ∈ whole', c.isDigit)
    (h : pointed whole fraction = pointed whole' fraction') :
    whole = whole' ∧ fraction = fraction' := by
  have htail (fraction : List Char) :
      (if fraction = [] then [] else '.' :: fraction).takeWhile Char.isDigit = [] := by
    split <;> rfl
  have heq : whole = whole' := by
    have htake := congrArg (List.takeWhile Char.isDigit) h
    simpa only [pointed, List.takeWhile_append_of_pos hwhole, List.takeWhile_append_of_pos hwhole',
      htail, List.append_nil] using htake
  subst heq
  refine ⟨rfl, ?_⟩
  have hrest := List.append_cancel_left h
  cases fraction <;> cases fraction' <;> simp_all

theorem value_eq_of_inPlaceText_eq (h : d.inPlaceText false = d'.inPlaceText false) :
    d.value = d'.value := by
  obtain ⟨whole, fraction, hparts⟩ := exists_parts d
  obtain ⟨whole', fraction', hparts'⟩ := exists_parts d'
  rw [hparts.text_eq, hparts'.text_eq] at h
  obtain ⟨rfl, rfl⟩ := pointed_injective hparts.whole_digits hparts'.whole_digits h
  rw [hparts.value_eq, hparts'.value_eq]

end Text

end Decimal

end ShaderAlgebra
