import ShaderAlgebra.Proofs.Decimal.Shortest

/-!
# The parts of a written decimal

A decimal in place has digits on both sides of its point. No zero stands before
other whole digits, since the digits of a significand do not begin with one. A
whole number is spelled with a zero after its point, as a number of tenths.
-/

namespace ShaderAlgebra.Decimal

variable {d : Decimal}

theorem isDigit_of_mem_digits : ∀ c ∈ d.digits, c.isDigit := fun _ =>
  Nat.isDigit_of_mem_toDigits (by decide) (by decide)

theorem digits_ne_nil : d.digits ≠ [] := Nat.toDigits_ne_nil

/-- Zero without an exponent is the only decimal whose digits begin with a zero. -/
def Normal (d : Decimal) : Prop := d = ⟨0, 0⟩ ∨ 0 < d.significand

theorem normal_shortest {f : Binary.Format} (tie : Tie) (w : Word f) : (shortest tie w).Normal := by
  cases h : w.isZero with
  | true => exact .inl (shortest_of_isZero h)
  | false => exact .inr (shortest_spec h).1

/-- The same number with a fraction of one digit at least. -/
def withFraction (d : Decimal) : Decimal :=
  if 0 ≤ d.exponent then ⟨d.significand * 10 ^ (d.exponent.toNat + 1), -1⟩ else d

/-- The digits and the exponent that the text of a decimal shows. -/
def spelled (layout : Layout) (d : Decimal) : Decimal :=
  if layout.inPlace d.leadingExponent then d.withFraction else d

/-- The same number with all whole digits, and with a fraction of one digit at least if it is
to be shown. -/
def inFull (showFraction : Bool) (d : Decimal) : Decimal :=
  if showFraction then d.withFraction
  else if 0 ≤ d.exponent then ⟨d.significand * 10 ^ d.exponent.toNat, 0⟩ else d

/-- Digits, with a point before the fraction if there is one. -/
def pointed (whole fraction : List Char) : List Char :=
  whole ++ if fraction = [] then [] else '.' :: fraction

/-- The digits before and after the point of a decimal in place. -/
structure Split (showFraction : Bool) (d : Decimal) (whole fraction : List Char) : Prop where
  text_eq : d.inPlaceText showFraction = pointed whole fraction
  whole_digits : ∀ c ∈ whole, c.isDigit
  whole_ne_nil : whole ≠ []
  fraction_digits : ∀ c ∈ fraction, c.isDigit
  fraction_ne_nil : showFraction = true → fraction ≠ []
  no_leading_zero : d.Normal → ¬(whole.head? = some '0' ∧ 1 < whole.length)
  significand_eq :
    Nat.ofDigitChars 10 (whole ++ fraction) 0 = (d.inFull showFraction).significand
  exponent_eq : -(fraction.length : Int) = (d.inFull showFraction).exponent

theorem no_leading_zero_digits (h : 0 < d.significand) (tail : List Char) :
    (d.digits ++ tail).head? ≠ some '0' := by
  obtain ⟨c, more, hdigits⟩ := List.exists_cons_of_ne_nil d.digits_ne_nil
  have hhead : d.digits.head? ≠ some '0' := head?_toDigits_ne_zero h
  rw [hdigits] at hhead
  rwa [hdigits]

theorem ofDigitChars_digits : Nat.ofDigitChars 10 d.digits 0 = d.significand :=
  Nat.ofDigitChars_ten_toDigits

theorem isDigit_of_mem_zeros {n : Nat} : ∀ c ∈ List.replicate n '0', c.isDigit := by
  intro c hc
  rw [List.eq_of_mem_replicate hc]
  rfl

theorem inFull_of_neg (h : ¬0 ≤ d.exponent) (showFraction : Bool) : d.inFull showFraction = d := by
  cases showFraction <;> simp only [inFull, withFraction, if_neg h, ite_self]

/-- A whole number has no fraction, or a fraction of one zero. -/
theorem split_of_nonneg (showFraction : Bool) (h : 0 ≤ d.exponent) :
    d.Split showFraction (d.digits ++ List.replicate d.exponent.toNat '0')
      (if showFraction then ['0'] else []) where
  text_eq := by cases showFraction <;> simp [inPlaceText, pointed, h]
  whole_digits := List.forall_mem_append.2 ⟨isDigit_of_mem_digits, isDigit_of_mem_zeros⟩
  whole_ne_nil := by simp [digits_ne_nil]
  fraction_digits := by cases showFraction <;> simp
  fraction_ne_nil := by simp +contextual
  no_leading_zero := by
    rintro (rfl | hpositive) ⟨hhead, hmore⟩
    · revert hmore
      decide
    · exact no_leading_zero_digits hpositive _ hhead
  significand_eq := by
    cases showFraction with
    | true =>
      rw [if_pos rfl, List.append_assoc, Nat.ofDigitChars_append, ofDigitChars_digits, inFull,
        if_pos rfl, withFraction, if_pos h, Nat.ofDigitChars_append,
        Nat.ofDigitChars_replicate_zero]
      change 10 * (10 ^ d.exponent.toNat * d.significand) = _
      rw [Nat.pow_succ]
      ring
    | false =>
      rw [if_neg (by decide), List.append_nil, Nat.ofDigitChars_append, ofDigitChars_digits,
        Nat.ofDigitChars_replicate_zero, inFull, if_neg (by decide), if_pos h, Nat.mul_comm]
  exponent_eq := by cases showFraction <;> simp [inFull, withFraction, h]

/-- The point stands between two digits. -/
theorem split_of_lt_length (showFraction : Bool) (h : ¬0 ≤ d.exponent)
    (hplaces : (-d.exponent).toNat < d.digits.length) :
    d.Split showFraction (d.digits.take (d.digits.length - (-d.exponent).toNat))
      (d.digits.drop (d.digits.length - (-d.exponent).toNat)) := by
  have hlength : (d.digits.drop (d.digits.length - (-d.exponent).toNat)).length =
      (-d.exponent).toNat := by
    rw [List.length_drop]
    omega
  have hfraction : d.digits.drop (d.digits.length - (-d.exponent).toNat) ≠ [] := by
    rw [← List.length_pos_iff, hlength]
    omega
  exact {
    text_eq := by simp only [inPlaceText, pointed, if_neg h, if_pos hplaces, if_neg hfraction]
    whole_digits := fun c hc => isDigit_of_mem_digits c (List.mem_of_mem_take hc)
    whole_ne_nil := by
      rw [← List.length_pos_iff, List.length_take]
      omega
    fraction_digits := fun c hc => isDigit_of_mem_digits c (List.mem_of_mem_drop hc)
    fraction_ne_nil := fun _ => hfraction
    no_leading_zero := by
      rintro (rfl | hpositive) ⟨hhead, -⟩
      · exact h (Int.le_refl 0)
      · refine no_leading_zero_digits hpositive [] ?_
        rw [List.append_nil, ← List.take_append_drop _ d.digits, List.head?_append, hhead]
        rfl
    significand_eq := by rw [List.take_append_drop, ofDigitChars_digits, inFull_of_neg h]
    exponent_eq := by
      rw [hlength, inFull_of_neg h]
      omega }

/-- Zeros stand between the point and the digits. -/
theorem split_of_length_le (showFraction : Bool) (h : ¬0 ≤ d.exponent)
    (hplaces : ¬(-d.exponent).toNat < d.digits.length) :
    d.Split showFraction ['0']
      (List.replicate ((-d.exponent).toNat - d.digits.length) '0' ++ d.digits) where
  text_eq := by simp [inPlaceText, pointed, h, hplaces, digits_ne_nil]
  whole_digits := by simp
  whole_ne_nil := by simp
  fraction_digits := List.forall_mem_append.2 ⟨isDigit_of_mem_zeros, isDigit_of_mem_digits⟩
  fraction_ne_nil := by simp [digits_ne_nil]
  no_leading_zero := by simp
  significand_eq := by
    rw [List.singleton_append, Nat.ofDigitChars_cons, Nat.ofDigitChars_append,
      Nat.ofDigitChars_replicate_zero, inFull_of_neg h]
    exact ofDigitChars_digits
  exponent_eq := by
    rw [inFull_of_neg h, List.length_append, List.length_replicate]
    omega

theorem exists_split (showFraction : Bool) (d : Decimal) :
    ∃ whole fraction, d.Split showFraction whole fraction := by
  by_cases h : 0 ≤ d.exponent
  case pos => exact ⟨_, _, split_of_nonneg showFraction h⟩
  case neg =>
    by_cases hplaces : (-d.exponent).toNat < d.digits.length
    case pos => exact ⟨_, _, split_of_lt_length showFraction h hplaces⟩
    case neg => exact ⟨_, _, split_of_length_le showFraction h hplaces⟩

end ShaderAlgebra.Decimal
