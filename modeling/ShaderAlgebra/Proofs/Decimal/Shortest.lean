import Mathlib.Tactic.Ring
import ShaderAlgebra.Decimal.Layout
import ShaderAlgebra.Proofs.Binary.Rounding

/-!
# The size of shortest decimals

The shortest decimal of a float is on a grid that is no coarser than the float
has whole digits, and it is one of the two grid points around the float. So it
has about as many whole digits, and it is zero only for zero.
-/

namespace ShaderAlgebra.Decimal

namespace Interval

variable {v : Interval} {tie : Tie} {d places : Nat} {g : Int}

/-- One of the two whole numbers around the value is picked if it lies in the interval, and if
the other one does not or is no nearer. -/
theorem pick_cases (h : v.pick tie = some d) :
    (d = v.value / v.denominator ∧ v.contains d ∧
        (v.contains (v.value / v.denominator + 1) = false ∨
          2 * (v.value % v.denominator) ≤ v.denominator)) ∨
      (d = v.value / v.denominator + 1 ∧ v.contains d ∧
        (v.contains (v.value / v.denominator) = false ∨
          v.denominator ≤ 2 * (v.value % v.denominator))) := by
  simp only [pick] at h
  split at h
  · cases h
  next hbelow habove =>
    cases h
    exact .inl ⟨rfl, hbelow, .inl habove⟩
  next hbelow habove =>
    cases h
    exact .inr ⟨rfl, habove, .inl hbelow⟩
  next hbelow habove =>
    have hnear : d = v.value / v.denominator ∧ 2 * (v.value % v.denominator) ≤ v.denominator ∨
        d = v.value / v.denominator + 1 ∧ v.denominator ≤ 2 * (v.value % v.denominator) := by
      split at h
      · exact .inl ⟨(Option.some.inj h).symm, by omega⟩
      split at h
      · exact .inr ⟨(Option.some.inj h).symm, by omega⟩
      have hchoice : d = v.value / v.denominator ∨ d = v.value / v.denominator + 1 := by
        cases tie with
        | up => exact .inr (Option.some.inj h).symm
        | even =>
          rw [← Option.some.inj h]
          split
          · exact .inl rfl
          · exact .inr rfl
      omega
    rcases hnear with ⟨rfl, hrest⟩ | ⟨rfl, hrest⟩
    · exact .inl ⟨rfl, hbelow, .inr hrest⟩
    · exact .inr ⟨rfl, habove, .inr hrest⟩

theorem pick_spec (h : v.pick tie = some d) :
    v.contains d ∧ d ≤ v.value / v.denominator + 1 := by
  rcases pick_cases h with ⟨rfl, hcontains, -⟩ | ⟨rfl, hcontains, -⟩
  · exact ⟨hcontains, Nat.le_succ _⟩
  · exact ⟨hcontains, Nat.le_refl _⟩

theorem pos_of_contains (hlower : 0 < v.lower) (h : v.contains d) : 0 < d := by
  rcases Nat.eq_zero_or_pos d with rfl | hpositive
  · unfold contains at h
    split at h
    · simp at h
      omega
    · simp at h
  · exact hpositive

theorem lower_inUnitsOf_pos (hlower : 0 < v.lower) (g : Int) : 0 < (v.inUnitsOf g).lower := by
  unfold inUnitsOf
  split
  · exact hlower
  · exact Nat.mul_pos hlower (Nat.pow_pos (by decide))

/-- Whole units of `10 ^ g` are not more than the value, both counted in `10 ^ -places`. -/
theorem inUnitsOf_mul_le (v : Interval) {e : Nat} (he : g + (places : Int) = e) :
    (v.inUnitsOf g).value / (v.inUnitsOf g).denominator * 10 ^ e ≤
      v.value * 10 ^ places / v.denominator := by
  unfold inUnitsOf
  split
  next hg =>
    have hsplit : e = g.toNat + places := by omega
    calc v.value / (v.denominator * 10 ^ g.toNat) * 10 ^ e
        = v.value / v.denominator / 10 ^ g.toNat * 10 ^ g.toNat * 10 ^ places := by
          rw [hsplit, Nat.pow_add, Nat.div_div_eq_div_mul, Nat.mul_assoc]
      _ ≤ v.value / v.denominator * 10 ^ places :=
          Nat.mul_le_mul_right _ (Nat.div_mul_le_self _ _)
      _ ≤ v.value * 10 ^ places / v.denominator := by
          rw [Nat.mul_comm, Nat.mul_comm v.value]
          exact Nat.mul_div_le_mul_div_assoc _ _ _
  next hg =>
    have hsplit : places = (-g).toNat + e := by omega
    calc v.value * 10 ^ (-g).toNat / v.denominator * 10 ^ e
        ≤ 10 ^ e * (v.value * 10 ^ (-g).toNat) / v.denominator := by
          rw [Nat.mul_comm]
          exact Nat.mul_div_le_mul_div_assoc _ _ _
      _ = v.value * 10 ^ places / v.denominator := by
          rw [hsplit, Nat.pow_add]
          congr 1
          ring

theorem inUnitsOf_finest (v : Interval) (places : Nat) :
    (v.inUnitsOf (-places)).value / (v.inUnitsOf (-places)).denominator =
      v.value * 10 ^ places / v.denominator := by
  unfold inUnitsOf
  split
  next h =>
    have hplaces : places = 0 := by omega
    simp [hplaces]
  next h => simp

theorem coarsest_spec (tie : Tie) (hlower : 0 < v.lower) (hdenominator : 0 < v.denominator)
    (hfine : v.denominator ≤ v.value * 10 ^ places) (n : Nat) :
    ∃ e : Nat, (v.coarsest tie places n).exponent + places = e ∧
      0 < (v.coarsest tie places n).significand ∧
      (v.coarsest tie places n).significand * 10 ^ e ≤
        v.value * 10 ^ places / v.denominator + 10 ^ n := by
  induction n with
  | zero =>
    refine ⟨0, by simp [coarsest], ?_, ?_⟩
    · rw [coarsest, inUnitsOf_finest]
      exact Nat.div_pos hfine hdenominator
    · rw [coarsest, inUnitsOf_finest, Nat.pow_zero, Nat.mul_one]
      exact Nat.le_add_right _ _
  | succ n ih =>
    rw [coarsest]
    split
    next d hd =>
      obtain ⟨hcontains, hle⟩ := pick_spec hd
      refine ⟨n + 1, by simp, pos_of_contains (lower_inUnitsOf_pos hlower _) hcontains, ?_⟩
      have hgrid : ((n + 1 : Nat) - (places : Int)) + places = (n + 1 : Nat) := by omega
      have hbelow := inUnitsOf_mul_le v hgrid
      calc d * 10 ^ (n + 1) ≤ _ := Nat.mul_le_mul_right _ hle
        _ ≤ _ := by
          rw [Nat.add_mul, Nat.one_mul]
          exact Nat.add_le_add_right hbelow _
    next =>
      obtain ⟨e, hexponent, hpositive, hle⟩ := ih
      refine ⟨e, hexponent, hpositive, Nat.le_trans hle (Nat.add_le_add_left ?_ _)⟩
      exact Nat.pow_le_pow_right (by decide) (Nat.le_succ n)

end Interval

/-- No number but zero begins with the digit zero. -/
theorem head?_toDigits_ne_zero {n : Nat} (h : 0 < n) : (Nat.toDigits 10 n).head? ≠ some '0' := by
  induction n using Nat.strongRecOn with
  | ind n ih =>
    by_cases hsmall : n < 10
    · rw [Nat.toDigits_of_lt_base hsmall, List.head?_cons, ne_eq, Option.some.injEq,
        Nat.digitChar_eq_zero]
      exact Nat.ne_of_gt h
    · have hquotient : 0 < n / 10 := by omega
      have hhead := ih (n / 10) (by omega) hquotient
      obtain ⟨c, tail, htail⟩ := List.exists_cons_of_ne_nil (@Nat.toDigits_ne_nil (n / 10) 10)
      rw [Nat.toDigits_of_base_le (by decide) (Nat.le_of_not_lt hsmall), htail]
      rwa [htail] at hhead

theorem pow_le_of_length_toDigits {n : Nat} (h : 0 < n) :
    10 ^ ((Nat.toDigits 10 n).length - 1) ≤ n := by
  by_contra hlt
  have hpositive : 0 < (Nat.toDigits 10 n).length := Nat.length_toDigits_pos
  rcases Nat.eq_zero_or_pos ((Nat.toDigits 10 n).length - 1) with hone | hmore
  · rw [hone] at hlt
    omega
  · have hshorter := (Nat.length_toDigits_le_iff (by decide) hmore).mpr (Nat.lt_of_not_le hlt)
    omega

variable {f : Binary.Format} {tie : Tie} {w : Word f}

theorem shortest_of_isZero (h : w.isZero) : shortest tie w = ⟨0, 0⟩ := if_pos h

theorem lower_interval_pos (h : w.isZero = false) : 0 < (interval w).lower := by
  have hsignificand : 0 < f.significand w.magnitude := by
    refine Binary.Format.significand_pos (Nat.pos_of_ne_zero ?_)
    simpa [Word.isZero] using h
  simp only [interval]
  rw [Nat.shiftLeft_eq]
  refine Nat.mul_pos ?_ (Nat.two_pow_pos _)
  split <;> omega

/-- The grid that is tried last is finer than the float's smallest part. -/
theorem denominator_interval_le (h : w.isZero = false) :
    (interval w).denominator ≤ (interval w).value * 10 ^ (f.unitBits + 2) := by
  have hsignificand : 0 < f.significand w.magnitude := by
    refine Binary.Format.significand_pos (Nat.pos_of_ne_zero ?_)
    simpa [Word.isZero] using h
  have hvalue : 4 ≤ (interval w).value := by
    simp only [interval]
    rw [Nat.shiftLeft_eq]
    exact Nat.le_trans (by omega) (Nat.le_mul_of_pos_right _ (Nat.two_pow_pos _))
  calc (interval w).denominator = 4 * 2 ^ f.unitBits := Nat.shiftLeft_eq _ _
    _ ≤ 4 * 10 ^ (f.unitBits + 2) := Nat.mul_le_mul_left _ <|
        Nat.le_trans (Nat.pow_le_pow_left (by decide) _)
          (Nat.pow_le_pow_right (by decide) (Nat.le_add_right _ 2))
    _ ≤ _ := Nat.mul_le_mul_right _ hvalue

/-- A shortest decimal reaches at most one place beyond the whole digits of its float. -/
theorem shortest_spec (h : w.isZero = false) :
    0 < (shortest tie w).significand ∧
      (shortest tie w).leadingExponent ≤
        (Nat.toDigits 10 ((interval w).value / (interval w).denominator)).length := by
  let v := interval w
  let places := f.unitBits + 2
  let whole := (Nat.toDigits 10 (v.value / v.denominator)).length
  have hdenominator : 0 < v.denominator := by simp [v, interval, Nat.shiftLeft_eq]
  have hshortest : shortest tie w = v.coarsest tie places (whole + places) := by
    rw [shortest, h]
    rfl
  obtain ⟨e, hexponent, hpositive, hle⟩ := Interval.coarsest_spec tie (lower_interval_pos h)
    hdenominator (denominator_interval_le h) (whole + places)
  rw [← hshortest] at hexponent hpositive hle
  refine ⟨hpositive, ?_⟩
  have hvalue : v.value < 10 ^ whole * v.denominator :=
    (Nat.div_lt_iff_lt_mul hdenominator).mp
      ((Nat.length_toDigits_le_iff (by decide) Nat.length_toDigits_pos).mp (Nat.le_refl _))
  have hscaled : v.value * 10 ^ places / v.denominator < 10 ^ (whole + places) := by
    rw [Nat.div_lt_iff_lt_mul hdenominator, Nat.pow_add 10 whole, Nat.mul_right_comm]
    exact Nat.mul_lt_mul_of_pos_right hvalue (Nat.pow_pos (by decide))
  have hdigits : 10 ^ ((shortest tie w).digits.length - 1 + e) < 10 ^ (whole + places + 1) := by
    calc 10 ^ ((shortest tie w).digits.length - 1 + e)
        = 10 ^ ((shortest tie w).digits.length - 1) * 10 ^ e := Nat.pow_add _ _ _
      _ ≤ (shortest tie w).significand * 10 ^ e :=
          Nat.mul_le_mul_right _ (pow_le_of_length_toDigits hpositive)
      _ < 10 ^ (whole + places) + 10 ^ (whole + places) :=
          Nat.lt_of_le_of_lt hle (Nat.add_lt_add_right hscaled _)
      _ ≤ 10 ^ (whole + places + 1) := by
          rw [Nat.pow_succ]
          omega
  have hplace := (Nat.pow_lt_pow_iff_right (by decide)).mp hdigits
  have hlength : 0 < (shortest tie w).digits.length := Nat.length_toDigits_pos
  change (shortest tie w).leadingExponent ≤ whole
  unfold leadingExponent
  omega

/-- The greatest finite 32-bit float has 39 whole digits. -/
theorem leadingExponent_shortest_le {x : Single} (hfinite : x.isFinite) (h : x.isZero = false) :
    (shortest tie x).leadingExponent ≤ 39 := by
  refine Int.le_trans (shortest_spec h).2 (Int.ofNat_le.mpr ?_)
  have hmagnitude : x.magnitude ≤ (253 + 2) * 2 ^ Binary.Format.single.fractionBits :=
    Nat.le_of_lt (of_decide_eq_true hfinite)
  have hunits : x.units < 2 ^ (129 + Binary.Format.single.unitBits) := by
    rw [show 129 + Binary.Format.single.unitBits = 253 + Binary.Format.single.fractionBits + 2 from rfl]
    exact Binary.Format.units_lt hmagnitude
  have hdenominator : (interval x).denominator = 4 * 2 ^ Binary.Format.single.unitBits :=
    Nat.shiftLeft_eq _ _
  rw [Nat.length_toDigits_le_iff (by decide) (by decide),
    Nat.div_lt_iff_lt_mul (by simp [interval, Nat.shiftLeft_eq])]
  calc (interval x).value = 4 * x.units := by
        simp only [interval, Word.units, Binary.Format.units, Nat.shiftLeft_eq, Nat.mul_assoc]
    _ < 4 * 2 ^ (129 + Binary.Format.single.unitBits) :=
        Nat.mul_lt_mul_of_pos_left hunits (by decide)
    _ = 2 ^ 129 * (interval x).denominator := by
        rw [hdenominator, Nat.pow_add, Nat.mul_left_comm]
    _ ≤ 10 ^ 39 * (interval x).denominator := Nat.mul_le_mul_right _ (by decide)

end ShaderAlgebra.Decimal
