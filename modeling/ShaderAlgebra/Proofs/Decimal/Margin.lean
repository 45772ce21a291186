import ShaderAlgebra.Proofs.Decimal.Distinct
import ShaderAlgebra.Proofs.Decimal.Halfway

/-!
# How near a shortest decimal comes to the ends of its interval

The ends of the interval of a 32-bit float are halfway points. The decimal is
chosen on a grid that is at most as coarse as the interval is wide, and as the
neighbour of the float on that grid which is nearer, or the only one inside. On a
fine grid such a neighbour keeps away from the ends. On a coarse grid no decimal
is very near to a halfway point without being one.
-/

namespace ShaderAlgebra.Decimal

namespace Interval

variable {v : Interval} {tie : Tie} {d n places : Nat} {g : Int}

def low (v : Interval) : ℚ := v.lower / v.denominator

/-- The value between the ends. -/
def mid (v : Interval) : ℚ := v.value / v.denominator

def high (v : Interval) : ℚ := v.upper / v.denominator

/-- An interval around its value. -/
structure Proper (v : Interval) : Prop where
  lower_lt : v.lower < v.value
  lt_upper : v.value < v.upper
  denominator_pos : 0 < v.denominator

theorem Proper.inUnitsOf (h : v.Proper) (g : Int) : (v.inUnitsOf g).Proper := by
  obtain ⟨hlower, hupper, hdenominator⟩ := h
  unfold Interval.inUnitsOf
  split
  · exact ⟨hlower, hupper, Nat.mul_pos hdenominator (Nat.pow_pos (by decide))⟩
  · exact ⟨Nat.mul_lt_mul_of_pos_right hlower (Nat.pow_pos (by decide)),
      Nat.mul_lt_mul_of_pos_right hupper (Nat.pow_pos (by decide)), hdenominator⟩

theorem ends_inUnitsOf (v : Interval) (g : Int) :
    (v.inUnitsOf g).low = v.low / 10 ^ g ∧ (v.inUnitsOf g).mid = v.mid / 10 ^ g ∧
      (v.inUnitsOf g).high = v.high / 10 ^ g := by
  unfold inUnitsOf low mid high
  split
  next hg =>
    obtain ⟨k, rfl⟩ := Int.eq_ofNat_of_zero_le hg
    simp [div_div]
  next hg =>
    obtain ⟨k, rfl⟩ : ∃ k : Nat, g = -k := ⟨(-g).toNat, by omega⟩
    simp [mul_div_right_comm]

theorem lower_of_not_contains (h : v.contains n = false) (hn : n * v.denominator ≤ v.value)
    (hv : v.Proper) : n * v.denominator ≤ v.lower := by
  have hupper := hv.lt_upper
  unfold contains at h
  split at h
  · simp only [Bool.and_eq_false_iff, decide_eq_false_iff_not] at h
    omega
  · simp only [Bool.and_eq_false_iff, decide_eq_false_iff_not] at h
    omega

theorem upper_of_not_contains (h : v.contains n = false) (hn : v.value ≤ n * v.denominator)
    (hv : v.Proper) : v.upper ≤ n * v.denominator := by
  have hlower := hv.lower_lt
  unfold contains at h
  split at h
  · simp only [Bool.and_eq_false_iff, decide_eq_false_iff_not] at h
    omega
  · simp only [Bool.and_eq_false_iff, decide_eq_false_iff_not] at h
    omega

section Pick

variable (hv : v.Proper)

include hv

/-- The two whole numbers around the value, and how far the value is from the lower one. -/
theorem neighbours : ∃ rest : ℚ, v.mid = (v.value / v.denominator : Nat) + rest ∧
    rest * v.denominator = (v.value % v.denominator : Nat) ∧ 0 ≤ rest ∧ rest < 1 := by
  have hpos : (0 : ℚ) < v.denominator := by exact_mod_cast hv.denominator_pos
  have hmod : ((v.value % v.denominator : Nat) : ℚ) < v.denominator := by
    exact_mod_cast Nat.mod_lt _ hv.denominator_pos
  have hdiv :
      (v.denominator * (v.value / v.denominator : Nat) + (v.value % v.denominator : Nat) : ℚ) =
      v.value := by
    exact_mod_cast Nat.div_add_mod v.value v.denominator
  refine ⟨(v.value % v.denominator : Nat) / v.denominator, ?_, div_mul_cancel₀ _ hpos.ne',
    div_nonneg (Nat.cast_nonneg _) hpos.le, (div_lt_one₀ hpos).2 hmod⟩
  rw [mid, ← hdiv]
  field_simp

theorem low_of_not_contains (h : v.contains (v.value / v.denominator) = false) :
    ((v.value / v.denominator : Nat) : ℚ) ≤ v.low := by
  have hpos : (0 : ℚ) < v.denominator := by exact_mod_cast hv.denominator_pos
  rw [low, le_div_iff₀ hpos]
  exact_mod_cast lower_of_not_contains h (Nat.div_mul_le_self _ _) hv

theorem high_of_not_contains (h : v.contains (v.value / v.denominator + 1) = false) :
    v.high ≤ (v.value / v.denominator : Nat) + 1 := by
  have hpos : (0 : ℚ) < v.denominator := by exact_mod_cast hv.denominator_pos
  have habove : v.value ≤ (v.value / v.denominator + 1) * v.denominator :=
    (Nat.lt_div_mul_add hv.denominator_pos).le.trans_eq (Nat.succ_mul _ _).symm
  rw [high, div_le_iff₀ hpos]
  exact_mod_cast upper_of_not_contains h habove hv

/-- The neighbour that is picked is the nearer one, unless the other one is outside. -/
theorem pick_near (h : v.pick tie = some d) :
    (d ≤ v.mid ∧ (v.mid - d ≤ 1 / 2 ∨ v.high ≤ d + 1)) ∨
      (v.mid ≤ d ∧ (d - v.mid ≤ 1 / 2 ∨ d - 1 ≤ v.low)) := by
  have hpos : (0 : ℚ) < v.denominator := by exact_mod_cast hv.denominator_pos
  obtain ⟨rest, hmid, hrest, hnonneg, hlt⟩ := neighbours hv
  have hbelow : (v.value / v.denominator : Nat) ≤ v.mid := by linarith
  have habove : v.mid ≤ (v.value / v.denominator + 1 : Nat) := by
    push_cast
    linarith
  rcases pick_cases h with ⟨rfl, -, houtside | hsmall⟩ | ⟨rfl, -, houtside | hlarge⟩
  · exact .inl ⟨hbelow, .inr (high_of_not_contains hv houtside)⟩
  · have hsmall : (2 * (v.value % v.denominator : Nat) : ℚ) ≤ v.denominator := by
      exact_mod_cast hsmall
    refine .inl ⟨hbelow, .inl ?_⟩
    nlinarith
  · refine .inr ⟨habove, .inr ?_⟩
    push_cast
    linarith [low_of_not_contains hv houtside]
  · have hlarge : (v.denominator : ℚ) ≤ 2 * (v.value % v.denominator : Nat) := by
      exact_mod_cast hlarge
    refine .inr ⟨habove, .inl ?_⟩
    push_cast
    nlinarith

/-- An interval that holds neither neighbour of its value is at most one unit wide. -/
theorem width_le_of_pick_eq_none (h : v.pick tie = none) : v.high - v.low ≤ 1 := by
  simp only [pick] at h
  split at h
  next hlow hhigh =>
    linarith [low_of_not_contains hv hlow, high_of_not_contains hv hhigh]
  · cases h
  · cases h
  · split at h
    · cases h
    split at h
    · cases h
    cases tie <;> cases h

end Pick

/-- The point `d * 10 ^ g` is picked on a grid, seen from the interval itself. -/
structure Picked (v : Interval) (d : Nat) (g : Int) : Prop where
  near :
    ((d * 10 ^ g : ℚ) ≤ v.mid ∧ (v.mid - d * 10 ^ g ≤ 10 ^ g / 2 ∨ v.high ≤ d * 10 ^ g + 10 ^ g)) ∨
    (v.mid ≤ d * 10 ^ g ∧ (d * 10 ^ g - v.mid ≤ 10 ^ g / 2 ∨ d * 10 ^ g - 10 ^ g ≤ v.low))

theorem picked_of_pick (hv : v.Proper) (h : (v.inUnitsOf g).pick tie = some d) : v.Picked d g := by
  have hpos : (0 : ℚ) < 10 ^ g := by positivity
  obtain ⟨hlow, hmid, hhigh⟩ := ends_inUnitsOf v g
  have hscale {p q : ℚ} (hpq : p ≤ q) : p * 10 ^ g ≤ q * 10 ^ g :=
    mul_le_mul_of_nonneg_right hpq hpos.le
  rw [eq_div_iff hpos.ne'] at hlow hmid hhigh
  constructor
  rcases pick_near (hv.inUnitsOf g) h with ⟨hside, hclose | hclose⟩ | ⟨hside, hclose | hclose⟩
  all_goals
    have hside := hscale hside
    have hclose := hscale hclose
  · exact .inl ⟨by linarith, .inl (by linarith)⟩
  · exact .inl ⟨by linarith, .inr (by linarith)⟩
  · exact .inr ⟨by linarith, .inl (by linarith)⟩
  · exact .inr ⟨by linarith, .inr (by linarith)⟩

theorem width_le_of_none (hv : v.Proper) (h : (v.inUnitsOf g).pick tie = none) :
    v.high - v.low ≤ 10 ^ g := by
  have hpos : (0 : ℚ) < 10 ^ g := by positivity
  obtain ⟨hlow, -, hhigh⟩ := ends_inUnitsOf v g
  have hwidth := width_le_of_pick_eq_none (hv.inUnitsOf g) h
  rwa [hlow, hhigh, ← sub_div, div_le_one₀ hpos] at hwidth

/-- Some grid has a point in the interval before the finest one is reached. The point is picked
on the coarsest such grid. -/
theorem exists_picked (tie : Tie) (hv : v.Proper)
    (hfine : (10 : ℚ) ^ (1 - places : Int) < v.high - v.low)
    {n : Nat} (hn : 1 ≤ n) :
    ∃ d g, v.coarsest tie places n = ⟨d, g⟩ ∧ (v.inUnitsOf g).pick tie = some d ∧
      (g = n - places ∨ v.high - v.low ≤ 10 ^ (g + 1)) := by
  induction n, hn using Nat.le_induction with
  | base =>
    cases hpick : (v.inUnitsOf ((0 + 1 : Nat) - places)).pick tie with
    | none => exact absurd (width_le_of_none hv hpick) (not_le.2 hfine)
    | some d => exact ⟨d, (0 + 1 : Nat) - places, by rw [coarsest, hpick], hpick, .inl rfl⟩
  | succ n hn ih =>
    rw [coarsest]
    cases hpick : (v.inUnitsOf ((n + 1 : Nat) - places)).pick tie with
    | some d => exact ⟨d, _, rfl, hpick, .inl rfl⟩
    | none =>
      obtain ⟨d, g, hcoarsest, hd, hcoarser⟩ := ih
      refine ⟨d, g, hcoarsest, hd, .inr ?_⟩
      rcases hcoarser with rfl | hwidth
      · have hnext : ((n : Int) - places + 1) = (n + 1 : Nat) - places := by omega
        rw [hnext]
        exact width_le_of_none hv hpick
      · exact hwidth

end Interval

open Halfway (half half_pos)

/-- An end of an interval is a halfway point. It is half a step away from the value, and the
other end is not much nearer. -/
structure HalfwayEnd (e own other : ℚ) (k m : Nat) : Prop where
  scale_lt : k < 254
  lt : m < 2 ^ 25
  odd : m % 2 = 1
  eq : e = m * half k
  own_eq : own = half k
  le_other : half k / 2 ≤ other

/-- A decimal that has been picked is an end, or not very near to it, or an exception. -/
theorem HalfwayEnd.apart {e own other t : ℚ} {k m d : Nat} {g : Int}
    (h : HalfwayEnd e own other k m)
    (ht : t ≤ 0 ∨ t ≤ 10 ^ g / 2 ∨ t ≤ 10 ^ g - other)
    (hdistance : |d * 10 ^ g - e| = |own - t|) :
    (d * 10 ^ g : ℚ) = e ∨ e < |d * 10 ^ g - e| * 2 ^ 51 ∨ d ∈ Halfway.nearest ∧ g = -32 := by
  have hpos := half_pos k
  have hown := h.own_eq
  have hother := h.le_other
  rcases le_or_gt ((10 : ℚ) ^ g) (477 / 320 * half k) with hfine | hcoarse
  · -- On a fine grid the decimal keeps away from the end.
    have haway : 3 / 320 * half k ≤ own - t := by
      rcases ht with ht | ht | ht <;> linarith
    have hm : (m : ℚ) * half k ≤ 2 ^ 25 * half k :=
      mul_le_mul_of_nonneg_right (by exact_mod_cast h.lt.le) hpos.le
    refine .inr (.inl ?_)
    rw [hdistance, abs_of_pos (by linarith), h.eq]
    linarith
  · rw [h.eq]
    exact Halfway.apart_of_coarse h.scale_lt h.lt h.odd hcoarse d

end ShaderAlgebra.Decimal
