import Mathlib.Algebra.Order.Field.Power
import Mathlib.Tactic.FieldSimp
import Mathlib.Tactic.Linarith
import Mathlib.Tactic.LinearCombination
import Mathlib.Tactic.NormNum
import Mathlib.Tactic.Ring

/-!
# Decimals near halfway points

Halfway between two neighbouring 32-bit floats lies an odd number below `2 ^ 25`
of half steps `2 ^ (k - 150)`. A decimal with few digits is either such a halfway
point itself or not very near to one: this is decided for each of the 254 steps.

The decimals and the halfway points of one step are pairs of integers, and their
distance is a linear form on these pairs. A certificate consists of two pairs
that span all pairs, on both sides of zero of the form. Only multiples of the
first one can then come near to zero. The pairs are found by the Euclidean
algorithm, which need not be trusted: what they prove is checked.
-/

namespace ShaderAlgebra.Decimal.Halfway

/-! ### Two pairs of integers that span all pairs -/

section Span

variable {a c q p q' p' d m x y u u' : ℤ}

theorem add_le_abs_of_opposite (hx : 1 ≤ |x|) (hy : 1 ≤ |y|) (hxy : x * y ≤ 0)
    (hu : u * u' ≤ 0) : |u| + |u'| ≤ |x * u + y * u'| := by
  have hsame : 0 ≤ x * u * (y * u') := by
    rw [mul_mul_mul_comm]
    exact mul_nonneg_of_nonpos_of_nonpos hxy hu
  rw [abs_add_eq_add_abs_iff _ _ |>.2 (mul_nonneg_iff.1 hsame), abs_mul, abs_mul]
  exact add_le_add (le_mul_of_one_le_left (abs_nonneg u) hx)
    (le_mul_of_one_le_left (abs_nonneg u') hy)

/-- A pair whose first number is small is a multiple of the first spanning pair, or else the
form is at least as far from zero there as at both spanning pairs together. -/
theorem multiple_or_far (hdet : q * p' - q' * p = 1 ∨ q * p' - q' * p = -1)
    (hsign : (q * a - p * c) * (q' * a - p' * c) ≤ 0) (hq : 0 ≤ q) (hd : 0 ≤ d) (hdq : d < q') :
    (∃ x, d = x * q ∧ m = x * p) ∨
      |q * a - p * c| + |q' * a - p' * c| ≤ |d * a - m * c| := by
  obtain ⟨x, y, hdxy, hmxy⟩ : ∃ x y, d = x * q + y * q' ∧ m = x * p + y * p' := by
    rcases hdet with hdet | hdet
    · exact ⟨d * p' - m * q', m * q - d * p, by linear_combination -d * hdet,
        by linear_combination -m * hdet⟩
    · exact ⟨m * q' - d * p', d * p - m * q, by linear_combination d * hdet,
        by linear_combination m * hdet⟩
  by_cases hy : y = 0
  · exact .inl ⟨x, by simp [hdxy, hy], by simp [hmxy, hy]⟩
  · have hform : d * a - m * c = x * (q * a - p * c) + y * (q' * a - p' * c) := by
      rw [hdxy, hmxy]
      ring
    -- The first number is between zero and `q'`, so the two factors have opposite signs.
    have hopposite : x ≠ 0 ∧ x * y ≤ 0 := by
      rcases lt_or_gt_of_ne hy with hneg | hpos
      · have hx : 0 < x := by
          by_contra hx
          nlinarith
        exact ⟨hx.ne', by nlinarith⟩
      · have hx : x < 0 := by
          by_contra hx
          nlinarith
        exact ⟨hx.ne, by nlinarith⟩
    rw [hform]
    exact .inr (add_le_abs_of_opposite (Int.one_le_abs hopposite.1) (Int.one_le_abs hy)
      hopposite.2 hsign)

end Span

/-! ### Certificates -/

/-- A step `10 ^ (grid - 46)` of a decimal grid, in a measure in which it is whole. -/
def gridStep (grid : Nat) : Nat := 10 ^ (grid - 46) * 2 ^ 150

/-- Half a step `2 ^ (k - 150)` between floats, in the same measure. -/
def halfStep (k grid : Nat) : Nat := 2 ^ k * 10 ^ (46 - grid)

/-- By how much `d` steps of a grid exceed `m` half steps. -/
def excess (k grid d m : Nat) : Int := d * gridStep grid - m * halfStep k grid

/-- The coarsest grid that matters for a step between floats, and two pairs of a number of
grid steps and a number of half steps. -/
structure Certificate where
  grid : Nat
  q : Nat
  p : Nat
  q' : Nat
  p' : Nat

/-- The first numbers of the only two pairs that do come near to zero. -/
def nearest : List Nat := [7038531, 14077062]

/-- What is checked of a certificate for the half steps `2 ^ (k - 150)`. -/
structure Certificate.Valid (k : Nat) (c : Certificate) : Prop where
  det : (c.q * c.p' - c.q' * c.p : Int) = 1 ∨ (c.q * c.p' - c.q' * c.p : Int) = -1
  opposite : excess k c.grid c.q c.p * excess k c.grid c.q' c.p' ≤ 0
  large : (2 ^ 25 + 1) * halfStep k c.grid ≤ c.q' * gridStep c.grid
  far : halfStep k c.grid < (|excess k c.grid c.q c.p| + |excess k c.grid c.q' c.p'|) * 2 ^ 26
  multiples : excess k c.grid c.q c.p = 0 ∨
    c.p * halfStep k c.grid < |excess k c.grid c.q c.p| * 2 ^ 51 ∨
    c.p % 2 = 0 ∨ 2 ^ 25 ≤ c.p ∨ c.q ∈ nearest ∧ c.grid = 14 ∧ 2 ^ 24 ≤ c.p
  coarse : 32 * gridStep c.grid ≤ 477 * halfStep k c.grid

instance (k : Nat) (c : Certificate) : Decidable (c.Valid k) :=
  decidable_of_iff (_ ∧ _ ∧ _ ∧ _ ∧ _ ∧ _)
    ⟨fun ⟨h₁, h₂, h₃, h₄, h₅, h₆⟩ => ⟨h₁, h₂, h₃, h₄, h₅, h₆⟩,
      fun ⟨h₁, h₂, h₃, h₄, h₅, h₆⟩ => ⟨h₁, h₂, h₃, h₄, h₅, h₆⟩⟩

/-- The Euclidean algorithm on the two steps, from two successive pairs `(q, p)` and their
remainders on; it stops before a first number that is too large, at the least such one. -/
def euclid (a c : Nat) (grid : Nat) :
    (fuel : Nat) → (q p u q' p' u' : Nat) → Certificate
  | 0, q, p, _, q', p', _ => ⟨grid, q, p, q', p'⟩
  | fuel + 1, q, p, u, q', p', u' =>
    if u' = 0 ∨ (2 ^ 25 + 1) * c ≤ (q + u / u' * q') * a then
      let times := (((2 ^ 25 + 1) * c + a - 1) / a - q + q' - 1) / q'
      ⟨grid, q', p', q + times * q', p + times * p'⟩
    else euclid a c grid fuel q' p' u' (q + u / u' * q') (p + u / u' * p') (u % u')

/-- The certificate for half steps `2 ^ (k - 150)`: the grid is the finest one with steps of
three half steps at least. -/
def certificate (k : Nat) : Certificate :=
  let grid := (List.range 90).findIdx fun grid => 3 * halfStep k grid ≤ 2 * gridStep grid
  let a := gridStep grid
  let c := halfStep k grid
  euclid a c grid 30 0 1 c 1 (a / c) (a % c)

theorem valid_certificate : ∀ k < 254, (certificate k).Valid k := by
  decide +kernel

section Distance

variable {k d m : Nat} {c : Certificate}

theorem halfStep_pos (k grid : Nat) : 0 < halfStep k grid :=
  Nat.mul_pos (Nat.two_pow_pos k) (Nat.pow_pos (by decide))

theorem excess_mul {x : Int} {q p : Nat} {grid : Nat} (hd : (d : Int) = x * q)
    (hm : (m : Int) = x * p) : excess k grid d m = x * excess k grid q p := by
  unfold excess
  rw [hd, hm]
  ring

/-- A multiple of the first pair with an odd second number. -/
theorem Certificate.Valid.apart_of_multiple (h : c.Valid k) (hm : m < 2 ^ 25) (hodd : m % 2 = 1)
    {x : Int} (hd : (d : Int) = x * c.q) (hp : (m : Int) = x * c.p) :
    excess k c.grid d m = 0 ∨ m * halfStep k c.grid < |excess k c.grid d m| * 2 ^ 51 ∨
      d ∈ nearest ∧ c.grid = 14 := by
  have hx : 0 < x := by
    by_contra hx
    have hle : x * c.p ≤ 0 := mul_nonpos_of_nonpos_of_nonneg (not_lt.1 hx) (Int.natCast_nonneg _)
    omega
  have hmultiple : c.p ≤ m := by
    have hle : 1 * (c.p : Int) ≤ x * c.p := mul_le_mul_of_nonneg_right hx (Int.natCast_nonneg _)
    omega
  rw [excess_mul hd hp]
  rcases h.multiples with hzero | hshare | heven | hlarge | ⟨hmem, hgrid, hhalf⟩
  · exact .inl (by rw [hzero, mul_zero])
  · refine .inr (.inl ?_)
    rw [abs_mul, abs_of_pos hx, hp, mul_assoc, mul_assoc]
    exact mul_lt_mul_of_pos_left hshare hx
  · obtain ⟨j, hj⟩ : 2 ∣ c.p := Nat.dvd_of_mod_eq_zero heven
    rw [hj, Nat.cast_mul, mul_left_comm] at hp
    omega
  · omega
  · -- Twice the pair would have too large a second number.
    have hone : x = 1 := by
      by_contra hne
      have hle : 2 * (c.p : Int) ≤ x * c.p :=
        mul_le_mul_of_nonneg_right (by omega) (Int.natCast_nonneg _)
      omega
    rw [hone, one_mul] at hd
    exact .inr (.inr ⟨by rwa [Int.natCast_inj.1 hd], hgrid⟩)

/-- Decimals on the grid of a certificate are halfway points, or not very near to them. -/
theorem Certificate.Valid.apart (h : c.Valid k) (hm : m < 2 ^ 25) (hodd : m % 2 = 1) (d : Nat) :
    excess k c.grid d m = 0 ∨ m * halfStep k c.grid < |excess k c.grid d m| * 2 ^ 51 ∨
      d ∈ nearest ∧ c.grid = 14 := by
  have hpos : (0 : Int) < halfStep k c.grid := by exact_mod_cast halfStep_pos k c.grid
  have hmcast : (m : Int) < 2 ^ 25 := by exact_mod_cast hm
  rcases Nat.lt_or_ge d c.q' with hsmall | hlarge
  · rcases multiple_or_far (m := m) h.det h.opposite (Int.natCast_nonneg c.q)
      (Int.natCast_nonneg d) (by exact_mod_cast hsmall) with ⟨x, hd, hp⟩ | hfar
    · exact h.apart_of_multiple hm hodd hd hp
    · have hcertified := h.far
      change |excess k c.grid c.q c.p| + |excess k c.grid c.q' c.p'| ≤ |excess k c.grid d m| at hfar
      refine .inr (.inl ?_)
      calc (m : Int) * halfStep k c.grid ≤ 2 ^ 25 * halfStep k c.grid :=
            mul_le_mul_of_nonneg_right hmcast.le hpos.le
        _ < |excess k c.grid d m| * 2 ^ 51 := by omega
  · have hlargeCast : (2 ^ 25 + 1) * (halfStep k c.grid : Int) ≤ c.q' * gridStep c.grid := by
      exact_mod_cast h.large
    have hle : (c.q' * gridStep c.grid : Int) ≤ d * gridStep c.grid := by
      exact_mod_cast Nat.mul_le_mul_right _ hlarge
    have hproduct : (m : Int) * halfStep k c.grid ≤ 2 ^ 25 * halfStep k c.grid :=
      mul_le_mul_of_nonneg_right hmcast.le hpos.le
    have hexcess : (halfStep k c.grid : Int) ≤ excess k c.grid d m := by
      unfold excess
      omega
    have habs := le_abs_self (excess k c.grid d m)
    refine .inr (.inl ?_)
    omega

end Distance

/-! ### Decimals and halfway points as rationals -/

section Rational

variable {k grid d m : Nat} {g : Int}

def half (k : Nat) : ℚ := 2 ^ k / 2 ^ 150

theorem half_pos (k : Nat) : 0 < half k := div_pos (by positivity) (by positivity)

/-- The measure in which the steps of a grid and of the floats are whole. -/
def measure (grid : Nat) : ℚ := 2 ^ 150 * 10 ^ (46 - grid)

theorem measure_pos (grid : Nat) : 0 < measure grid := by
  unfold measure
  positivity

theorem gridStep_eq (grid : Nat) : (10 : ℚ) ^ (grid - 46 : Int) * measure grid = gridStep grid := by
  have hexponent : (10 : ℚ) ^ (grid - 46 : Int) * 10 ^ (46 - grid) = 10 ^ (grid - 46) := by
    rw [← zpow_natCast, ← zpow_natCast, ← zpow_add₀ (by norm_num)]
    congr 1
    omega
  rw [measure, gridStep, mul_left_comm, hexponent]
  push_cast
  ring

theorem halfStep_eq (k grid : Nat) : half k * measure grid = halfStep k grid := by
  rw [half, measure, halfStep, ← mul_assoc, div_mul_cancel₀ _ (by positivity)]
  push_cast
  rfl

theorem excess_eq (k grid d m : Nat) (n : Nat) :
    (((d * 10 ^ n : Nat) : ℚ) * 10 ^ (grid - 46 : Int) - m * half k) * measure grid =
      excess k grid (d * 10 ^ n) m := by
  rw [sub_mul, mul_assoc, gridStep_eq, mul_assoc, halfStep_eq, excess]
  push_cast
  rfl

theorem eq_one_of_mem_nearest {n : Nat} (h : d * 10 ^ n ∈ nearest) : n = 0 := by
  have hlast : ∀ x ∈ nearest, x % 10 ≠ 0 := by decide
  by_contra hn
  obtain ⟨i, rfl⟩ := Nat.exists_eq_succ_of_ne_zero hn
  refine hlast _ h ?_
  rw [Nat.pow_succ, ← Nat.mul_assoc, Nat.mul_mod_left]

/-- The steps of all finer grids are shorter than three half steps, by a fixed share. -/
theorem Certificate.Valid.pow_le {c : Certificate} (h : c.Valid k) (hg : g ≤ c.grid - 46 - 1) :
    (10 : ℚ) ^ g ≤ 477 / 320 * half k := by
  have hpos := measure_pos c.grid
  have hcoarse : (32 * gridStep c.grid : ℚ) ≤ 477 * halfStep k c.grid := by exact_mod_cast h.coarse
  rw [← gridStep_eq, ← halfStep_eq] at hcoarse
  have hstep : (32 * 10 ^ (c.grid - 46 : Int) : ℚ) ≤ 477 * half k := by
    refine le_of_mul_le_mul_right ?_ hpos
    linarith
  calc (10 : ℚ) ^ g ≤ 10 ^ (c.grid - 46 - 1 : Int) := zpow_le_zpow_right₀ (by norm_num) hg
    _ = 10 ^ (c.grid - 46 : Int) / 10 := by rw [zpow_sub_one₀ (by norm_num), div_eq_mul_inv]
    _ ≤ 477 / 320 * half k := by linarith

/-- A decimal on a coarse grid is a halfway point between floats, or differs from it by more
than its share `2 ^ -51`, or is one of the two exceptions. -/
theorem apart_of_coarse (hk : k < 254) (hm : m < 2 ^ 25) (hodd : m % 2 = 1)
    (hg : 477 / 320 * half k < 10 ^ g) (d : Nat) :
    (d * 10 ^ g : ℚ) = m * half k ∨
      (m * half k : ℚ) < |(d * 10 ^ g - m * half k : ℚ)| * 2 ^ 51 ∨
      d ∈ nearest ∧ g = -32 := by
  have hvalid := valid_certificate k hk
  generalize certificate k = c at hvalid
  have hpos := measure_pos c.grid
  obtain ⟨n, rfl⟩ : ∃ n : Nat, g = c.grid - 46 + n := by
    by_contra hnone
    have hfine : g ≤ c.grid - 46 - 1 := by
      by_contra hle
      exact hnone ⟨(g - (c.grid - 46)).toNat, by omega⟩
    exact not_le.2 hg (hvalid.pow_le hfine)
  have hdecimal : (d * 10 ^ (c.grid - 46 + n : Int) : ℚ) =
      ((d * 10 ^ n : Nat) : ℚ) * 10 ^ (c.grid - 46 : Int) := by
    rw [zpow_add₀ (by norm_num), zpow_natCast]
    push_cast
    ring
  have hexcess := excess_eq k c.grid d m n
  rw [hdecimal]
  rcases hvalid.apart hm hodd (d * 10 ^ n) with hzero | hfar | ⟨hmem, hgrid⟩
  · rw [hzero, Int.cast_zero, mul_eq_zero, or_iff_left hpos.ne', sub_eq_zero] at hexcess
    exact .inl hexcess
  · refine .inr (.inl ?_)
    have hcast : (m * halfStep k c.grid : ℚ) < |(excess k c.grid (d * 10 ^ n) m : ℚ)| * 2 ^ 51 := by
      exact_mod_cast hfar
    rw [← hexcess, abs_mul, abs_of_pos hpos, ← halfStep_eq] at hcast
    refine lt_of_mul_lt_mul_right ?_ hpos.le
    linarith
  · obtain rfl := eq_one_of_mem_nearest hmem
    refine .inr (.inr ⟨by simpa using hmem, ?_⟩)
    rw [hgrid]
    norm_num

end Rational

end ShaderAlgebra.Decimal.Halfway
