import Mathlib.Algebra.BigOperators.Field
import Mathlib.Algebra.BigOperators.Intervals
import ShaderAlgebra.Proofs.Binary.Error
import ShaderAlgebra.Proofs.Evaluation.BitReversal

/-!
# The radical inverse

The radical inverse of a word has its binary digits in reverse order behind the
point. It is the word of the reversed bits in units of `2 ^ -32`. The sequence
computes it exactly wherever the words are converted and multiplied exactly.
-/

namespace ShaderAlgebra

/-- The binary digits of `n` behind the point, the lowest one first. -/
def radicalInverse (n : UInt32) : ℚ :=
  ∑ i ∈ Finset.range 32, if n.toNat.testBit i then 1 / 2 ^ (i + 1) else 0

/-- The low digits of a number make up its remainder. -/
theorem sum_testBit (n k : Nat) :
    ∑ i ∈ Finset.range k, (if n.testBit i then 2 ^ i else 0) = n % 2 ^ k := by
  induction k with
  | zero => simp [Nat.mod_one]
  | succ k ih =>
    rw [Finset.sum_range_succ, ih, pow_succ, Nat.mod_mul, Nat.testBit_eq_decide_div_mod_eq]
    rcases Nat.mod_two_eq_zero_or_one (n / 2 ^ k) with h | h <;> simp [h]

theorem toNat_reversed (n : UInt32) :
    (reversed n).toNat =
      ∑ i ∈ Finset.range 32, if n.toNat.testBit i then 2 ^ (31 - i) else 0 := by
  calc (reversed n).toNat
      = ∑ i ∈ Finset.range 32, (if (reversed n).toNat.testBit i then 2 ^ i else 0) := by
        rw [sum_testBit, Nat.mod_eq_of_lt (reversed n).toNat_lt]
    _ = ∑ i ∈ Finset.range 32,
          (if (reversed n).toNat.testBit (31 - i) then 2 ^ (31 - i) else 0) :=
        (Finset.sum_range_reflect _ 32).symm
    _ = _ := Finset.sum_congr rfl fun i hi => by rw [testBit_reversed n (Finset.mem_range.1 hi)]

theorem radicalInverse_eq (n : UInt32) : radicalInverse n = (reversed n).toNat / 2 ^ 32 := by
  rw [toNat_reversed, radicalInverse, Nat.cast_sum, Finset.sum_div]
  refine Finset.sum_congr rfl fun i hi => ?_
  have hsplit : (2 : ℚ) ^ 32 = 2 ^ (31 - i) * 2 ^ (i + 1) := by
    rw [← pow_add]
    congr 1
    have hi := Finset.mem_range.1 hi
    omega
  split
  · rw [hsplit, Nat.cast_pow, Nat.cast_ofNat, div_mul_eq_div_div, div_self (by positivity)]
  · rw [Nat.cast_zero, zero_div]

theorem radicalInverse_nonneg (n : UInt32) : 0 ≤ radicalInverse n := by
  rw [radicalInverse_eq]
  positivity

theorem radicalInverse_lt_one (n : UInt32) : radicalInverse n < 1 := by
  have hlt : ((reversed n).toNat : ℚ) < 2 ^ 32 := by exact_mod_cast (reversed n).toNat_lt
  rwa [radicalInverse_eq, div_lt_one (by positivity)]

theorem radicalInverse_injective : Function.Injective radicalInverse := by
  intro n m h
  rw [radicalInverse_eq, radicalInverse_eq, div_left_inj' (by positivity), Nat.cast_inj] at h
  exact reversed_injective (UInt32.toNat_inj.1 h)

/-- Words become floats, and floats are multiplied, without any rounding. -/
structure Primitives.HasExactFloats {D : Type} (P : Primitives D) (word : UInt32 → D)
    (number : ℚ → D) : Prop where
  constant : ∀ x : Single, x.isFinite → P.number x = number x.value
  toFloat : ∀ n, P.unary .toFloat (word n) = number n.toNat
  mul : ∀ a b, P.mul (number a) (number b) = number (a * b)

namespace Formula

open ShaderAlgebra.Expr Build

variable {fails : Failure → Prop} {bits out : Expr}

def unitScale : Single := .ofRatio .single false 1 UInt32.size

theorem isFinite_unitScale : unitScale.isFinite := by decide +kernel

theorem size_unitScale : unitScale.size = 1 / 2 ^ 32 := by
  have hunit : Binary.Format.single.unitBits = 149 := rfl
  have hword : (UInt32.size : ℚ) = 2 ^ 32 := by norm_num
  have hdigits : ((1 : Nat) / UInt32.size : ℚ) * 2 ^ Binary.Format.single.unitBits =
      (1 : Nat) * 2 ^ 117 := by
    rw [hunit, hword]
    norm_num
  have hsize : unitScale.size = (1 : Nat) / UInt32.size :=
    Word.size_ofRatio (by decide) (by decide) isFinite_unitScale (by decide) hdigits
  rw [hsize, hword, Nat.cast_one]

theorem value_unitScale : unitScale.value = 1 / 2 ^ 32 := by
  have hsign : unitScale.negative = false := Word.negative_ofRatio
  rw [Word.value, hsign, if_neg (by decide), size_unitScale]

/-- The bits in reverse order, converted to a float and scaled. -/
def ScalesReversal (bits out : Expr) : Prop :=
  ∃ i j k rev, out = .binary i .mul (.unary j .toFloat rev)
      (.leaf k (.constant (.float unitScale))) ∧
    ∀ D (P : Primitives D) (env : Environment D),
      HasLanes P env .uint (fun _ => P.reverseBits (bits.lane P env 0)) rev

theorem vanDerCorputSequence_scalesReversal (hbits : bits.type = .uint) :
    Meets fails (vanDerCorputSequence bits) (ScalesReversal bits) := by
  have hreversed : Meets fails (reverseBits bits) fun rev =>
      ∀ D (P : Primitives D) (env : Environment D),
        HasLanes P env .uint (fun _ => P.reverseBits (bits.lane P env 0)) rev :=
    Meets.forall_domains fun D P env => by
      refine reverseBits_lanes ⟨hbits, fun i hi => ?_⟩
      rw [Nat.lt_one_iff.1 hi]
  have hnumber (rev : Expr) : Meets fails (unary .toFloat rev) fun e =>
      ∃ j, e = .unary j .toFloat rev := Meets.node fun j => ⟨j, rfl⟩
  have hscale : Meets fails (constant (.float unitScale)) fun e =>
      ∃ k, e = .leaf k (.constant (.float unitScale)) := Meets.node fun k => ⟨k, rfl⟩
  unfold vanDerCorputSequence
  rw [hbits, if_neg (by decide)]
  apply hreversed.bind
  intro rev hrev
  apply (hnumber rev).bind
  rintro _ ⟨j, rfl⟩
  apply hscale.bind
  rintro _ ⟨k, rfl⟩
  exact Meets.node fun i => ⟨i, j, k, rev, rfl, hrev⟩

theorem ScalesReversal.lane_eq (h : ScalesReversal bits out) {D : Type} {P : Primitives D}
    {env : Environment D} {word : UInt32 → D} (hwords : P.HasWords word) {n : UInt32}
    (hn : bits.lane P env 0 = word n) :
    out.lane P env 0 = P.mul (P.unary .toFloat (word (reversed n))) (P.number unitScale) := by
  obtain ⟨i, j, k, rev, rfl, hrev⟩ := h
  have hlane : rev.lane P env 0 = word (reversed n) := by
    rw [(hrev D P env).2 0 Nat.one_pos, hn, P.reverseBits_word hwords]
  rw [← hlane]
  rfl

/-- A float that is the radical inverse of an unsigned integer: an expression converted from the
bits in reverse order, and as a whole the radical inverse wherever floats are exact. -/
structure IsRadicalInverse (bits out : Expr) : Prop where
  type_eq : out.type = .float
  reverses : ∃ i j rev scale, out = .binary i .mul (.unary j .toFloat rev) scale ∧
    rev.type = .uint ∧ ∀ (D : Type) (P : Primitives D) (env : Environment D) (word : UInt32 → D),
      P.HasWords word → ∀ n, bits.lane P env 0 = word n → ∃ r, rev.lane P env 0 = word r ∧
        ∀ i < 32, r.toNat.testBit (31 - i) = n.toNat.testBit i
  exact : ∀ (D : Type) (P : Primitives D) (env : Environment D) (word : UInt32 → D)
    (number : ℚ → D), P.HasWords word → P.HasExactFloats word number →
      ∀ n, bits.lane P env 0 = word n → out.lane P env 0 = number (radicalInverse n)

theorem ScalesReversal.isRadicalInverse (h : ScalesReversal bits out) :
    IsRadicalInverse bits out := by
  have hexact (D : Type) (P : Primitives D) (env : Environment D) (word : UInt32 → D)
      (number : ℚ → D) (hwords : P.HasWords word) (hfloats : P.HasExactFloats word number)
      (n : UInt32) (hn : bits.lane P env 0 = word n) :
      out.lane P env 0 = number (radicalInverse n) := by
    rw [h.lane_eq hwords hn, hfloats.toFloat, hfloats.constant _ isFinite_unitScale,
      value_unitScale, hfloats.mul, mul_one_div, radicalInverse_eq]
  obtain ⟨i, j, k, rev, rfl, hrev⟩ := h
  refine ⟨rfl, ⟨i, j, rev, _, rfl, (hrev Unit .unit .unit).1, ?_⟩, hexact⟩
  intro D P env word hwords n hn
  refine ⟨reversed n, ?_, fun i hi => testBit_reversed n hi⟩
  rw [(hrev D P env).2 0 Nat.one_pos, hn, P.reverseBits_word hwords]

/-- The sequence is the radical inverse of its operand, in the unit range and different for
different operands. -/
theorem vanDerCorputSequence_isRadicalInverse (bits : Expr) (hbits : bits.type = .uint)
    (next : Nat) :
    (∃ out, ((vanDerCorputSequence bits).runFrom next).1 = .ok out ∧ IsRadicalInverse bits out) ∧
    (∀ n, 0 ≤ radicalInverse n ∧ radicalInverse n < 1) ∧
    ∀ n m, radicalInverse n = radicalInverse m → n = m :=
  ⟨((vanDerCorputSequence_scalesReversal hbits).imp fun _ h => h.isRadicalInverse).exists_ok next,
    fun n => ⟨radicalInverse_nonneg n, radicalInverse_lt_one n⟩,
    fun _ _ h => radicalInverse_injective h⟩

def position : Expr := .leaf 0 (.input .uint "n")

def positionAt {D : Type} (d : D) : Environment D := ⟨fun _ _ _ => d, d⟩

/-- The digits of six are `110`, and its radical inverse is `0.011`. -/
theorem vanDerCorputSequence_isRadicalInverse_six :
    ∃ out, ((vanDerCorputSequence position).runFrom 1).1 = .ok out ∧
      out.lane (.ofWords Word.value (fun n => (n.toNat : ℚ)) (· * ·)) (positionAt (.inl 6)) 0 =
        .inr (3 / 8) := by
  obtain ⟨⟨out, hrun, hout⟩, -⟩ := vanDerCorputSequence_isRadicalInverse position rfl 1
  refine ⟨out, hrun, ?_⟩
  have hvalue : radicalInverse 6 = 3 / 8 := by decide +kernel
  rw [← hvalue]
  exact hout.exact _ _ (positionAt (.inl 6)) _ .inr (Primitives.hasWords_ofWords _ _ _)
    ⟨fun _ _ => rfl, fun _ => rfl, fun _ _ => rfl⟩ 6 rfl

end Formula

end ShaderAlgebra
