import ShaderAlgebra.Proofs.Evaluation.RadicalInverse

/-!
# The sequence in rounded arithmetic

A single has 24 significant digits, so that words near `2 ^ 32` are rounded to it,
and their product with `2 ^ -32` is one. Below, the product stays under one.
-/

namespace ShaderAlgebra

open Binary (Format)

/-- Words become the nearest floats, and products of floats are rounded. -/
structure Primitives.HasRoundedFloats {D : Type} (P : Primitives D) (word : UInt32 → D)
    (number : Single → D) : Prop where
  constant : ∀ x, P.number x = number x
  toFloat : ∀ n, P.unary .toFloat (word n) = number (Word.ofNat .single n.toNat)
  mul : ∀ a b, P.mul (number a) (number b) = number (a * b)

namespace Formula

open ShaderAlgebra.Expr Build

/-- The float of the reversed bits, scaled. -/
def roundedInverse (n : UInt32) : Single := Word.ofNat .single (reversed n).toNat * unitScale

/-- The magnitude of `2 ^ 32`. -/
def wordEnd : Nat := 159 * 2 ^ 23

def unity : Nat := 127 * 2 ^ 23

theorem units_wordEnd : Format.single.units wordEnd = 2 ^ 181 := by decide +kernel

theorem lowerEnd_wordEnd : Format.single.lowerEnd wordEnd = (2 ^ 32 - 2 ^ 7) * 2 ^ 151 := by
  decide +kernel

theorem upperEnd_wordEnd : 2 ^ 183 ≤ Format.single.upperEnd wordEnd := by decide +kernel

theorem units_unity : Format.single.units unity = 2 ^ 149 := by decide +kernel

theorem units_pred_wordEnd :
    Format.single.units (wordEnd - 1) = 2 ^ 32 * Format.single.units (unity - 1) := by
  decide +kernel

variable {r : Nat}

theorem isFinite_ofNat_word (hr : r < 2 ^ 32) : (Word.ofNat .single r).isFinite :=
  Word.isFinite_ofRatio (j := 32) ⟨by decide, by decide⟩ Nat.one_pos (by rwa [Nat.one_mul])

theorem nearest_ofNat_word (hr : r < 2 ^ 32) :
    Format.single.Nearest (Word.ofNat .single r).magnitude r := by
  have hnearest := Word.nearest_ofRatio (f := .single) (by decide) Nat.one_pos
    (isFinite_ofNat_word hr)
  rwa [Nat.cast_one, div_one] at hnearest

theorem quarters_nat (r : Nat) :
    (r : ℚ) * (4 <<< Format.single.unitBits : Nat) = (r * 2 ^ 151 : Nat) := by
  have hunit : 4 <<< Format.single.unitBits = 2 ^ 151 := by decide +kernel
  rw [hunit]
  push_cast
  rfl

theorem magnitude_ofNat_word_le (hr : r < 2 ^ 32) :
    (Word.ofNat .single r).magnitude ≤ wordEnd := by
  have hunit : Format.single.unitBits = 149 := rfl
  apply (nearest_ofNat_word hr).le_of_le
  have hle : r * 2 ^ 149 ≤ 2 ^ 181 := by omega
  rw [units_wordEnd, hunit]
  exact_mod_cast hle

/-- The words that are rounded to `2 ^ 32` are those within half a last place of it. -/
theorem magnitude_ofNat_word_eq_iff (hr : r < 2 ^ 32) :
    (Word.ofNat .single r).magnitude = wordEnd ↔ 2 ^ 32 - 2 ^ 7 ≤ r := by
  have hnearest := nearest_ofNat_word hr
  constructor
  · intro heq
    have hlower := hnearest.lower_le
    rw [heq, lowerEnd_wordEnd, quarters_nat, Nat.cast_le] at hlower
    exact Nat.le_of_mul_le_mul_right hlower (Nat.two_pow_pos 151)
  · intro hle
    -- The midpoint below `2 ^ 32` is a tie, which goes to the even magnitude.
    have heven : wordEnd % 2 = 0 := by decide
    refine hnearest.unique ⟨?_, ?_, fun _ => heven⟩
    · rw [lowerEnd_wordEnd, quarters_nat, Nat.cast_le]
      exact Nat.mul_le_mul_right _ hle
    · rw [quarters_nat, Nat.cast_le]
      refine Nat.le_trans ?_ upperEnd_wordEnd
      omega

theorem isFinite_of_magnitude_le {w : Single} (h : w.magnitude ≤ unity) : w.isFinite := by
  rw [Word.isFinite, decide_eq_true_eq]
  exact Nat.lt_of_le_of_lt h (by decide)

theorem size_eq (w : Single) :
    w.size = Format.single.units w.magnitude / Format.single.units unity := by
  rw [units_unity, Nat.cast_pow, Nat.cast_ofNat]
  rfl

theorem size_le_one {w : Single} (h : w.magnitude ≤ unity) : w.size ≤ 1 := by
  rw [size_eq]
  exact div_le_one_of_le₀ (Nat.cast_le.2 (Format.units_le_units h)) (Nat.cast_nonneg _)

theorem size_eq_one_iff (w : Single) : w.size = 1 ↔ w.magnitude = unity := by
  have hone : (Format.single.units unity : ℚ) ≠ 0 := by
    rw [units_unity, Nat.cast_pow]
    positivity
  rw [size_eq, div_eq_one_iff_eq hone, Nat.cast_inj, Format.units_inj]

theorem mul_unitScale_of_eq {x : Single} (h : x.magnitude = wordEnd) :
    (x * unitScale).magnitude = unity := by
  have hunit : Format.single.unitBits = 149 := rfl
  have hfinite : x.isFinite := by
    rw [Word.isFinite, h]
    decide
  have hsize : x.size = 2 ^ 32 := by
    rw [Word.size, Word.units, h, units_wordEnd, hunit]
    norm_num
  have hproduct : x.size * unitScale.size = 1 := by
    rw [hsize, size_unitScale]
    norm_num
  apply Word.magnitude_mul_eq (by decide) hfinite isFinite_unitScale (by decide)
  apply Format.nearest_of_units
  · rw [units_unity]
    exact Nat.two_pow_pos 149
  · rw [hproduct, one_mul, units_unity, hunit, Nat.cast_pow, Nat.cast_ofNat]

/-- The product with the greatest float below `2 ^ 32` is the greatest one below one. -/
theorem mul_unitScale_of_lt {x : Single} (h : x.magnitude < wordEnd) :
    (x * unitScale).magnitude < unity := by
  have hfinite : x.isFinite := by
    rw [Word.isFinite, decide_eq_true_eq]
    exact Nat.lt_trans h (by decide)
  have hunits : x.units ≤ 2 ^ 32 * Format.single.units (unity - 1) := by
    rw [← units_pred_wordEnd]
    exact Format.units_le_units (Nat.le_sub_one_of_lt h)
  have hcast : (x.units : ℚ) ≤ Format.single.units (unity - 1) * 2 ^ 32 := by
    rw [mul_comm]
    exact_mod_cast hunits
  have hle : (x * unitScale).magnitude ≤ unity - 1 := by
    apply Word.magnitude_mul_le (by decide) hfinite isFinite_unitScale
    rwa [Word.size, size_unitScale, div_mul_eq_mul_div, div_mul_cancel₀ _ (by positivity),
      mul_one_div, div_le_iff₀ (by positivity)]
  exact Nat.lt_of_le_of_lt hle (by decide)

/-- A word that is rounded to `2 ^ 32` is scaled to one, and all others to less. -/
theorem magnitude_mul_unitScale (hr : r < 2 ^ 32) :
    (Word.ofNat .single r * unitScale).magnitude ≤ unity ∧
      ((Word.ofNat .single r * unitScale).magnitude = unity ↔ 2 ^ 32 - 2 ^ 7 ≤ r) := by
  rw [← magnitude_ofNat_word_eq_iff hr]
  rcases Nat.lt_or_eq_of_le (magnitude_ofNat_word_le hr) with hlt | heq
  · have hless := mul_unitScale_of_lt hlt
    exact ⟨hless.le, iff_of_false hless.ne hlt.ne⟩
  · have hone := mul_unitScale_of_eq heq
    exact ⟨hone.le, iff_of_true hone heq⟩

/-- A number has only ones for digits if it is the greatest one with so many digits. -/
theorem eq_two_pow_sub_one_iff {m k : Nat} (h : m < 2 ^ k) :
    m = 2 ^ k - 1 ↔ ∀ i < k, m.testBit i = true := by
  constructor
  · rintro rfl i hi
    rw [Nat.testBit_two_pow_sub_one, decide_eq_true hi]
  · intro hones
    apply Nat.eq_of_testBit_eq
    intro i
    rw [Nat.testBit_two_pow_sub_one]
    by_cases hi : i < k
    · rw [hones i hi, decide_eq_true hi]
    · rw [decide_eq_false hi]
      exact Nat.testBit_lt_two_pow
        (Nat.lt_of_lt_of_le h (Nat.pow_le_pow_right (by decide) (Nat.le_of_not_lt hi)))

/-- The high digits of the reversed word are the low ones of the word. -/
theorem le_toNat_reversed_iff (n : UInt32) :
    2 ^ 32 - 2 ^ 7 ≤ (reversed n).toNat ↔ n.toNat % 2 ^ 25 = 2 ^ 25 - 1 := by
  have hlt : (reversed n).toNat < 2 ^ 32 := (reversed n).toNat_lt
  have hhigh (i : Nat) (hi : i < 25) :
      ((reversed n).toNat / 2 ^ 7).testBit (24 - i) = n.toNat.testBit i := by
    rw [Nat.testBit_div_two_pow, ← testBit_reversed n (Nat.lt_trans hi (by decide))]
    congr 1
    omega
  have hdigits : 2 ^ 32 - 2 ^ 7 ≤ (reversed n).toNat ↔
      (reversed n).toNat / 2 ^ 7 = 2 ^ 25 - 1 := by omega
  rw [hdigits, eq_two_pow_sub_one_iff (by omega),
    eq_two_pow_sub_one_iff (Nat.mod_lt _ (Nat.two_pow_pos 25))]
  constructor
  · intro h i hi
    rw [Nat.testBit_mod_two_pow, decide_eq_true hi, Bool.true_and, ← hhigh i hi]
    exact h _ (by omega)
  · intro h i hi
    have hbit := h (24 - i) (by omega)
    rw [Nat.testBit_mod_two_pow, decide_eq_true (show 24 - i < 25 by omega), Bool.true_and,
      ← hhigh _ (by omega)] at hbit
    rwa [show 24 - (24 - i) = i by omega] at hbit

theorem negative_roundedInverse (n : UInt32) : (roundedInverse n).negative = false := by
  rw [roundedInverse,
    Word.mul_of_isFinite (isFinite_ofNat_word (reversed n).toNat_lt) isFinite_unitScale,
    Word.negative_ofRatio, Word.ofNat, Word.negative_ofRatio, unitScale, Word.negative_ofRatio]
  rfl

structure InUnitRange (v : Single) : Prop where
  finite : v.isFinite
  nonneg : 0 ≤ v.value
  le_one : v.value ≤ 1

theorem roundedInverse_range (n : UInt32) :
    InUnitRange (roundedInverse n) ∧
      ((roundedInverse n).value = 1 ↔ n.toNat % 2 ^ 25 = 2 ^ 25 - 1) := by
  obtain ⟨hle, hunity⟩ := magnitude_mul_unitScale (reversed n).toNat_lt
  have hvalue : (roundedInverse n).value = (roundedInverse n).size := by
    rw [Word.value, negative_roundedInverse, if_neg (by decide)]
  rw [← le_toNat_reversed_iff, ← hunity, hvalue]
  refine ⟨⟨isFinite_of_magnitude_le hle, ?_, ?_⟩, size_eq_one_iff _⟩
  · rw [hvalue]
    exact (roundedInverse n).size_nonneg
  · rw [hvalue]
    exact size_le_one hle

variable {bits out : Expr}

theorem ScalesReversal.lane_rounded (h : ScalesReversal bits out) {D : Type} {P : Primitives D}
    {env : Environment D} {word : UInt32 → D} {number : Single → D} (hwords : P.HasWords word)
    (hfloats : P.HasRoundedFloats word number) {n : UInt32} (hn : bits.lane P env 0 = word n) :
    out.lane P env 0 = number (roundedInverse n) := by
  rw [h.lane_eq hwords hn, hfloats.toFloat, hfloats.constant, hfloats.mul, roundedInverse]

/-- In rounded arithmetic the sequence is a float from zero to one, and it is one exactly for the
words whose 25 low bits are all set. -/
theorem vanDerCorputSequence_rounded (bits : Expr) (hbits : bits.type = .uint) (next : Nat) :
    ∃ out, ((vanDerCorputSequence bits).runFrom next).1 = .ok out ∧
      ∀ (D : Type) (P : Primitives D) (env : Environment D) (word : UInt32 → D)
        (number : Single → D), P.HasWords word → P.HasRoundedFloats word number →
          ∀ n, bits.lane P env 0 = word n → ∃ v, out.lane P env 0 = number v ∧ InUnitRange v ∧
            (v.value = 1 ↔ n.toNat % 2 ^ 25 = 2 ^ 25 - 1) := by
  obtain ⟨out, hrun, hout⟩ := (vanDerCorputSequence_scalesReversal hbits).exists_ok next
  refine ⟨out, hrun, fun D P env word number hwords hfloats n hn => ?_⟩
  exact ⟨roundedInverse n, hout.lane_rounded hwords hfloats hn, roundedInverse_range n⟩

def singles : Primitives (UInt32 ⊕ Single) :=
  .ofWords id (fun n => Word.ofNat .single n.toNat) (· * ·)

theorem hasRoundedFloats_singles : singles.HasRoundedFloats .inl .inr :=
  ⟨fun _ => rfl, fun _ => rfl, fun _ _ => rfl⟩

/-- The least word that is taken to one. -/
theorem vanDerCorputSequence_rounded_lowBits :
    ∃ out, ((vanDerCorputSequence position).runFrom 1).1 = .ok out ∧
      ∃ v, out.lane singles (positionAt (.inl 33554431)) 0 = .inr v ∧ v.value = 1 := by
  obtain ⟨out, hrun, hout⟩ := vanDerCorputSequence_rounded position rfl 1
  obtain ⟨v, hlane, -, hone⟩ := hout _ singles (positionAt (.inl 33554431)) _ _
    (Primitives.hasWords_ofWords _ _ _) hasRoundedFloats_singles 33554431 rfl
  exact ⟨out, hrun, v, hlane, hone.2 rfl⟩

/-- The sequence does not stay below one: it takes the greatest word to one. -/
theorem exists_vanDerCorputSequence_one :
    ¬∀ (bits : Expr), bits.type = .uint → ∀ next,
      ∃ out, ((vanDerCorputSequence bits).runFrom next).1 = .ok out ∧
        ∀ (D : Type) (P : Primitives D) (env : Environment D) (word : UInt32 → D)
          (number : Single → D), P.HasWords word → P.HasRoundedFloats word number →
            ∀ n, bits.lane P env 0 = word n →
              ∃ v, out.lane P env 0 = number v ∧ 0 ≤ v.value ∧ v.value < 1 := by
  intro h
  obtain ⟨out, hrun, hout⟩ := h position rfl 1
  have hwords : singles.HasWords .inl := Primitives.hasWords_ofWords _ _ _
  obtain ⟨v, hlane, -, hlt⟩ := hout _ singles (positionAt (.inl 4294967295)) _ _ hwords
    hasRoundedFloats_singles 4294967295 rfl
  have hmeets : Meets (fun _ => False) (vanDerCorputSequence position) (ScalesReversal position) :=
    vanDerCorputSequence_scalesReversal rfl
  have hscaled : ScalesReversal position out := hmeets.of_ok hrun
  rw [hscaled.lane_rounded hwords hasRoundedFloats_singles rfl] at hlane
  obtain rfl := Sum.inr.inj hlane
  have hone : (roundedInverse 4294967295).value = 1 := (roundedInverse_range _).2.2 rfl
  exact absurd hone hlt.ne

end Formula

end ShaderAlgebra
