import Mathlib.Data.Rat.Floor
import ShaderAlgebra.Proofs.Binary.Error
import ShaderAlgebra.Proofs.Build.Outcome

/-!
# Splatted constants

The sign, the exponent and the fraction of a pattern of 32 bits say which number
it stands for, if any. A splatted constant repeats the pattern, or is the number
without its fraction, limited to the signed integers of 32 bits. The table of a
scalar has such a constant at the place of each type.
-/

namespace ShaderAlgebra

open Binary (Format)

namespace Single

/-- What a pattern stands for. -/
inductive Meaning
  | notANumber
  | infinite (negative : Bool)
  | number (value : ℚ)

def exponentField (x : Single) : Nat := x.toUInt32.toNat / 2 ^ 23 % 2 ^ 8

def fractionField (x : Single) : Nat := x.toUInt32.toNat % 2 ^ 23

/-- The fields with the greatest exponent are kept for the infinities and for what is no number;
with the least exponent, numbers have no leading one. -/
def meaning (x : Single) : Meaning :=
  let negative : Bool := 2 ^ 31 ≤ x.toUInt32.toNat
  let sign : ℚ := if negative then -1 else 1
  if x.exponentField = 255 then
    if x.fractionField = 0 then .infinite negative else .notANumber
  else if x.exponentField = 0 then
    .number (sign * (2 ^ (-126 : ℤ) * (x.fractionField / 2 ^ 23)))
  else .number (sign * (2 ^ (x.exponentField - 127 : ℤ) * (1 + x.fractionField / 2 ^ 23)))

def truncated (q : ℚ) : ℤ := if q < 0 then ⌈q⌉ else ⌊q⌋

/-- Zero for what is no number; a number is truncated and limited to 32 bits. -/
def Meaning.toInt : Meaning → ℤ
  | notANumber => 0
  | infinite negative => if negative then -2 ^ 31 else 2 ^ 31 - 1
  | number q => max (-2 ^ 31) (min (2 ^ 31 - 1) (truncated q))

variable {x : Single}

/-! ### Fields -/

theorem toNat_lt (x : Single) : x.toUInt32.toNat < 2 ^ 32 := x.toUInt32.toNat_lt

theorem magnitude_eq_mod (x : Single) : x.magnitude = x.toUInt32.toNat % 2 ^ 31 := rfl

theorem magnitude_eq (x : Single) :
    x.magnitude = x.exponentField * 2 ^ 23 + x.fractionField := by
  have hlt := x.toNat_lt
  rw [magnitude_eq_mod, exponentField, fractionField]
  omega

theorem fractionField_lt (x : Single) : x.fractionField < 2 ^ 23 :=
  Nat.mod_lt _ (Nat.two_pow_pos 23)

theorem exponentField_lt (x : Single) : x.exponentField < 2 ^ 8 :=
  Nat.mod_lt _ (Nat.two_pow_pos 8)

theorem negative_eq (x : Single) : x.negative = decide (2 ^ 31 ≤ x.toUInt32.toNat) :=
  BitVec.msb_eq_decide x.bits

theorem infinity_single : Format.single.infinity = 255 * 2 ^ 23 := by decide +kernel

theorem isNaN_iff : x.isNaN ↔ x.exponentField = 255 ∧ x.fractionField ≠ 0 := by
  have hexponent := x.exponentField_lt
  have hfraction := x.fractionField_lt
  rw [Word.isNaN, decide_eq_true_eq, infinity_single, magnitude_eq]
  omega

theorem isInfinite_iff : x.isInfinite ↔ x.exponentField = 255 ∧ x.fractionField = 0 := by
  have hexponent := x.exponentField_lt
  have hfraction := x.fractionField_lt
  rw [Word.isInfinite, beq_iff_eq, infinity_single, magnitude_eq]
  omega

theorem shiftRight_magnitude (x : Single) : x.magnitude >>> 23 = x.exponentField := by
  have hfraction := x.fractionField_lt
  rw [magnitude_eq, Nat.shiftRight_eq_div_pow]
  omega

theorem units_of_subnormal (h : x.exponentField = 0) : x.units = x.fractionField := by
  have hscale : Format.single.scale x.magnitude = 0 := by
    change x.magnitude >>> 23 - 1 = 0
    rw [shiftRight_magnitude, h]
  rw [Word.units, Format.units, Format.significand, hscale, magnitude_eq, h]
  simp

theorem units_of_normal {e : Nat} (h : x.exponentField = e + 1) :
    x.units = (2 ^ 23 + x.fractionField) * 2 ^ e := by
  have hscale : Format.single.scale x.magnitude = e := by
    change x.magnitude >>> 23 - 1 = e
    rw [shiftRight_magnitude, h, Nat.add_sub_cancel]
  have hsignificand : Format.single.significand x.magnitude = 2 ^ 23 + x.fractionField := by
    change x.magnitude - Format.single.scale x.magnitude <<< 23 = _
    rw [hscale, magnitude_eq, h, Nat.shiftLeft_eq]
    omega
  rw [Word.units, Format.units, hscale, hsignificand, Nat.shiftLeft_eq]

theorem size_of_subnormal (h : x.exponentField = 0) :
    x.size = 2 ^ (-126 : ℤ) * (x.fractionField / 2 ^ 23) := by
  have hunit : Format.single.unitBits = 149 := rfl
  rw [Word.size, units_of_subnormal h, hunit]
  norm_num
  ring

theorem size_of_normal (h : x.exponentField ≠ 0) :
    x.size = 2 ^ (x.exponentField - 127 : ℤ) * (1 + x.fractionField / 2 ^ 23) := by
  have hunit : Format.single.unitBits = 149 := rfl
  obtain ⟨e, he⟩ := Nat.exists_eq_succ_of_ne_zero h
  have hpower : (2 : ℚ) ^ (x.exponentField - 127 : ℤ) = 2 ^ e / 2 ^ 126 := by
    have hexponent : (x.exponentField - 127 : ℤ) = e - 126 := by omega
    rw [hexponent, zpow_sub₀ two_ne_zero, zpow_natCast]
    norm_num
  rw [Word.size, units_of_normal he, hunit, hpower]
  push_cast
  ring

theorem meaning_of_isNaN (h : x.isNaN) : x.meaning = .notANumber := by
  obtain ⟨hexponent, hfraction⟩ := isNaN_iff.1 h
  rw [meaning, if_pos hexponent, if_neg hfraction]

theorem meaning_of_isInfinite (h : x.isInfinite) : x.meaning = .infinite x.negative := by
  obtain ⟨hexponent, hfraction⟩ := isInfinite_iff.1 h
  rw [meaning, if_pos hexponent, if_pos hfraction, negative_eq]

/-- The fields of any other pattern give its number. -/
theorem meaning_of_number (hnan : x.isNaN = false) (hinfinite : x.isInfinite = false) :
    x.meaning = .number x.value := by
  have hexponent : x.exponentField ≠ 255 := by
    intro hexponent
    by_cases hfraction : x.fractionField = 0
    · rw [isInfinite_iff.2 ⟨hexponent, hfraction⟩] at hinfinite
      cases hinfinite
    · rw [isNaN_iff.2 ⟨hexponent, hfraction⟩] at hnan
      cases hnan
  have hsign (q : ℚ) : (if x.negative then -1 else 1) * q = if x.negative then -q else q := by
    split
    · rw [neg_one_mul]
    · rw [one_mul]
  rw [meaning, if_neg hexponent, Word.value, ← hsign, ← negative_eq]
  split
  next hzero => rw [size_of_subnormal hzero]
  next hpositive => rw [size_of_normal hpositive]

/-! ### Whole parts -/

theorem truncate_eq (x : Single) : x.truncate = truncated x.value := by
  have hfloor : ⌊x.size⌋ = (x.units >>> Format.single.unitBits : Nat) := by
    rw [Word.size_eq_div, Rat.floor_natCast_div_natCast, Nat.one_shiftLeft,
      Nat.shiftRight_eq_div_pow, Int.natCast_ediv]
  have hsize := x.size_nonneg
  rw [Word.truncate, Word.value, truncated, ← hfloor]
  cases x.negative with
  | false => simp [not_lt.2 hsize]
  | true =>
    rcases hsize.eq_or_lt with hzero | hpositive
    · simp [← hzero]
    · simp [hpositive, Int.ceil_neg]

theorem toInt_toInt32 (x : Single) : x.toInt32.toInt = x.meaning.toInt := by
  have hmin : Int32.minValue.toInt = -2 ^ 31 := by decide
  have hmax : Int32.maxValue.toInt = 2 ^ 31 - 1 := by decide
  unfold toInt32
  split
  next hnan =>
    rw [meaning_of_isNaN hnan]
    rfl
  next hnan =>
    split
    next hinfinite =>
      rw [meaning_of_isInfinite hinfinite]
      change _ = if x.negative then _ else _
      split
      · exact hmin
      · exact hmax
    next hinfinite =>
      rw [meaning_of_number (Bool.eq_false_iff.2 hnan) (Bool.eq_false_iff.2 hinfinite),
        Int32.toInt_ofInt_of_le (by omega) (by omega), hmin, hmax, truncate_eq]
      rfl

theorem toNat_toUInt32 (n : Int32) : (n.toUInt32.toNat : ℤ) = n.toInt % 2 ^ 32 := by
  have hlt := n.toUInt32.toNat_lt
  have hsigned : n.toInt = (n.toUInt32.toNat : ℤ).bmod (2 ^ 32) :=
    BitVec.toInt_eq_toNat_bmod n.toBitVec
  rw [hsigned, Int.bmod_def]
  split <;> omega

end Single

/-! ### Constants and tables -/

/-- The literal stands for a scalar in every channel: its floats are the scalar bit by bit, and an
unsigned integer is the signed one modulo `2 ^ 32`. -/
def Constant.Represents (x : Single) : Constant → Prop
  | .int n => n.toInt = x.meaning.toInt
  | .uint n => n.toNat = x.meaning.toInt % 2 ^ 32
  | c => ∀ y ∈ c.floats, y = x

theorem Constant.represents_splat (x : Single) (t : ValueType) :
    (splat x t).Represents x := by
  cases t with
  | int => exact x.toInt_toInt32
  | uint =>
    change (x.toInt32.toUInt32.toNat : ℤ) = _
    rw [Single.toNat_toUInt32, Single.toInt_toInt32]
  | float | float2 | float3 | float4 => simp [Represents, splat, floats]

namespace Build

/-- The table of a scalar is what making its nodes in the order of the types gives, and the node
of a type is found at the place of the type. -/
theorem runFrom_splatTable (x : Single) (next : Nat) :
    ∃ table nodes, (splatTable x).runFrom next = (.ok table, next + ValueType.all.length) ∧
      (ValueType.all.mapM (splat x)).runFrom next = (.ok nodes, next + ValueType.all.length) ∧
      ∀ t, nodes[t.index]? = some (table t) := by
  refine ⟨_, _, rfl, runFrom_mapM_leaf (fun t => .constant (.splat x t)) _ next, fun t => ?_⟩
  rw [List.getElem?_mapIdx, t.getElem?_all_index]
  rfl

end Build

/-- A scalar becomes a constant of the wanted type that stands for it, and so does every node of
its table: the table has the nodes in the order in which they are made. -/
theorem splat_represents (x : Single) :
    (∀ t, (Constant.splat x t).type = t ∧ (Constant.splat x t).Represents x) ∧
      ∀ next, ∃ table nodes later, (Build.splatTable x).runFrom next = (.ok table, later) ∧
        (ValueType.all.mapM (Build.splat x)).runFrom next = (.ok nodes, later) ∧
        ∀ t, nodes[t.index]? = some (table t) ∧ (table t).type = t ∧
          ∃ i c, table t = .leaf i (.constant c) ∧ c.type = t ∧ c.Represents x := by
  have hsplat (t : ValueType) :
      (Constant.splat x t).type = t ∧ (Constant.splat x t).Represents x :=
    ⟨Constant.type_splat x t, Constant.represents_splat x t⟩
  refine ⟨hsplat, fun next => ?_⟩
  obtain ⟨table, nodes, htable, hnodes, hplaces⟩ := Build.runFrom_splatTable x next
  obtain rfl : Expr.splatFrom next x = table := Except.ok.inj (congrArg Prod.fst htable)
  refine ⟨_, nodes, _, htable, hnodes, fun t => ⟨hplaces t, Expr.type_splatFrom next x t, ?_⟩⟩
  exact ⟨_, _, rfl, hsplat t⟩

end ShaderAlgebra
