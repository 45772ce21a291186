import ShaderAlgebra.Formula.Random
import ShaderAlgebra.Proofs.Formula.Conversion

/-!
# Types of random numbers

The bit network stays within unsigned integers, and its end results are scalar
floats.
-/

namespace ShaderAlgebra.Formula

open ShaderAlgebra.Expr Build

variable {fails : Failure → Prop} {bits hash : Expr} {t : ValueType}

theorem swapGroups_meets (hbits : HasType bits .uint) (stage : UInt32 × UInt32) :
    Meets fails (swapGroups bits stage) (HasType · .uint) := by
  unfold swapGroups
  apply (constant_meets (.uint stage.1)).bind
  intro lowMask hlowMask
  apply (binary_meets (fun _ => rfl) hbits hlowMask).bind
  intro lowBits hlowBits
  apply (shift_meets hlowBits stage.2).bind
  intro low hlow
  apply (constant_meets (.uint (~~~stage.1))).bind
  intro highMask hhighMask
  apply (binary_meets (fun _ => rfl) hbits hhighMask).bind
  intro highBits hhighBits
  apply (shift_meets hhighBits stage.2).bind
  intro high hhigh
  exact binary_meets (fun _ => rfl) hlow hhigh

theorem reverseBits_meets (hbits : HasType bits .uint) :
    Meets fails (reverseBits bits) (HasType · .uint) := by
  unfold reverseBits
  apply (shift_meets hbits 16).bind
  intro low hlow
  apply (shift_meets hbits 16).bind
  intro high hhigh
  apply (binary_meets (fun _ => rfl) hlow hhigh).bind
  intro swapped hswapped
  exact Meets.foldlM (fun stage _ bits hbits => swapGroups_meets hbits stage) hswapped

theorem vanDerCorputSequence_meets (hbits : HasType bits t)
    (hrefused : t ≠ .uint →
      fails (.refused (.invalidArgument (.notUnsigned .vanDerCorputSequence "uint" t)))) :
    Meets fails (vanDerCorputSequence bits) (HasType · .float) := by
  unfold vanDerCorputSequence
  rw [hbits.2]
  by_cases huint : t = .uint
  · subst huint
    rw [if_neg (by simp)]
    apply (reverseBits_meets hbits).bind
    intro reversed hreversed
    have hop : UnaryOp.toFloat.WellTyped .float .uint := ⟨rfl, rfl⟩
    apply (unary_meets hreversed hop).bind
    intro number hnumber
    apply (constant_meets _).bind
    intro scale hscale
    exact arithmetic_meets rfl hnumber hscale
  · rw [if_pos (by simpa using huint)]
    exact Meets.refuse (hrefused huint)

theorem fixedRandom_meets {perElement : Bool} (hhash : HasType hash t)
    (hrefused : t ≠ .uint →
      fails (.refused (.invalidArgument (.notUnsigned .fixedRandom "uint hash" t)))) :
    Meets fails (fixedRandom hash perElement) (HasType · .float) := by
  unfold fixedRandom
  rw [hhash.2]
  by_cases huint : t = .uint
  · subst huint
    rw [if_neg (by simp)]
    apply systemSeed_meets.bind
    intro system hsystem
    apply (binary_meets (fun _ => rfl) hhash hsystem).bind
    intro seed hseed
    have hop : (UnaryOp.random perElement).WellTyped .float .uint := ⟨rfl, rfl⟩
    exact unary_meets hseed hop
  · rw [if_pos (by simpa using huint)]
    exact Meets.refuse (hrefused huint)

end ShaderAlgebra.Formula
