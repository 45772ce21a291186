import ShaderAlgebra.Operator.Apply
import ShaderAlgebra.Proofs.Formula.Random
import ShaderAlgebra.Proofs.Formula.Vector

/-!
# Operators build well-formed expressions

The formulas of the operators that widen their operands are only reached with
operands of one type, and cannot fail there. The other formulas check or
convert their operands themselves.
-/

namespace ShaderAlgebra.Operator

open ShaderAlgebra.Expr Build Formula

variable {fails : Failure → Prop} {op : Operator} {operands : List Expr}

/-- As many well-formed expressions as the operator gives. -/
def Outputs (op : Operator) (outs : List Expr) : Prop :=
  outs.length = op.outputs ∧ ∀ e ∈ outs, e.WellFormed

theorem single_meets {step : Build Expr} {t : ValueType} (h : Meets fails step (HasType · t))
    (hop : op.outputs = 1) : Meets fails (do return [← step]) (Outputs op) := by
  apply h.bind
  intro e he
  exact Meets.pure ⟨hop.symm, by simpa using he.1⟩

/-- The formula of an operator on well-formed operands, which have one type if the operator
widens them. -/
theorem build_meets (hrefused : ∀ e, fails (.refused e))
    (hwell : ∀ e ∈ operands, HasType e e.type)
    (hcommon : op.unifies = true → ∃ t, ∀ e ∈ operands, HasType e t) :
    Meets fails (op.build operands) (Outputs op) := by
  unfold Operator.build
  -- One case for each operator, in catalog order, and one for a wrong number of operands.
  split
  · exact single_meets (negate_meets (hwell _ (by simp))) rfl
  · exact single_meets (clamp_meets (hwell _ (by simp)) (hwell _ (by simp)) (hwell _ (by simp))
      (fun _ _ => hrefused _) fun _ _ => hrefused _) rfl
  · exact single_meets (saturate_meets (hwell _ (by simp))) rfl
  · exact single_meets (frac_meets (hwell _ (by simp))) rfl
  · exact single_meets (round_meets (hwell _ (by simp))) rfl
  · obtain ⟨t, ht⟩ := hcommon rfl
    exact single_meets (log_meets (ht _ (by simp)) (ht _ (by simp))) rfl
  · exact single_meets (atanh_meets (hwell _ (by simp))) rfl
  · exact single_meets (sinh_meets (hwell _ (by simp))) rfl
  · exact single_meets (cosh_meets (hwell _ (by simp))) rfl
  · exact single_meets (tanh_meets (hwell _ (by simp))) rfl
  · exact single_meets (sqrt_meets (hwell _ (by simp))) rfl
  · obtain ⟨t, ht⟩ := hcommon rfl
    exact single_meets (lerp_meets (ht _ (by simp)) (ht _ (by simp)) (ht _ (by simp))) rfl
  · obtain ⟨t, ht⟩ := hcommon rfl
    exact single_meets (fit_meets (ht _ (by simp)) (ht _ (by simp)) (ht _ (by simp))
      (ht _ (by simp)) (ht _ (by simp))) rfl
  · obtain ⟨t, ht⟩ := hcommon rfl
    exact single_meets (modulo_meets (ht _ (by simp)) (ht _ (by simp))) rfl
  · obtain ⟨t, ht⟩ := hcommon rfl
    exact single_meets (smoothstep_meets (ht _ (by simp)) (ht _ (by simp)) (ht _ (by simp))) rfl
  · obtain ⟨t, ht⟩ := hcommon rfl
    exact single_meets (discretize_meets (ht _ (by simp)) (ht _ (by simp))) rfl
  · exact single_meets (scaleBy_meets (hwell _ (by simp)) fun _ => hrefused _) rfl
  · exact single_meets (scaleBy_meets (hwell _ (by simp)) fun _ => hrefused _) rfl
  · obtain ⟨t, ht⟩ := hcommon rfl
    exact single_meets (dot_meets_of_types (ht _ (by simp)) (ht _ (by simp))) rfl
  · exact single_meets (length_meets (hwell _ (by simp))) rfl
  · obtain ⟨t, ht⟩ := hcommon rfl
    exact single_meets (distance_meets (ht _ (by simp)) (ht _ (by simp))) rfl
  · obtain ⟨t, ht⟩ := hcommon rfl
    exact single_meets (sqrDistance_meets (ht _ (by simp)) (ht _ (by simp))) rfl
  · exact single_meets (normalize_meets (hwell _ (by simp)) fun _ => hrefused _) rfl
  · exact single_meets (polarToRectangular_meets (hwell _ (by simp)).1 (hwell _ (by simp))
      (fun _ => hrefused _) fun _ => hrefused _) rfl
  · apply (rectangularToPolar_meets (hwell _ (by simp)) fun _ => hrefused _).bind
    intro polar hpolar
    exact Meets.pure ⟨rfl, by simp [hpolar.1.1, hpolar.2.1]⟩
  · exact single_meets (sphericalToRectangular_meets (hwell _ (by simp)).1 (hwell _ (by simp)).1
      (hwell _ (by simp)) (fun _ _ _ => hrefused _) fun _ => hrefused _) rfl
  · apply (rectangularToSpherical_meets (hwell _ (by simp)) fun _ => hrefused _).bind
    intro spherical hspherical
    exact Meets.pure ⟨rfl, by simp [hspherical.1.1, hspherical.2.1.1, hspherical.2.2.1]⟩
  · exact single_meets (circleArea_meets (hwell _ (by simp))) rfl
  · exact single_meets (circleCircumference_meets (hwell _ (by simp))) rfl
  · exact single_meets (boxVolume_meets (hwell _ (by simp)) fun _ => hrefused _) rfl
  · exact single_meets (sphereVolume_meets (hwell _ (by simp))) rfl
  · obtain ⟨t, ht⟩ := hcommon rfl
    exact single_meets (cylinderVolume_meets (ht _ (by simp)) (ht _ (by simp))) rfl
  · obtain ⟨t, ht⟩ := hcommon rfl
    exact single_meets (coneVolume_meets (ht _ (by simp)) (ht _ (by simp)) (ht _ (by simp))) rfl
  · obtain ⟨t, ht⟩ := hcommon rfl
    exact single_meets (torusVolume_meets (ht _ (by simp)) (ht _ (by simp))) rfl
  · obtain ⟨t, ht⟩ := hcommon rfl
    exact single_meets (signedDistanceToPlane_meets (ht _ (by simp)) (ht _ (by simp))
      (ht _ (by simp))) rfl
  · exact single_meets (colorLuma_meets (hwell _ (by simp)) fun _ _ => hrefused _) rfl
  · exact single_meets (colorPower_meets (hwell _ (by simp)) fun _ _ => hrefused _) rfl
  · exact single_meets (colorPower_meets (hwell _ (by simp)) fun _ _ => hrefused _) rfl
  · exact single_meets (vanDerCorputSequence_meets (hwell _ (by simp)) fun _ => hrefused _) rfl
  · exact single_meets (fixedRandom_meets (hwell _ (by simp)) fun _ => hrefused _) rfl
  · exact single_meets (fixedRandom_meets (hwell _ (by simp)) fun _ => hrefused _) rfl
  · exact Meets.refuse (hrefused _)

theorem apply_meets (hrefused : ∀ e, fails (.refused e))
    (hwell : ∀ e ∈ operands, e.WellFormed) :
    Meets fails (op.apply operands) (Outputs op) := by
  unfold Operator.apply
  split
  · exact Meets.refuse (hrefused _)
  · split
    · unfold unify
      apply (widen_meets hwell).bind
      intro widened hwidened
      apply (commonType_meets (fun _ => hrefused _) fun _ _ _ _ _ => hrefused _).bind
      intro t ht
      apply build_meets hrefused
      · intro e he
        exact (hwidened.2 e he).hasType
      · intro _
        exact ⟨t, fun e he => ⟨hwidened.2 e he, ht e he⟩⟩
    · rename_i hunifies
      apply build_meets hrefused
      · intro e he
        exact (hwell e he).hasType
      · intro h
        exact absurd h hunifies

/-- On well-formed operands, whatever their number and types, an operator gives well-formed
expressions, as many as the catalog says, or refuses the call. It breaks no rule of a
primitive. -/
theorem apply_wellFormed (op : Operator) (operands : List Expr)
    (h : ∀ e ∈ operands, e.WellFormed) (next : Nat) :
    match ((op.apply operands).runFrom next).1 with
    | .ok outs => outs.length = op.outputs ∧ ∀ e ∈ outs, e.WellFormed
    | .error (.refused _) => True
    | .error (.violated _) => False := by
  have hmeets : Meets (fun failure => ∃ e, failure = .refused e) (op.apply operands)
      (Outputs op) := apply_meets (fun e => ⟨e, rfl⟩) h
  have hnext := hmeets next
  cases hrun : ((op.apply operands).runFrom next).1 with
  | ok outs =>
    rw [hrun] at hnext
    exact hnext
  | error failure =>
    rw [hrun] at hnext
    obtain ⟨e, rfl⟩ := hnext
    trivial

def mixedOperands : List Expr :=
  [.leaf 0 (.input .float3 "v"), .leaf 1 (.constant (.float2 1 2))]

theorem apply_dot_mixedOperands :
    (∀ e ∈ mixedOperands, e.WellFormed) ∧
      ((dot.apply mixedOperands).runFrom 2).1.isOk = true ∧
      match ((dot.apply mixedOperands).runFrom 2).1 with
      | .ok outs => outs.length = dot.outputs ∧ ∀ e ∈ outs, e.WellFormed
      | .error (.refused _) => True
      | .error (.violated _) => False := by
  have h : ∀ e ∈ mixedOperands, e.WellFormed := by decide
  exact ⟨h, by decide, apply_wellFormed dot mixedOperands h 2⟩

end ShaderAlgebra.Operator
