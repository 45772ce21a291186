import ShaderAlgebra.Operator.Apply
import ShaderAlgebra.Proofs.Formula.Simulation

/-!
# Operators respect correspondences

An operator looks at the types of its operands alone. Applied to operands that
correspond it fails alike, or gives results that correspond.
-/

namespace ShaderAlgebra.Operator

open Build Correspondence Formula

variable {W : Type} [Preorder W] {C : Correspondence W} {w : W} {op : Operator}
  {operands operands' : List Expr}

theorem build_of_length_ne (h : operands.length ≠ op.arity) :
    op.build operands = refuse (.invalidArgument (.operandCount op operands.length)) := by
  unfold Operator.build
  split <;> first | exact absurd rfl h | rfl

theorem single_simulates {step step' : Build Expr} (h : C.Simulates w step step' C.Related) :
    C.Simulates w (do return [← step]) (do return [← step'])
      fun w => List.Forall₂ (C.Related w) := by
  apply h.bind
  intro w₁ _ e e' he
  exact Simulates.pure (.cons he .nil)

theorem build_simulates (h : List.Forall₂ (C.Related w) operands operands') :
    C.Simulates w (op.build operands) (op.build operands')
      fun w => List.Forall₂ (C.Related w) := by
  by_cases hcount : operands'.length = op.arity
  · cases op with
    | negate =>
      obtain ⟨_, _, rfl, rfl, hx⟩ := forall₂_one h hcount
      exact single_simulates (negate_simulates hx)
    | clamp =>
      obtain ⟨_, _, _, _, _, _, rfl, rfl, hx, hy, hz⟩ := forall₂_three h hcount
      exact single_simulates (clamp_simulates hx hy hz)
    | saturate =>
      obtain ⟨_, _, rfl, rfl, hx⟩ := forall₂_one h hcount
      exact single_simulates (saturate_simulates hx)
    | frac =>
      obtain ⟨_, _, rfl, rfl, hx⟩ := forall₂_one h hcount
      exact single_simulates (frac_simulates hx)
    | round =>
      obtain ⟨_, _, rfl, rfl, hx⟩ := forall₂_one h hcount
      exact single_simulates (round_simulates hx)
    | log =>
      obtain ⟨_, _, _, _, rfl, rfl, hx, hy⟩ := forall₂_two h hcount
      exact single_simulates (log_simulates hx hy)
    | atanh =>
      obtain ⟨_, _, rfl, rfl, hx⟩ := forall₂_one h hcount
      exact single_simulates (atanh_simulates hx)
    | sinh =>
      obtain ⟨_, _, rfl, rfl, hx⟩ := forall₂_one h hcount
      exact single_simulates (sinh_simulates hx)
    | cosh =>
      obtain ⟨_, _, rfl, rfl, hx⟩ := forall₂_one h hcount
      exact single_simulates (cosh_simulates hx)
    | tanh =>
      obtain ⟨_, _, rfl, rfl, hx⟩ := forall₂_one h hcount
      exact single_simulates (tanh_simulates hx)
    | sqrt =>
      obtain ⟨_, _, rfl, rfl, hx⟩ := forall₂_one h hcount
      exact single_simulates (sqrt_simulates hx)
    | lerp =>
      obtain ⟨_, _, _, _, _, _, rfl, rfl, hx, hy, hz⟩ := forall₂_three h hcount
      exact single_simulates (lerp_simulates hx hy hz)
    | fit =>
      match operands', hcount with
      | [_, _, _, _, _], _ =>
        obtain _ | ⟨hv, _ | ⟨ha, _ | ⟨hb, _ | ⟨hc, _ | ⟨hd, ⟨⟩⟩⟩⟩⟩⟩ := h
        exact single_simulates (fit_simulates hv ha hb hc hd)
    | modulo =>
      obtain ⟨_, _, _, _, rfl, rfl, hx, hy⟩ := forall₂_two h hcount
      exact single_simulates (modulo_simulates hx hy)
    | smoothstep =>
      obtain ⟨_, _, _, _, _, _, rfl, rfl, hx, hy, hz⟩ := forall₂_three h hcount
      exact single_simulates (smoothstep_simulates hx hy hz)
    | discretize =>
      obtain ⟨_, _, _, _, rfl, rfl, hx, hy⟩ := forall₂_two h hcount
      exact single_simulates (discretize_simulates hx hy)
    | degToRad =>
      obtain ⟨_, _, rfl, rfl, hx⟩ := forall₂_one h hcount
      exact single_simulates (scaleBy_simulates hx)
    | radToDeg =>
      obtain ⟨_, _, rfl, rfl, hx⟩ := forall₂_one h hcount
      exact single_simulates (scaleBy_simulates hx)
    | dot =>
      obtain ⟨_, _, _, _, rfl, rfl, hx, hy⟩ := forall₂_two h hcount
      exact single_simulates (dot_simulates hx hy)
    | length =>
      obtain ⟨_, _, rfl, rfl, hx⟩ := forall₂_one h hcount
      exact single_simulates (length_simulates hx)
    | distance =>
      obtain ⟨_, _, _, _, rfl, rfl, hx, hy⟩ := forall₂_two h hcount
      exact single_simulates (distance_simulates hx hy)
    | sqrDistance =>
      obtain ⟨_, _, _, _, rfl, rfl, hx, hy⟩ := forall₂_two h hcount
      exact single_simulates (sqrDistance_simulates hx hy)
    | normalize =>
      obtain ⟨_, _, rfl, rfl, hx⟩ := forall₂_one h hcount
      exact single_simulates (normalize_simulates hx)
    | polarToRectangular =>
      obtain ⟨_, _, _, _, rfl, rfl, hx, hy⟩ := forall₂_two h hcount
      exact single_simulates (polarToRectangular_simulates hx hy)
    | rectangularToPolar =>
      obtain ⟨_, _, rfl, rfl, hx⟩ := forall₂_one h hcount
      apply (rectangularToPolar_simulates hx).bind
      rintro w₁ _ polar polar' ⟨htheta, hdistance⟩
      exact Simulates.pure (.cons htheta (.cons hdistance .nil))
    | sphericalToRectangular =>
      obtain ⟨_, _, _, _, _, _, rfl, rfl, hx, hy, hz⟩ := forall₂_three h hcount
      exact single_simulates (sphericalToRectangular_simulates hx hy hz)
    | rectangularToSpherical =>
      obtain ⟨_, _, rfl, rfl, hx⟩ := forall₂_one h hcount
      apply (rectangularToSpherical_simulates hx).bind
      rintro w₁ _ spherical spherical' ⟨htheta, hphi, hdistance⟩
      exact Simulates.pure (.cons htheta (.cons hphi (.cons hdistance .nil)))
    | circleArea =>
      obtain ⟨_, _, rfl, rfl, hx⟩ := forall₂_one h hcount
      exact single_simulates (circleArea_simulates hx)
    | circleCircumference =>
      obtain ⟨_, _, rfl, rfl, hx⟩ := forall₂_one h hcount
      exact single_simulates (circleCircumference_simulates hx)
    | boxVolume =>
      obtain ⟨_, _, rfl, rfl, hx⟩ := forall₂_one h hcount
      exact single_simulates (boxVolume_simulates hx)
    | sphereVolume =>
      obtain ⟨_, _, rfl, rfl, hx⟩ := forall₂_one h hcount
      exact single_simulates (sphereVolume_simulates hx)
    | cylinderVolume =>
      obtain ⟨_, _, _, _, rfl, rfl, hx, hy⟩ := forall₂_two h hcount
      exact single_simulates (cylinderVolume_simulates hx hy)
    | coneVolume =>
      obtain ⟨_, _, _, _, _, _, rfl, rfl, hx, hy, hz⟩ := forall₂_three h hcount
      exact single_simulates (coneVolume_simulates hx hy hz)
    | torusVolume =>
      obtain ⟨_, _, _, _, rfl, rfl, hx, hy⟩ := forall₂_two h hcount
      exact single_simulates (torusVolume_simulates hx hy)
    | signedDistanceToPlane =>
      obtain ⟨_, _, _, _, _, _, rfl, rfl, hx, hy, hz⟩ := forall₂_three h hcount
      exact single_simulates (signedDistanceToPlane_simulates hx hy hz)
    | colorLuma =>
      obtain ⟨_, _, rfl, rfl, hx⟩ := forall₂_one h hcount
      exact single_simulates (colorLuma_simulates hx)
    | gammaToLinear =>
      obtain ⟨_, _, rfl, rfl, hx⟩ := forall₂_one h hcount
      exact single_simulates (colorPower_simulates hx)
    | linearToGamma =>
      obtain ⟨_, _, rfl, rfl, hx⟩ := forall₂_one h hcount
      exact single_simulates (colorPower_simulates hx)
    | vanDerCorputSequence =>
      obtain ⟨_, _, rfl, rfl, hx⟩ := forall₂_one h hcount
      exact single_simulates (vanDerCorputSequence_simulates hx)
    | fixedRandom =>
      obtain ⟨_, _, rfl, rfl, hx⟩ := forall₂_one h hcount
      exact single_simulates (fixedRandom_simulates hx)
    | fixedRandomPerElement =>
      obtain ⟨_, _, rfl, rfl, hx⟩ := forall₂_one h hcount
      exact single_simulates (fixedRandom_simulates hx)
  · rw [build_of_length_ne hcount, build_of_length_ne (h.length_eq ▸ hcount), h.length_eq]
    exact Simulates.refuse

/-- Operators respect every correspondence. -/
theorem apply_simulates (op : Operator) (h : List.Forall₂ (C.Related w) operands operands') :
    C.Simulates w (op.apply operands) (op.apply operands')
      fun w => List.Forall₂ (C.Related w) := by
  unfold Operator.apply
  rw [h.length_eq]
  split
  · exact Simulates.refuse
  · split
    · unfold unify
      apply (widen_simulates h).bind
      intro w₁ _ widened widened' hwidened
      apply (commonType_simulates hwidened).bind
      intro w₂ h₂ _ _ _
      exact build_simulates (hwidened.imp fun _ _ => C.mono h₂)
    · exact build_simulates h

end ShaderAlgebra.Operator
