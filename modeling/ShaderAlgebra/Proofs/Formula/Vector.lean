import ShaderAlgebra.Formula.Color
import ShaderAlgebra.Formula.Coordinates
import ShaderAlgebra.Formula.Solid
import ShaderAlgebra.Proofs.Formula.Elementwise

/-!
# Types of vector formulas

Inner products of floats are scalar floats, and an inner product of integers is
a product. Formulas that need a float, or a number of channels, refuse every
other operand and never fail otherwise.
-/

namespace ShaderAlgebra.Formula

open ShaderAlgebra.Expr Build

variable {fails : Failure → Prop} {a b e v x y : Expr} {t u : ValueType}

def scalarType (t : ValueType) : ValueType := if t.isFloat then .float else t

theorem scalarType_of_isFloat (h : t.isFloat = true) : scalarType t = .float := if_pos h

theorem scalarType_of_components (h : t.components = 1) : scalarType t = t := by
  unfold scalarType
  split
  · exact (ValueType.eq_float_of_components ‹_› h).symm
  · rfl

theorem isFloat_of_components (h : t.components ≠ 1) : t.isFloat = true := by
  cases t with
  | float | int | uint => exact absurd rfl h
  | float2 | float3 | float4 => rfl

theorem dot_meets_of_types (ha : HasType a t) (hb : HasType b t) :
    Meets fails (dot a b) (HasType · (scalarType t)) := by
  unfold dot
  rw [ha.2, hb.2, if_neg (by simp)]
  apply (arithmetic_meets rfl ha hb).bind
  intro product hproduct
  by_cases hone : t.components = 1
  · rw [if_pos hone, scalarType_of_components hone]
    exact Meets.pure hproduct
  · have hfloat := isFloat_of_components hone
    rw [if_neg hone, scalarType_of_isFloat hfloat]
    apply (channels_meets hproduct hfloat).bind
    intro terms hterms
    have hne : terms ≠ [] := by
      rintro rfl
      exact absurd hterms.1.symm (Nat.ne_of_gt t.components_pos)
    apply (sum_meets hterms.2 hne).bind
    intro r hr
    obtain ⟨total, rfl, htotal⟩ := hr
    exact Meets.pure htotal

theorem dot_meets (ha : HasType a t) (hb : HasType b u)
    (hrefused : t ≠ u → fails (.refused (.typeMismatch t u))) :
    Meets fails (dot a b) fun e => t = u ∧ HasType e (scalarType u) := by
  by_cases htu : t = u
  · subst htu
    exact (dot_meets_of_types ha hb).imp fun e he => ⟨rfl, he⟩
  · unfold dot
    rw [ha.2, hb.2, if_pos (by simpa using htu)]
    exact Meets.refuse (hrefused htu)

theorem length_meets (hv : HasType v t) :
    Meets fails (length v) (HasType · (scalarType t)) := by
  unfold length
  apply (dot_meets_of_types hv hv).bind
  intro square hsquare
  exact sqrt_meets hsquare

theorem distance_meets (hx : HasType x t) (hy : HasType y t) :
    Meets fails (distance x y) (HasType · (scalarType t)) := by
  unfold distance
  apply (commonType_meets_of_types (t := t) (by simp [hx.2, hy.2]) (by simp)).bind
  intro _ _
  apply (arithmetic_meets rfl hx hy).bind
  intro difference hdifference
  exact length_meets hdifference

theorem sqrDistance_meets (hx : HasType x t) (hy : HasType y t) :
    Meets fails (sqrDistance x y) (HasType · (scalarType t)) := by
  unfold sqrDistance
  apply (commonType_meets_of_types (t := t) (by simp [hx.2, hy.2]) (by simp)).bind
  intro _ _
  apply (arithmetic_meets rfl hx hy).bind
  intro difference hdifference
  exact dot_meets_of_types hdifference hdifference

theorem normalize_meets (hv : HasType v t)
    (hrefused : t.isFloat = false → fails (.refused (.invalidCast t .float))) :
    Meets fails (normalize v) (HasType · t) := by
  unfold normalize
  rw [hv.2]
  cases hfloat : t.isFloat with
  | false => exact Meets.refuse (hrefused hfloat)
  | true =>
    apply (length_meets hv).bind
    intro size hsize
    rw [scalarType_of_isFloat hfloat] at hsize
    apply (arithmetic_meets rfl (hasType_literal _ .float) hsize).bind
    intro inverse hinverse
    apply (cast_meets_of_isFloat hinverse rfl hfloat).bind
    intro factor hfactor
    exact arithmetic_meets rfl hv hfactor

theorem signedDistanceToPlane_meets {planePosition planeNormal position : Expr}
    (hplanePosition : HasType planePosition t) (hplaneNormal : HasType planeNormal t)
    (hposition : HasType position t) :
    Meets fails (signedDistanceToPlane planePosition planeNormal position)
      (HasType · (scalarType t)) := by
  unfold signedDistanceToPlane
  apply (commonType_meets_of_types (t := t)
    (by simp [hplanePosition.2, hplaneNormal.2, hposition.2]) (by simp)).bind
  intro _ _
  apply (dot_meets_of_types hplanePosition hplaneNormal).bind
  intro offset hoffset
  apply (dot_meets_of_types hposition hplaneNormal).bind
  intro height hheight
  exact arithmetic_meets rfl hheight hoffset

theorem leadingChannels_meets {operator : Operator} {least : Nat} (he : HasType e t)
    (hrefused : t.isFloat = false ∨ t.components < least →
      fails (.refused (.invalidArgument (.tooNarrow operator least t)))) :
    Meets fails (leadingChannels operator least e) fun cs =>
      t.isFloat = true ∧ least ≤ cs.length ∧ ∀ c ∈ cs, HasType c .float := by
  unfold leadingChannels
  rw [he.2]
  by_cases hwide : t.isFloat = true ∧ least ≤ t.components
  · rw [if_neg (by simpa [hwide.1] using hwide.2)]
    apply (channels_meets he hwide.1).imp
    intro cs hcs
    exact ⟨hwide.1, hcs.1 ▸ hwide.2, hcs.2⟩
  · have hnarrow : t.isFloat = false ∨ t.components < least := by
      rcases not_and_or.1 hwide with hint | hless
      · exact .inl (by simpa using hint)
      · exact .inr (by omega)
    rw [if_pos (by simpa using hnarrow)]
    exact Meets.refuse (hrefused hnarrow)

section Coordinates

theorem requireAngle_meets (hrefused : e.type ≠ .float →
      fails (.refused (.typeMismatch e.type .float))) :
    Meets fails (requireAngle e) fun _ => e.type = .float := by
  unfold requireAngle
  split
  · exact Meets.pure ‹_›
  · exact Meets.refuse (hrefused ‹_›)

theorem polarToRectangular_meets {theta distance : Expr} (htheta : theta.WellFormed)
    (hdistance : HasType distance t)
    (hangle : theta.type ≠ .float → fails (.refused (.typeMismatch theta.type .float)))
    (hcast : t.isFloat = false → fails (.refused (.invalidCast t .float2))) :
    Meets fails (polarToRectangular theta distance) (HasType · .float2) := by
  unfold polarToRectangular
  apply (requireAngle_meets hangle).bind
  intro _ hfloat
  have htheta : HasType theta .float := ⟨htheta, hfloat⟩
  apply (cast_meets (t := .float2) hdistance (by simpa [ValueType.isFloat] using hcast)).bind
  intro distance hdistance
  apply (elementwise_meets rfl htheta).bind
  intro cosine hcosine
  apply (elementwise_meets rfl htheta).bind
  intro sine hsine
  have hparts : ∀ c ∈ [cosine, sine], HasType c .float := by simp [hcosine, hsine]
  apply (combine_meets (t := .float2) hparts rfl (by decide) rfl).bind
  intro direction hdirection
  exact arithmetic_meets rfl hdirection hdistance

theorem rectangularToPolar_meets (he : HasType e t)
    (hrefused : t.isFloat = false ∨ t.components < 2 →
      fails (.refused (.invalidArgument (.tooNarrow .rectangularToPolar 2 t)))) :
    Meets fails (rectangularToPolar e) fun p =>
      HasType p.theta .float ∧ HasType p.distance .float := by
  unfold rectangularToPolar
  apply (leadingChannels_meets he hrefused).bind
  intro cs hcs
  obtain ⟨hfloat, hlength, hcs⟩ := hcs
  match cs, hlength, hcs with
  | x :: y :: _, _, hcs =>
    apply (arithmetic_meets rfl (hcs y (by simp)) (hcs x (by simp))).bind
    intro theta htheta
    apply (length_meets he).bind
    intro distance hdistance
    exact Meets.pure ⟨htheta, scalarType_of_isFloat hfloat ▸ hdistance⟩

theorem sphericalToRectangular_meets {theta phi distance : Expr} (htheta : theta.WellFormed)
    (hphi : phi.WellFormed) (hdistance : HasType distance t)
    (hangle : ∀ angle ∈ [theta, phi], angle.type ≠ .float →
      fails (.refused (.typeMismatch angle.type .float)))
    (hcast : t.isFloat = false → fails (.refused (.invalidCast t .float3))) :
    Meets fails (sphericalToRectangular theta phi distance) (HasType · .float3) := by
  unfold sphericalToRectangular
  apply (requireAngle_meets (hangle theta (by simp))).bind
  intro _ hthetaFloat
  apply (requireAngle_meets (hangle phi (by simp))).bind
  intro _ hphiFloat
  have htheta : HasType theta .float := ⟨htheta, hthetaFloat⟩
  have hphi : HasType phi .float := ⟨hphi, hphiFloat⟩
  apply (cast_meets (t := .float3) hdistance (by simpa [ValueType.isFloat] using hcast)).bind
  intro distance hdistance
  apply (elementwise_meets rfl htheta).bind
  intro cosTheta hcosTheta
  apply (elementwise_meets rfl htheta).bind
  intro sinTheta hsinTheta
  apply (elementwise_meets rfl hphi).bind
  intro cosPhi hcosPhi
  apply (elementwise_meets rfl hphi).bind
  intro sinPhi hsinPhi
  apply (arithmetic_meets rfl hcosTheta hcosPhi).bind
  intro x hx
  apply (arithmetic_meets rfl hsinTheta hcosPhi).bind
  intro z hz
  have hparts : ∀ c ∈ [x, sinPhi, z], HasType c .float := by simp [hx, hsinPhi, hz]
  apply (combine_meets (t := .float3) hparts rfl (by decide) rfl).bind
  intro direction hdirection
  exact arithmetic_meets rfl hdirection hdistance

theorem rectangularToSpherical_meets (he : HasType e t)
    (hrefused : t.isFloat = false ∨ t.components < 3 →
      fails (.refused (.invalidArgument (.tooNarrow .rectangularToSpherical 3 t)))) :
    Meets fails (rectangularToSpherical e) fun p =>
      HasType p.theta .float ∧ HasType p.phi .float ∧ HasType p.distance .float := by
  unfold rectangularToSpherical
  apply (leadingChannels_meets he hrefused).bind
  intro cs hcs
  obtain ⟨hfloat, hlength, hcs⟩ := hcs
  match cs, hlength, hcs with
  | x :: y :: z :: _, _, hcs =>
    apply (length_meets he).bind
    intro distance hdistance
    rw [scalarType_of_isFloat hfloat] at hdistance
    apply (arithmetic_meets rfl (hcs z (by simp)) (hcs x (by simp))).bind
    intro theta htheta
    apply (arithmetic_meets rfl (hcs y (by simp)) hdistance).bind
    intro sine hsine
    apply (elementwise_meets rfl hsine).bind
    intro phi hphi
    exact Meets.pure ⟨htheta, hphi, hdistance⟩

end Coordinates

section Solid

variable {radius height r s major minor : Expr}

theorem circleArea_meets (hradius : HasType radius t) :
    Meets fails (circleArea radius) (HasType · t) := by
  unfold circleArea
  rw [hradius.2]
  apply (arithmetic_meets rfl (hasType_literal _ t) hradius).bind
  intro product hproduct
  exact arithmetic_meets rfl hproduct hradius

theorem circleCircumference_meets (hradius : HasType radius t) :
    Meets fails (circleCircumference radius) (HasType · t) := by
  unfold circleCircumference
  rw [hradius.2]
  exact arithmetic_meets rfl (hasType_literal _ t) hradius

theorem boxVolume_meets (he : HasType e t)
    (hrefused : t.isFloat = false ∨ t.components < 3 →
      fails (.refused (.invalidArgument (.tooNarrow .boxVolume 3 t)))) :
    Meets fails (boxVolume e) (HasType · .float) := by
  unfold boxVolume
  apply (leadingChannels_meets he hrefused).bind
  intro cs hcs
  obtain ⟨-, hlength, hcs⟩ := hcs
  match cs, hlength, hcs with
  | x :: y :: z :: _, _, hcs =>
    apply (arithmetic_meets rfl (hcs x (by simp)) (hcs y (by simp))).bind
    intro area harea
    exact arithmetic_meets rfl harea (hcs z (by simp))

theorem sphereVolume_meets (hradius : HasType radius t) :
    Meets fails (sphereVolume radius) (HasType · t) := by
  unfold sphereVolume
  rw [hradius.2]
  apply (splat_meets _ t).bind
  intro factor hfactor
  apply (arithmetic_meets rfl hfactor hradius).bind
  intro line hline
  apply (arithmetic_meets rfl hline hradius).bind
  intro area harea
  exact arithmetic_meets rfl harea hradius

theorem cylinderVolume_meets (hradius : HasType radius t) (hheight : HasType height t) :
    Meets fails (cylinderVolume radius height) (HasType · t) := by
  unfold cylinderVolume
  apply (commonType_meets_of_types (t := t) (by simp [hradius.2, hheight.2]) (by simp)).bind
  intro _ _
  apply (circleArea_meets hradius).bind
  intro area harea
  exact arithmetic_meets rfl harea hheight

theorem coneVolume_meets (hr : HasType r t) (hs : HasType s t) (hheight : HasType height t) :
    Meets fails (coneVolume r s height) (HasType · t) := by
  unfold coneVolume
  rw [hr.2]
  apply (commonType_meets_of_types (t := t) (by simp [hr.2, hs.2, hheight.2]) (by simp)).bind
  intro _ _
  apply (splat_meets _ t).bind
  intro factor hfactor
  apply (arithmetic_meets rfl hr hr).bind
  intro large hlarge
  apply (arithmetic_meets rfl hr hs).bind
  intro mixed hmixed
  apply (arithmetic_meets rfl hlarge hmixed).bind
  intro part hpart
  apply (arithmetic_meets rfl hs hs).bind
  intro small hsmall
  apply (arithmetic_meets rfl hpart hsmall).bind
  intro squares hsquares
  apply (arithmetic_meets rfl hfactor hsquares).bind
  intro area harea
  exact arithmetic_meets rfl harea hheight

theorem torusVolume_meets (hmajor : HasType major t) (hminor : HasType minor t) :
    Meets fails (torusVolume major minor) (HasType · t) := by
  unfold torusVolume
  apply (commonType_meets_of_types (t := t) (by simp [hmajor.2, hminor.2]) (by simp)).bind
  intro _ _
  apply (circleArea_meets hminor).bind
  intro area harea
  apply (circleCircumference_meets hmajor).bind
  intro circumference hcircumference
  exact arithmetic_meets rfl harea hcircumference

end Solid

section Color

variable {color : Expr}

theorem colorLuma_meets (hcolor : HasType color t)
    (hrefused : t ≠ .float3 → t ≠ .float4 → fails (.refused (.typeMismatch t .float4))) :
    Meets fails (colorLuma color) (HasType · .float) := by
  unfold colorLuma
  rw [hcolor.2]
  by_cases hthree : t = .float3
  · subst hthree
    apply (constant_meets _).bind
    intro weights hweights
    exact dot_meets_of_types hcolor hweights
  · simp only [hthree, if_false]
    apply (constant_meets _).bind
    intro weights hweights
    exact (dot_meets hcolor hweights (hrefused hthree)).imp fun luma hluma => hluma.2

/-- The power of a colour has the type of the colour. -/
theorem colorPower_meets {operator : Operator} {exponent : Single} (hcolor : HasType color t)
    (hrefused : t ≠ .float3 → t ≠ .float4 →
      fails (.refused (.invalidArgument (.notColor operator t)))) :
    Meets fails (colorPower operator exponent color) (HasType · t) := by
  unfold colorPower
  rw [hcolor.2]
  by_cases hwide : t = .float3 ∨ t = .float4
  · rw [if_pos hwide]
    have hfloat : t.isFloat = true := by
      rcases hwide with rfl | rfl <;> rfl
    have hmany : t.components ≠ 1 := by
      rcases hwide with rfl | rfl <;> decide
    apply (constant_meets (.float exponent)).bind
    intro exponent hexponent
    apply (channels_meets hcolor hfloat).bind
    intro parts hparts
    have hpower : ∀ c ∈ parts.take 3, Meets fails (pow c exponent) (HasType · .float) :=
      fun c hc => arithmetic_meets rfl (hparts.2 c (List.mem_of_mem_take hc)) hexponent
    apply (Meets.mapM hpower).bind
    intro powers hpowers
    refine combine_meets ?_ hfloat hmany ?_
    · intro c hc
      rcases List.mem_append.1 hc with hc | hc
      · exact hpowers.2 c hc
      · exact hparts.2 c (List.mem_of_mem_drop hc)
    · rw [List.length_append, hpowers.1, ← List.length_append, List.take_append_drop, hparts.1]
  · rw [if_neg hwide]
    exact Meets.refuse (hrefused (fun h => hwide (.inl h)) fun h => hwide (.inr h))

end Color

end ShaderAlgebra.Formula
