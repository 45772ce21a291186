import ShaderAlgebra.Proofs.Build.Making
import ShaderAlgebra.Proofs.Evaluation.Conversion
import ShaderAlgebra.Proofs.Operator.Simulation
import ShaderAlgebra.Proofs.Operator.WellFormed

/-!
# What a refused call has made

Most operators check all their operands before they make a node. The exceptions
are a conversion of a constant that comes before the type of the operand is
looked at, the conversion of a first bound before the second one, and the
widening of float operands before they are compared. How many nodes a run makes
depends on the types of the operands alone, so it is enough to look at
well-formed operands of each type.
-/

namespace ShaderAlgebra

namespace Formula

open ShaderAlgebra.Expr Build Correspondence

variable {e x y : Expr} {s t : ValueType} {operands : List Expr}

section Conversions

def placeholder (t : ValueType) : Expr := .leaf 0 (.input t "")

theorem type_placeholder (t : ValueType) : (placeholder t).type = t := rfl

theorem wellFormed_placeholder (t : ValueType) : (placeholder t).WellFormed := by
  refine wellFormed_iff.2 ⟨rfl, ?_⟩
  intro a ha
  cases ha

/-- Well-formed operands of the same types. -/
theorem exists_wellFormed (operands : List Expr) :
    ∃ others, List.Forall₂ (fun a b : Expr => a.type = b.type) operands others ∧
      (∀ e ∈ others, e.WellFormed) ∧ others.map (·.type) = operands.map (·.type) := by
  refine ⟨operands.map fun e => placeholder e.type, ?_, ?_, List.map_map⟩
  · exact List.forall₂_map_right_iff.2 (List.forall₂_same.2 fun _ _ => rfl)
  · intro e he
    obtain ⟨_, _, rfl⟩ := List.mem_map.1 he
    exact wellFormed_placeholder _

/-- The number of nodes of a conversion between float types: the channels of a vector, the
fillers after them, and the new vector. -/
def castNodes (s t : ValueType) : Nat :=
  if s = t then 0
  else (if s.components = 1 then 0 else s.components + (t.components - s.components)) +
    if t.components = 1 then 0 else 1

theorem cast_placeholder_makes (hs : s.isFloat = true) (ht : t.isFloat = true) (filler : Single)
    (next : Nat) :
    ((cast (placeholder s) t filler).runFrom next).2 = next + castNodes s t := by
  cases s with
  | int | uint => cases hs
  | float | float2 | float3 | float4 =>
    cases t with
    | int | uint => cases ht
    | float | float2 | float3 | float4 => rfl

theorem castNodes_pos (hs : s.isFloat = true) (ht : t.isFloat = true) (hne : s ≠ t) :
    0 < castNodes s t := by
  have hwide : s.components ≠ 1 ∨ t.components ≠ 1 := by
    by_contra hboth
    obtain ⟨hsOne, htOne⟩ := not_or.1 hboth
    rw [not_not] at hsOne htOne
    exact hne ((ValueType.eq_float_of_components hs hsOne).trans
      (ValueType.eq_float_of_components ht htOne).symm)
  have hcomponents := s.components_pos
  unfold castNodes
  rw [if_neg hne]
  split <;> split <;> omega

/-- A conversion is refused before it makes a node. -/
theorem cast_failsFirst (e : Expr) (t : ValueType) (filler : Single) :
    FailsFirst (cast e t filler) := by
  by_cases hfloat : e.type.isFloat = true ∧ t.isFloat = true
  · have hplaceholder : FailsFirst (cast (placeholder e.type) t filler) :=
      (cast_meets_of_isFloat (wellFormed_placeholder e.type).hasType hfloat.1 hfloat.2).failsFirst
    exact hplaceholder.of_byType fun w => cast_simulates rfl
  · unfold cast
    rw [if_pos (by simpa [imp_iff_or_not, or_comm] using hfloat)]
    exact failsFirst_refuse _

theorem cast_makesNode {filler : Single} (hs : e.type.isFloat = true) (ht : t.isFloat = true)
    (hne : e.type ≠ t) : MakesNode (cast e t filler) := by
  intro next
  have hside (w : Nat) : byType.Simulates w (cast e t filler)
      (cast (placeholder e.type) t filler) byType.Related := cast_simulates rfl
  rw [(alike_of_byType hside next).1, cast_placeholder_makes hs ht]
  have hpos := castNodes_pos hs ht hne
  omega

/-- Two operands are floats of different widths. -/
def MixesFloats (types : List ValueType) : Prop :=
  ∃ s ∈ types, ∃ t ∈ types, s.isFloat = true ∧ t.isFloat = true ∧ s ≠ t

instance (types : List ValueType) : Decidable (MixesFloats types) := by
  unfold MixesFloats
  infer_instance

theorem widen_eq_pure {filler : Single} (h : ¬MixesFloats (operands.map (·.type))) :
    widen operands filler = pure operands := by
  have hself (target : ValueType) (htarget : widest? operands = some target) :
      ∀ e ∈ operands,
        (if e.type.isFloat then cast e target filler else return e) = (pure e : Build Expr) := by
    intro e he
    by_cases hfloat : e.type.isFloat = true
    · obtain ⟨widest, hwidest, rfl⟩ := exists_of_widest? htarget
      have hsame : e.type = widest.type := by
        by_contra hne
        exact h ⟨e.type, List.mem_map_of_mem he, widest.type, List.mem_map_of_mem hwidest, hfloat,
          isFloat_of_widest? htarget he hfloat, hne⟩
      rw [if_pos hfloat, ← hsame]
      unfold cast
      rw [if_neg (by simp [hfloat]), if_pos rfl]
    · rw [if_neg hfloat]
  unfold widen
  split
  next target htarget =>
    split
    · rfl
    · exact mapM_eq_pure (hself target htarget)
  · rfl

theorem widen_makesNode {filler : Single} (hwell : ∀ e ∈ operands, e.WellFormed)
    (h : MixesFloats (operands.map (·.type))) : MakesNode (widen operands filler) := by
  obtain ⟨_, hs, _, ht, hsFloat, htFloat, hne⟩ := h
  obtain ⟨x, hx, rfl⟩ := List.mem_map.1 hs
  obtain ⟨y, hy, rfl⟩ := List.mem_map.1 ht
  have hseveral : ¬operands.length < 2 := by
    intro hfew
    match operands, hfew, hx, hy with
    | [e], _, hx, hy =>
      rw [List.mem_singleton] at hx hy
      exact hne (by rw [hx, hy])
  obtain ⟨target, htarget⟩ := exists_widest? (List.ne_nil_of_mem hx)
  have hfloat {e : Expr} (he : e ∈ operands) (h : e.type.isFloat = true) :
      target.isFloat = true := isFloat_of_widest? htarget he h
  unfold widen
  rw [htarget]
  dsimp only
  rw [if_neg hseveral]
  refine MakesNode.mapM (P := fun _ => True) ?_ ?_ ?_
  · intro e _
    split
    · exact grows_of_byType fun w => cast_simulates rfl
    · exact Grows.pure e
  · intro e he
    split
    next h =>
      exact (cast_meets_of_isFloat (hwell e he).hasType h (hfloat he h)).imp fun _ _ => trivial
    · exact Meets.pure trivial
  · -- Of two floats of different widths one is narrower than the widest.
    by_cases hxt : x.type = target
    · refine ⟨y, hy, ?_⟩
      rw [if_pos htFloat]
      exact cast_makesNode htFloat (hfloat hy htFloat) fun hyt => hne (hxt.trans hyt.symm)
    · refine ⟨x, hx, ?_⟩
      rw [if_pos hsFloat]
      exact cast_makesNode hsFloat (hfloat hx hsFloat) hxt

end Conversions

section Checks

theorem commonType_cases (operands : List Expr) :
    (∃ e, commonType operands = refuse e) ∨
      ∃ t, commonType operands = pure t ∧ ∀ e ∈ operands, e.type = t := by
  cases operands with
  | nil => exact .inl ⟨_, rfl⟩
  | cons first others =>
    unfold commonType
    dsimp only
    cases hother : others.find? (·.type != first.type) with
    | some other => exact .inl ⟨_, rfl⟩
    | none =>
      rw [List.find?_eq_none] at hother
      exact .inr ⟨_, rfl, by simpa using hother⟩

/-- A formula that compares the types of its operands and cannot fail after that. -/
theorem failsFirst_of_commonType {f : ValueType → Build Expr} {post : ValueType → Expr → Prop}
    (hwell : ∀ e ∈ operands, e.WellFormed)
    (h : ∀ t, (∀ e ∈ operands, HasType e t) →
      Meets (fun _ => False) (do f (← commonType operands)) (post t)) :
    FailsFirst (do f (← commonType operands)) := by
  rcases commonType_cases operands with ⟨e, he⟩ | ⟨t, -, ht⟩
  · rw [he]
    exact failsFirst_refuse e
  · exact (h t fun e he => ⟨hwell e he, ht e he⟩).failsFirst

theorem clamp_failsFirst {lo hi : Expr} (hx : x.WellFormed) (hlo : lo.WellFormed)
    (hhi : hi.WellFormed)
    (h : ¬(x.type.isFloat = true ∧ lo.type.isFloat = true ∧ x.type ≠ lo.type)) :
    FailsFirst (clamp x lo hi) := by
  by_cases hsame : lo.type = x.type
  · refine failsFirst_of_refuses
      (fun hrefused : hi.type ≠ x.type ∧ (hi.type.isFloat && x.type.isFloat) = false => ?_)
      (clamp_meets hx.hasType hlo.hasType hhi.hasType (fun hne => absurd hsame hne)
        fun hne hboth => ⟨hne, hboth⟩)
    unfold clamp asType cast
    rw [if_pos hsame, pure_bind, if_neg hrefused.1, ← Bool.not_and, hrefused.2]
    exact ⟨_, rfl⟩
  · have hboth : (lo.type.isFloat && x.type.isFloat) = false := by
      rw [← Bool.not_eq_true, Bool.and_eq_true]
      exact fun hfloat => h ⟨hfloat.2, hfloat.1, Ne.symm hsame⟩
    unfold clamp asType cast
    rw [if_neg hsame, ← Bool.not_and, hboth]
    exact failsFirst_refuse _

/-- The first bound is converted before the second one is looked at. -/
theorem clamp_makesNode {lo hi : Expr} (hx : x.type.isFloat = true)
    (hlo : lo.type.isFloat = true) (hne : x.type ≠ lo.type) : MakesNode (clamp x lo hi) := by
  unfold clamp
  refine MakesNode.bind ?_ fun lo => ?_
  · unfold asType
    rw [if_neg hne.symm]
    exact cast_makesNode hlo hx hne.symm
  · apply Grows.bind (grows_of_byType fun w => asType_simulates rfl)
    intro hi
    apply Grows.bind (grows_of_byType fun w => binary_simulates rfl rfl)
    intro least
    exact grows_of_byType fun w => binary_simulates rfl rfl

/-- The factor is made before the type of the operand is looked at. -/
theorem scaleBy_makesNode (factor : Single) (x : Expr) : MakesNode (scaleBy factor x) := by
  unfold scaleBy
  apply (makesNode_node _).bind
  intro scalar
  apply Grows.bind (grows_of_byType fun w => cast_simulates rfl)
  intro vector
  exact grows_of_byType fun w => binary_simulates rfl rfl

/-- The weights are made before the type of the colour is looked at. -/
theorem colorLuma_makesNode (color : Expr) : MakesNode (colorLuma color) := by
  unfold colorLuma
  apply (makesNode_node _).bind
  intro weights
  exact grows_of_byType fun w => dot_simulates rfl rfl

theorem normalize_failsFirst (he : HasType e t) : FailsFirst (normalize e) := by
  refine failsFirst_of_refuses (fun hint : t.isFloat = false => ?_)
    (normalize_meets he fun hint => hint)
  unfold normalize
  rw [he.2, hint]
  exact ⟨_, rfl⟩

theorem dot_failsFirst (hx : HasType x s) (hy : HasType y t) : FailsFirst (dot x y) := by
  refine failsFirst_of_refuses (fun hne : s ≠ t => ?_) (dot_meets hx hy fun hne => hne)
  unfold dot
  rw [hx.2, hy.2, if_pos (by simpa using hne)]
  exact ⟨_, rfl⟩

theorem polarToRectangular_failsFirst (hx : x.WellFormed) (hy : HasType y t) :
    FailsFirst (polarToRectangular x y) := by
  by_cases hangle : x.type = .float
  · refine failsFirst_of_refuses (fun hint : t.isFloat = false => ?_)
      (polarToRectangular_meets hx hy (fun h => absurd hangle h) fun hint => hint)
    unfold polarToRectangular requireAngle cast
    rw [if_pos hangle, hy.2, hint]
    exact ⟨_, rfl⟩
  · unfold polarToRectangular requireAngle
    rw [if_neg hangle]
    exact failsFirst_refuse _

theorem sphericalToRectangular_failsFirst (hx : x.WellFormed) (hy : y.WellFormed)
    (he : HasType e t) : FailsFirst (sphericalToRectangular x y e) := by
  by_cases hangles : x.type = .float ∧ y.type = .float
  · have hangle : ∀ angle ∈ [x, y], angle.type ≠ .float → t.isFloat = false := by
      simp [hangles.1, hangles.2]
    refine failsFirst_of_refuses (fun hint : t.isFloat = false => ?_)
      (sphericalToRectangular_meets hx hy he hangle fun hint => hint)
    unfold sphericalToRectangular requireAngle cast
    rw [if_pos hangles.1, if_pos hangles.2, he.2, hint]
    exact ⟨_, rfl⟩
  · unfold sphericalToRectangular requireAngle
    by_cases hfirst : x.type = .float
    · rw [if_pos hfirst, if_neg fun hsecond => hangles ⟨hfirst, hsecond⟩]
      exact failsFirst_refuse _
    · rw [if_neg hfirst]
      exact failsFirst_refuse _

/-- A vector with too few channels, or none of floats. -/
theorem leadingChannels_eq_refuse {operator : Operator} {least : Nat} (he : HasType e t)
    (h : t.isFloat = false ∨ t.components < least) :
    leadingChannels operator least e = refuse (.invalidArgument (.tooNarrow operator least t)) := by
  unfold leadingChannels
  rw [he.2, if_pos (by simpa using h)]

theorem rectangularToPolar_failsFirst (he : HasType e t) : FailsFirst (rectangularToPolar e) := by
  refine failsFirst_of_refuses (fun hnarrow : t.isFloat = false ∨ t.components < 2 => ?_)
    (rectangularToPolar_meets he fun hnarrow => hnarrow)
  unfold rectangularToPolar
  rw [leadingChannels_eq_refuse he hnarrow]
  exact ⟨_, rfl⟩

theorem rectangularToSpherical_failsFirst (he : HasType e t) :
    FailsFirst (rectangularToSpherical e) := by
  refine failsFirst_of_refuses (fun hnarrow : t.isFloat = false ∨ t.components < 3 => ?_)
    (rectangularToSpherical_meets he fun hnarrow => hnarrow)
  unfold rectangularToSpherical
  rw [leadingChannels_eq_refuse he hnarrow]
  exact ⟨_, rfl⟩

theorem boxVolume_failsFirst (he : HasType e t) : FailsFirst (boxVolume e) := by
  refine failsFirst_of_refuses (fun hnarrow : t.isFloat = false ∨ t.components < 3 => ?_)
    (boxVolume_meets he fun hnarrow => hnarrow)
  unfold boxVolume
  rw [leadingChannels_eq_refuse he hnarrow]
  exact ⟨_, rfl⟩

theorem colorPower_failsFirst {operator : Operator} {exponent : Single} (he : HasType e t) :
    FailsFirst (colorPower operator exponent e) := by
  refine failsFirst_of_refuses (fun hcolor : t ≠ .float3 ∧ t ≠ .float4 => ?_)
    (colorPower_meets he fun hthree hfour => ⟨hthree, hfour⟩)
  unfold colorPower
  rw [he.2, if_neg (by simpa using hcolor)]
  exact ⟨_, rfl⟩

theorem vanDerCorputSequence_failsFirst (he : HasType e t) :
    FailsFirst (vanDerCorputSequence e) := by
  refine failsFirst_of_refuses (fun hother : t ≠ .uint => ?_)
    (vanDerCorputSequence_meets he fun hother => hother)
  unfold vanDerCorputSequence
  rw [he.2, if_pos (by simpa using hother)]
  exact ⟨_, rfl⟩

theorem fixedRandom_failsFirst {perElement : Bool} (he : HasType e t) :
    FailsFirst (fixedRandom e perElement) := by
  refine failsFirst_of_refuses (fun hother : t ≠ .uint => ?_)
    (fixedRandom_meets he fun hother => hother)
  unfold fixedRandom
  rw [he.2, if_pos (by simpa using hother)]
  exact ⟨_, rfl⟩

end Checks

end Formula

namespace Operator

open ShaderAlgebra.Expr Build Formula

variable {op : Operator} {operands : List Expr}

/-- Whether the formula of an operator makes a node before it has looked at the types of all
its operands. -/
def MakesFirst : Operator → List ValueType → Prop
  | degToRad, [_] | radToDeg, [_] | colorLuma, [_] => True
  | clamp, [t, lo, _] => t.isFloat = true ∧ lo.isFloat = true ∧ t ≠ lo
  | _, _ => False

theorem build_failsFirst (hwell : ∀ e ∈ operands, e.WellFormed)
    (h : ¬op.MakesFirst (operands.map (·.type))) : FailsFirst (op.build operands) := by
  by_cases hcount : operands.length = op.arity
  · cases op with
    | negate =>
      obtain ⟨x, rfl⟩ := List.length_eq_one_iff.1 hcount
      exact (negate_meets (hwell x (by simp)).hasType).failsFirst.return
    | clamp =>
      obtain ⟨x, lo, hi, rfl⟩ := List.length_eq_three.1 hcount
      exact (clamp_failsFirst (hwell x (by simp)) (hwell lo (by simp)) (hwell hi (by simp))
        h).return
    | saturate =>
      obtain ⟨x, rfl⟩ := List.length_eq_one_iff.1 hcount
      exact (saturate_meets (hwell x (by simp)).hasType).failsFirst.return
    | frac =>
      obtain ⟨x, rfl⟩ := List.length_eq_one_iff.1 hcount
      exact (frac_meets (hwell x (by simp)).hasType).failsFirst.return
    | round =>
      obtain ⟨x, rfl⟩ := List.length_eq_one_iff.1 hcount
      exact (round_meets (hwell x (by simp)).hasType).failsFirst.return
    | log =>
      obtain ⟨x, y, rfl⟩ := List.length_eq_two.1 hcount
      exact (failsFirst_of_commonType hwell fun t ht =>
        log_meets (ht x (by simp)) (ht y (by simp))).return
    | atanh =>
      obtain ⟨x, rfl⟩ := List.length_eq_one_iff.1 hcount
      exact (atanh_meets (hwell x (by simp)).hasType).failsFirst.return
    | sinh =>
      obtain ⟨x, rfl⟩ := List.length_eq_one_iff.1 hcount
      exact (sinh_meets (hwell x (by simp)).hasType).failsFirst.return
    | cosh =>
      obtain ⟨x, rfl⟩ := List.length_eq_one_iff.1 hcount
      exact (cosh_meets (hwell x (by simp)).hasType).failsFirst.return
    | tanh =>
      obtain ⟨x, rfl⟩ := List.length_eq_one_iff.1 hcount
      exact (tanh_meets (hwell x (by simp)).hasType).failsFirst.return
    | sqrt =>
      obtain ⟨x, rfl⟩ := List.length_eq_one_iff.1 hcount
      exact (sqrt_meets (hwell x (by simp)).hasType).failsFirst.return
    | lerp =>
      obtain ⟨x, y, z, rfl⟩ := List.length_eq_three.1 hcount
      exact (failsFirst_of_commonType hwell fun t ht =>
        lerp_meets (ht x (by simp)) (ht y (by simp)) (ht z (by simp))).return
    | fit =>
      match operands, hcount with
      | [v, a, b, c, d], _ =>
        exact (failsFirst_of_commonType hwell fun t ht =>
          fit_meets (ht v (by simp)) (ht a (by simp)) (ht b (by simp)) (ht c (by simp))
            (ht d (by simp))).return
    | modulo =>
      obtain ⟨x, y, rfl⟩ := List.length_eq_two.1 hcount
      exact (failsFirst_of_commonType hwell fun t ht =>
        modulo_meets (ht x (by simp)) (ht y (by simp))).return
    | smoothstep =>
      obtain ⟨x, y, z, rfl⟩ := List.length_eq_three.1 hcount
      exact (failsFirst_of_commonType hwell fun t ht =>
        smoothstep_meets (ht x (by simp)) (ht y (by simp)) (ht z (by simp))).return
    | discretize =>
      obtain ⟨x, y, rfl⟩ := List.length_eq_two.1 hcount
      exact (failsFirst_of_commonType hwell fun t ht =>
        discretize_meets (ht x (by simp)) (ht y (by simp))).return
    | degToRad =>
      obtain ⟨x, rfl⟩ := List.length_eq_one_iff.1 hcount
      exact absurd trivial h
    | radToDeg =>
      obtain ⟨x, rfl⟩ := List.length_eq_one_iff.1 hcount
      exact absurd trivial h
    | dot =>
      obtain ⟨x, y, rfl⟩ := List.length_eq_two.1 hcount
      exact (dot_failsFirst (hwell x (by simp)).hasType (hwell y (by simp)).hasType).return
    | length =>
      obtain ⟨x, rfl⟩ := List.length_eq_one_iff.1 hcount
      exact (length_meets (hwell x (by simp)).hasType).failsFirst.return
    | distance =>
      obtain ⟨x, y, rfl⟩ := List.length_eq_two.1 hcount
      exact (failsFirst_of_commonType hwell fun t ht =>
        distance_meets (ht x (by simp)) (ht y (by simp))).return
    | sqrDistance =>
      obtain ⟨x, y, rfl⟩ := List.length_eq_two.1 hcount
      exact (failsFirst_of_commonType hwell fun t ht =>
        sqrDistance_meets (ht x (by simp)) (ht y (by simp))).return
    | normalize =>
      obtain ⟨x, rfl⟩ := List.length_eq_one_iff.1 hcount
      exact (normalize_failsFirst (hwell x (by simp)).hasType).return
    | polarToRectangular =>
      obtain ⟨x, y, rfl⟩ := List.length_eq_two.1 hcount
      exact (polarToRectangular_failsFirst (hwell x (by simp)) (hwell y (by simp)).hasType).return
    | rectangularToPolar =>
      obtain ⟨x, rfl⟩ := List.length_eq_one_iff.1 hcount
      exact (rectangularToPolar_failsFirst (hwell x (by simp)).hasType).return
    | sphericalToRectangular =>
      obtain ⟨x, y, z, rfl⟩ := List.length_eq_three.1 hcount
      exact (sphericalToRectangular_failsFirst (hwell x (by simp)) (hwell y (by simp))
        (hwell z (by simp)).hasType).return
    | rectangularToSpherical =>
      obtain ⟨x, rfl⟩ := List.length_eq_one_iff.1 hcount
      exact (rectangularToSpherical_failsFirst (hwell x (by simp)).hasType).return
    | circleArea =>
      obtain ⟨x, rfl⟩ := List.length_eq_one_iff.1 hcount
      exact (circleArea_meets (hwell x (by simp)).hasType).failsFirst.return
    | circleCircumference =>
      obtain ⟨x, rfl⟩ := List.length_eq_one_iff.1 hcount
      exact (circleCircumference_meets (hwell x (by simp)).hasType).failsFirst.return
    | boxVolume =>
      obtain ⟨x, rfl⟩ := List.length_eq_one_iff.1 hcount
      exact (boxVolume_failsFirst (hwell x (by simp)).hasType).return
    | sphereVolume =>
      obtain ⟨x, rfl⟩ := List.length_eq_one_iff.1 hcount
      exact (sphereVolume_meets (hwell x (by simp)).hasType).failsFirst.return
    | cylinderVolume =>
      obtain ⟨x, y, rfl⟩ := List.length_eq_two.1 hcount
      exact (failsFirst_of_commonType hwell fun t ht =>
        cylinderVolume_meets (ht x (by simp)) (ht y (by simp))).return
    | coneVolume =>
      obtain ⟨x, y, z, rfl⟩ := List.length_eq_three.1 hcount
      exact (failsFirst_of_commonType hwell fun t ht =>
        coneVolume_meets (ht x (by simp)) (ht y (by simp)) (ht z (by simp))).return
    | torusVolume =>
      obtain ⟨x, y, rfl⟩ := List.length_eq_two.1 hcount
      exact (failsFirst_of_commonType hwell fun t ht =>
        torusVolume_meets (ht x (by simp)) (ht y (by simp))).return
    | signedDistanceToPlane =>
      obtain ⟨x, y, z, rfl⟩ := List.length_eq_three.1 hcount
      have hwell : ∀ e ∈ [y, x, z], e.WellFormed :=
        fun e he => hwell e (by simpa [or_left_comm] using he)
      exact (failsFirst_of_commonType hwell fun t ht =>
        signedDistanceToPlane_meets (ht x (by simp)) (ht y (by simp)) (ht z (by simp))).return
    | colorLuma =>
      obtain ⟨x, rfl⟩ := List.length_eq_one_iff.1 hcount
      exact absurd trivial h
    | gammaToLinear =>
      obtain ⟨x, rfl⟩ := List.length_eq_one_iff.1 hcount
      exact (colorPower_failsFirst (hwell x (by simp)).hasType).return
    | linearToGamma =>
      obtain ⟨x, rfl⟩ := List.length_eq_one_iff.1 hcount
      exact (colorPower_failsFirst (hwell x (by simp)).hasType).return
    | vanDerCorputSequence =>
      obtain ⟨x, rfl⟩ := List.length_eq_one_iff.1 hcount
      exact (vanDerCorputSequence_failsFirst (hwell x (by simp)).hasType).return
    | fixedRandom =>
      obtain ⟨x, rfl⟩ := List.length_eq_one_iff.1 hcount
      exact (fixedRandom_failsFirst (hwell x (by simp)).hasType).return
    | fixedRandomPerElement =>
      obtain ⟨x, rfl⟩ := List.length_eq_one_iff.1 hcount
      exact (fixedRandom_failsFirst (hwell x (by simp)).hasType).return
  · rw [build_of_length_ne hcount]
    exact failsFirst_refuse _

theorem build_failsLate (h : op.MakesFirst (operands.map (·.type))) :
    FailsLate (op.build operands) := by
  unfold MakesFirst at h
  split at h
  next hop htypes =>
    obtain ⟨x, rfl, -⟩ := List.map_eq_singleton_iff.1 htypes
    exact (scaleBy_makesNode _ x).failsLate.return
  next hop htypes =>
    obtain ⟨x, rfl, -⟩ := List.map_eq_singleton_iff.1 htypes
    exact (scaleBy_makesNode _ x).failsLate.return
  next hop htypes =>
    obtain ⟨x, rfl, -⟩ := List.map_eq_singleton_iff.1 htypes
    exact (colorLuma_makesNode x).failsLate.return
  next hop t u v htypes =>
    match operands, htypes with
    | [x, lo, hi], rfl => exact (clamp_makesNode h.1 h.2.1 h.2.2).failsLate.return
  · exact h.elim

/-- Whether a call makes a node before it has looked at the types of all its operands:
operators that widen their operands compare their types only after that. -/
def CallMakesFirst (op : Operator) (types : List ValueType) : Prop :=
  if op.unifies then types.length = op.arity ∧ MixesFloats types else op.MakesFirst types

theorem MakesFirst.arity_and_unifies {types : List ValueType} (h : op.MakesFirst types) :
    types.length = op.arity ∧ op.unifies = false := by
  unfold MakesFirst at h
  split at h
  · exact ⟨rfl, rfl⟩
  · exact ⟨rfl, rfl⟩
  · exact ⟨rfl, rfl⟩
  · exact ⟨rfl, rfl⟩
  · exact h.elim

theorem apply_failsLate (hwell : ∀ e ∈ operands, e.WellFormed)
    (h : op.CallMakesFirst (operands.map (·.type))) : FailsLate (op.apply operands) := by
  unfold CallMakesFirst at h
  unfold Operator.apply
  split at h
  next hunifies =>
    have hcount : operands.length = op.arity := by simpa using h.1
    rw [if_neg (not_not.2 hcount), if_pos hunifies]
    refine MakesNode.failsLate ((widen_makesNode hwell h.2).bind fun widened => ?_)
    have hsame : List.Forall₂ (fun a b : Expr => a.type = b.type) widened widened :=
      List.forall₂_same.2 fun _ _ => rfl
    exact grows_of_byType fun w =>
      (commonType_simulates hsame).bind fun w' _ _ _ _ => build_simulates hsame
  next hunifies =>
    have hcount : operands.length = op.arity := by simpa using h.arity_and_unifies.1
    rw [if_neg (not_not.2 hcount), if_neg hunifies]
    exact build_failsLate h

theorem apply_failsFirst (hwell : ∀ e ∈ operands, e.WellFormed)
    (h : ¬op.CallMakesFirst (operands.map (·.type))) : FailsFirst (op.apply operands) := by
  unfold CallMakesFirst at h
  unfold Operator.apply
  by_cases hcount : operands.length = op.arity
  · rw [if_neg (not_not.2 hcount)]
    split at h
    next hunifies =>
      have hmixes : ¬MixesFloats (operands.map (·.type)) := fun hmixes =>
        h ⟨by simpa using hcount, hmixes⟩
      have hmakes : ¬op.MakesFirst (operands.map (·.type)) := fun hmakes => by
        rw [hmakes.arity_and_unifies.2] at hunifies
        cases hunifies
      rw [if_pos hunifies]
      unfold unify
      rw [widen_eq_pure hmixes, pure_bind]
      dsimp only
      rcases commonType_cases operands with ⟨e, he⟩ | ⟨t, ht, -⟩
      · rw [he]
        exact failsFirst_refuse e
      · rw [ht, pure_bind]
        exact build_failsFirst hwell hmakes
    next hunifies =>
      rw [if_neg hunifies]
      exact build_failsFirst hwell h
  · rw [if_pos hcount]
    exact failsFirst_refuse _

/-- A refused call has made nodes in vain exactly if it makes one before it has looked at the
types of all its operands. -/
theorem apply_refused_makes_iff (op : Operator) (operands : List Expr) (next : Nat)
    {failure : Failure} (h : ((op.apply operands).runFrom next).1 = .error failure) :
    next ≤ ((op.apply operands).runFrom next).2 ∧
      (next < ((op.apply operands).runFrom next).2 ↔
        op.CallMakesFirst (operands.map (·.type))) := by
  obtain ⟨others, hside, hwell, htypes⟩ := exists_wellFormed operands
  rw [← htypes]
  refine makes_iff (fun hmakes => ?_) (fun hnot => ?_) h
  · exact (apply_failsLate hwell hmakes).of_byType fun w => apply_simulates op hside
  · exact (apply_failsFirst hwell hnot).of_byType fun w => apply_simulates op hside

/-- The same of the formula of an operator, on operands as they are. -/
theorem build_refused_makes_iff (op : Operator) (operands : List Expr) (next : Nat)
    {failure : Failure} (h : ((op.build operands).runFrom next).1 = .error failure) :
    next ≤ ((op.build operands).runFrom next).2 ∧
      (next < ((op.build operands).runFrom next).2 ↔ op.MakesFirst (operands.map (·.type))) := by
  obtain ⟨others, hside, hwell, htypes⟩ := exists_wellFormed operands
  rw [← htypes]
  refine makes_iff (fun hmakes => ?_) (fun hnot => ?_) h
  · exact (build_failsLate hmakes).of_byType fun w => build_simulates hside
  · exact (build_failsFirst hwell hnot).of_byType fun w => build_simulates hside

/-- A call of the library: of an operator, of its formula on operands as they are, or of a
function on the way. The hash of random numbers may also be given as a literal. -/
inductive Call
  | apply (op : Operator) (operands : List Expr)
  | formula (op : Operator) (operands : List Expr)
  | cast (e : Expr) (target : ValueType) (filler : Single)
  | widen (operands : List Expr) (filler : Single)
  | commonType (operands : List Expr)
  | randomOfLiteral (hash : Constant) (perElement : Bool)

namespace Call

def run : Call → Build (List Expr)
  | apply op operands => op.apply operands
  | formula op operands => op.build operands
  | cast e target filler => do return [← Formula.cast e target filler]
  | widen operands filler => Formula.widen operands filler
  | commonType operands => do
    let _ ← Formula.commonType operands
    return []
  | randomOfLiteral hash perElement => do
    return [← Formula.fixedRandom (← Build.constant hash) perElement]

/-- Whether the call makes a node before it has looked at the types of all its operands; a
literal becomes a node before anything else. -/
def MakesFirst : Call → Prop
  | apply op operands => op.CallMakesFirst (operands.map (·.type))
  | formula op operands => op.MakesFirst (operands.map (·.type))
  | cast .. | widen .. | commonType _ => False
  | randomOfLiteral .. => True

theorem widen_failsFirst (operands : List Expr) (filler : Single) :
    FailsFirst (widen operands filler).run := by
  obtain ⟨others, hside, hwell, -⟩ := exists_wellFormed operands
  have hothers : FailsFirst (widen others filler).run := (widen_meets hwell).failsFirst
  exact hothers.of_byType fun w => widen_simulates hside

theorem commonType_failsFirst (operands : List Expr) : FailsFirst (commonType operands).run := by
  rcases commonType_cases operands with ⟨e, he⟩ | ⟨t, ht, -⟩
  · rw [run, he]
    exact failsFirst_refuse e
  · rw [run, ht]
    exact fun _ _ _ => rfl

theorem randomOfLiteral_failsLate (hash : Constant) (perElement : Bool) :
    FailsLate (randomOfLiteral hash perElement).run := by
  refine MakesNode.failsLate ((makesNode_node _).bind fun e => ?_)
  have hgrows : Grows (Formula.fixedRandom e perElement) :=
    grows_of_byType fun w => fixedRandom_simulates rfl
  exact hgrows.bind fun x => Grows.pure [x]

/-- A refused call of any of these functions has made nodes in vain exactly if it makes one
before it has looked at the types of all its operands. -/
theorem refused_makes_iff (c : Call) (next : Nat) {failure : Failure}
    (h : (c.run.runFrom next).1 = .error failure) :
    next ≤ (c.run.runFrom next).2 ∧ (next < (c.run.runFrom next).2 ↔ c.MakesFirst) := by
  cases c with
  | apply op operands => exact apply_refused_makes_iff op operands next h
  | formula op operands => exact build_refused_makes_iff op operands next h
  | cast e target filler =>
    exact makes_iff nofun (fun _ => (cast_failsFirst e target filler).return) h
  | widen operands filler => exact makes_iff nofun (fun _ => widen_failsFirst operands filler) h
  | commonType operands => exact makes_iff nofun (fun _ => commonType_failsFirst operands) h
  | randomOfLiteral hash perElement =>
    exact makes_iff (fun _ => randomOfLiteral_failsLate hash perElement)
      (fun hnot => absurd trivial hnot) h

end Call

def wholeAngle : List Expr := [.leaf 0 (.constant (.uint 1))]

theorem refused_makes_degToRad_randomOfLiteral :
    (((degToRad.apply wholeAngle).runFrom 1).1 = .error (.refused (.invalidCast .float .uint)) ∧
      1 < ((degToRad.apply wholeAngle).runFrom 1).2) ∧
    ((Call.randomOfLiteral (.int 1) false).run.runFrom 1).1 =
        .error (.refused (.invalidArgument (.notUnsigned .fixedRandom "uint hash" .int))) ∧
      1 < ((Call.randomOfLiteral (.int 1) false).run.runFrom 1).2 := by
  have hangle : ((degToRad.apply wholeAngle).runFrom 1).1 =
      .error (.refused (.invalidCast .float .uint)) := by decide
  have hhash : ((Call.randomOfLiteral (.int 1) false).run.runFrom 1).1 =
      .error (.refused (.invalidArgument (.notUnsigned .fixedRandom "uint hash" .int))) := by decide
  exact ⟨⟨hangle, (Call.refused_makes_iff (.apply degToRad wholeAngle) 1 hangle).2.2 trivial⟩,
    hhash, (Call.refused_makes_iff (.randomOfLiteral (.int 1) false) 1 hhash).2.2 trivial⟩

/-- Not every refused call leaves the nodes as they were. -/
theorem exists_refused_apply_makes_node :
    ¬∀ (op : Operator) (operands : List Expr) (next : Nat) (failure : Failure),
      ((op.apply operands).runFrom next).1 = .error failure →
        ((op.apply operands).runFrom next).2 = next := by
  intro h
  have hcount : ((degToRad.apply wholeAngle).runFrom 1).2 = 1 :=
    h degToRad wholeAngle 1 (.refused (.invalidCast .float .uint)) (by decide)
  exact absurd hcount (by decide)

end Operator

end ShaderAlgebra
