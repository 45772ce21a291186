import ShaderAlgebra.Operator.Apply
import ShaderAlgebra.Proofs.Build.Outcome

/-!
# Formulas end with a new layer

The last step of a formula puts a node over operands, so no result of an operator is a leaf.
Conversions, sums and channels may give back what they were given, but no leaf besides.
-/

namespace ShaderAlgebra

namespace Build

variable {α : Type} {step : Build α} {f : α → Build Expr}

/-- Every result has operands. -/
def Composite (step : Build Expr) : Prop := Meets (fun _ => True) step fun e => e.isLeaf = false

theorem meets_true (step : Build α) : Meets (fun _ => True) step fun _ => True := by
  intro next
  cases (step.runFrom next).1 <;> trivial

/-- Only the last step matters. -/
theorem Composite.last (h : ∀ a, Composite (f a)) : Composite (step >>= f) :=
  (meets_true step).bind fun a _ => h a

theorem composite_refuse {error : Error} : Composite (refuse error) := Meets.refuse trivial

theorem composite_unary {op : UnaryOp} {e : Expr} : Composite (unary op e) :=
  Meets.node fun _ => rfl

theorem composite_binary {op : BinaryOp} {a b : Expr} : Composite (binary op a b) := by
  unfold binary
  split
  · exact Meets.node fun _ => rfl
  · exact fun _ => trivial

theorem composite_channel {e : Expr} {i : Nat} : Composite (channel e i) := by
  unfold channel
  split
  · exact composite_unary
  · exact fun _ => trivial

theorem composite_shift {op : BinaryOp} {e : Expr} {bits : UInt32} :
    Composite (shift op e bits) :=
  .last fun _ => composite_binary

theorem composite_combine {es : List Expr} : Composite (combine es) := by
  unfold combine
  split
  · exact composite_refuse
  · split
    · exact Meets.node fun _ => rfl
    · exact Meets.node fun _ => rfl
    · exact Meets.node fun _ => rfl
    · exact composite_refuse

end Build

namespace Formula

open Build

variable {P : Expr → Prop} {e x y : Expr} {es : List Expr}

section Conversions

/-! A property of all nodes with operands, and of what is given, is one of what is given back. -/

variable (hnode : ∀ e : Expr, e.isLeaf = false → P e)

include hnode

theorem channels_keep (he : P e) :
    Meets (fun _ => True) (channels e) fun cs => cs ≠ [] ∧ ∀ c ∈ cs, P c := by
  unfold channels
  by_cases hone : e.type.components = 1
  · rw [if_pos hone]
    exact Meets.pure ⟨List.cons_ne_nil e [], by simpa using he⟩
  · rw [if_neg hone]
    have hchannel (i : Nat) : Meets (fun _ => True) (channel e i) P :=
      composite_channel.imp hnode
    refine (Meets.mapM fun i _ => hchannel i).imp fun cs hcs => ⟨?_, hcs.2⟩
    have hpos : 0 < e.type.components := by cases e.type <;> decide
    rintro rfl
    simp only [List.length_nil, List.length_range] at hcs
    omega

theorem sum_keep (h : ∀ e ∈ es, P e) :
    Meets (fun _ => True) (sum es) fun total => ∀ e ∈ total, P e := by
  unfold sum
  have hreverse : ∀ e ∈ es.reverse, P e := fun e he => h e (List.mem_reverse.1 he)
  generalize es.reverse = terms at hreverse
  cases terms with
  | nil => exact Meets.pure (by simp)
  | cons last others =>
    have hadd : ∀ e ∈ others, ∀ total, P total → Meets (fun _ => True) (add total e) P :=
      fun e _ total _ => composite_binary.imp hnode
    refine (Meets.foldlM hadd (hreverse last List.mem_cons_self)).map fun total htotal => ?_
    simpa using htotal

theorem cast_keep {t : ValueType} {filler : Single} (he : P e) :
    Meets (fun _ => True) (cast e t filler) P := by
  unfold cast
  split
  · exact Meets.refuse trivial
  · split
    · exact Meets.pure he
    · apply (channels_keep hnode he).bind
      rintro source ⟨hne, hsource⟩
      -- Only the first channel may be given back, and the filler is never the first one.
      refine Meets.bind (Meets.mapM_forall₂ (R := fun i c => i = 0 → P c) fun i _ => ?_) ?_
      · split
        · rename_i c hc
          exact Meets.pure fun _ => hsource c (List.mem_of_getElem? hc)
        · exact Meets.pure fun _ => hsource _ (by simp)
        · rename_i hnone
          refine (meets_true _).imp fun c _ hi => ?_
          rw [hi, List.getElem?_eq_none_iff] at hnone
          exact absurd (List.length_eq_zero_iff.1 (Nat.le_zero.1 hnone)) hne
      · intro result hresult
        split
        · obtain ⟨i, c, hrange, hc, hfirst⟩ := forall₂_one hresult rfl
          have hone : t.components = 1 := by simpa using congrArg List.length hrange
          rw [hone] at hrange
          obtain rfl := (List.cons.inj hc).1
          exact Meets.pure (hfirst (List.cons.inj hrange).1.symm)
        · exact composite_combine.imp hnode

theorem widen_keep {filler : Single} (h : ∀ e ∈ es, P e) :
    Meets (fun _ => True) (widen es filler) fun ws => ∀ w ∈ ws, P w := by
  unfold widen
  split
  · split
    · exact Meets.pure h
    · refine (Meets.mapM fun e he => ?_).imp fun _ hws => hws.2
      split
      · exact cast_keep hnode (h e he)
      · exact Meets.pure (h e he)
  · exact Meets.pure h

end Conversions

/-! ### Formulas -/

@[simp] theorem negate_composite : Composite (negate x) := composite_binary

@[simp] theorem clamp_composite {lo hi : Expr} : Composite (clamp x lo hi) :=
  .last fun _ => .last fun _ => .last fun _ => composite_binary

@[simp] theorem saturate_composite : Composite (saturate x) := clamp_composite

@[simp] theorem frac_composite : Composite (frac x) := .last fun _ => composite_binary

@[simp] theorem round_composite : Composite (round x) := .last fun _ => composite_unary

theorem quotientOfLogs_composite : Composite (quotientOfLogs x y) :=
  .last fun _ => .last fun _ => composite_binary

@[simp] theorem log_composite : Composite (log x y) := .last fun _ => quotientOfLogs_composite

@[simp] theorem sqrt_composite : Composite (sqrt x) := composite_binary

@[simp] theorem lerp_composite {s : Expr} : Composite (lerp x y s) :=
  .last fun _ => .last fun _ => .last fun _ => composite_binary

@[simp] theorem fit_composite {oldMin oldMax newMin newMax : Expr} :
    Composite (fit x oldMin oldMax newMin newMax) :=
  .last fun _ => .last fun _ => .last fun _ => .last fun _ => lerp_composite

@[simp] theorem modulo_composite : Composite (modulo x y) := by
  refine .last fun t => .last fun quotient => ?_
  split
  · exact .last fun _ => composite_binary
  · exact .last fun _ => composite_binary

@[simp] theorem smoothstep_composite {s : Expr} : Composite (smoothstep x y s) :=
  .last fun _ => .last fun _ => .last fun _ => .last fun _ => .last fun _ => .last fun _ =>
    .last fun _ => .last fun _ => composite_binary

@[simp] theorem discretize_composite : Composite (discretize x y) :=
  .last fun _ => .last fun _ => .last fun _ => composite_binary

theorem scaleBy_composite {factor : Single} : Composite (scaleBy factor x) :=
  .last fun _ => .last fun _ => composite_binary

@[simp] theorem degToRad_composite : Composite (degToRad x) := scaleBy_composite

@[simp] theorem radToDeg_composite : Composite (radToDeg x) := scaleBy_composite

@[simp] theorem sinh_composite : Composite (sinh x) := .last fun _ => .last fun _ => composite_binary

@[simp] theorem cosh_composite : Composite (cosh x) := .last fun _ => .last fun _ => composite_binary

@[simp] theorem tanh_composite : Composite (tanh x) :=
  .last fun _ => .last fun _ => .last fun _ => .last fun _ => .last fun _ => composite_binary

@[simp] theorem atanh_composite : Composite (atanh x) :=
  .last fun _ => .last fun _ => .last fun _ => .last fun _ => composite_binary

@[simp] theorem dot_composite : Composite (dot x y) := by
  unfold dot
  split
  · exact composite_refuse
  · apply composite_binary.bind
    intro product hproduct
    split
    · exact Meets.pure hproduct
    · apply (channels_keep (fun _ h => h) hproduct).bind
      rintro parts ⟨-, hparts⟩
      apply (sum_keep (fun _ h => h) hparts).bind
      intro total htotal
      split
      · exact Meets.pure (htotal _ rfl)
      · exact composite_refuse

@[simp] theorem length_composite : Composite (length x) := .last fun _ => sqrt_composite

@[simp] theorem distance_composite : Composite (distance x y) :=
  .last fun _ => .last fun _ => length_composite

@[simp] theorem sqrDistance_composite : Composite (sqrDistance x y) :=
  .last fun _ => .last fun _ => dot_composite

@[simp] theorem normalize_composite : Composite (normalize x) := by
  unfold normalize
  split
  · exact composite_refuse
  · exact .last fun _ => .last fun _ => .last fun _ => composite_binary

@[simp] theorem signedDistanceToPlane_composite {position : Expr} :
    Composite (signedDistanceToPlane x y position) :=
  .last fun _ => .last fun _ => .last fun _ => composite_binary

@[simp] theorem polarToRectangular_composite : Composite (polarToRectangular x y) :=
  .last fun _ => .last fun _ => .last fun _ => .last fun _ => .last fun _ => composite_binary

@[simp] theorem sphericalToRectangular_composite {r : Expr} : Composite (sphericalToRectangular x y r) :=
  .last fun _ => .last fun _ => .last fun _ => .last fun _ => .last fun _ => .last fun _ =>
    .last fun _ => .last fun _ => .last fun _ => .last fun _ => composite_binary

theorem rectangularToPolar_composite :
    Meets (fun _ => True) (rectangularToPolar x) fun polar =>
      polar.theta.isLeaf = false ∧ polar.distance.isLeaf = false := by
  apply (meets_true _).bind
  intro parts _
  split
  · apply composite_binary.bind
    intro theta htheta
    apply length_composite.bind
    intro distance hdistance
    exact Meets.pure ⟨htheta, hdistance⟩
  · exact Meets.refuse trivial

theorem rectangularToSpherical_composite :
    Meets (fun _ => True) (rectangularToSpherical x) fun spherical =>
      spherical.theta.isLeaf = false ∧ spherical.phi.isLeaf = false ∧
        spherical.distance.isLeaf = false := by
  apply (meets_true _).bind
  intro parts _
  split
  · apply length_composite.bind
    intro distance hdistance
    apply composite_binary.bind
    intro theta htheta
    apply (meets_true _).bind
    intro ratio _
    apply composite_unary.bind
    intro phi hphi
    exact Meets.pure ⟨htheta, hphi, hdistance⟩
  · exact Meets.refuse trivial

@[simp] theorem circleArea_composite : Composite (circleArea x) := .last fun _ => composite_binary

@[simp] theorem circleCircumference_composite : Composite (circleCircumference x) := composite_binary

@[simp] theorem boxVolume_composite : Composite (boxVolume x) := by
  refine .last fun parts => ?_
  split
  · exact .last fun _ => composite_binary
  · exact composite_refuse

@[simp] theorem sphereVolume_composite : Composite (sphereVolume x) :=
  .last fun _ => .last fun _ => .last fun _ => composite_binary

@[simp] theorem cylinderVolume_composite : Composite (cylinderVolume x y) :=
  .last fun _ => .last fun _ => composite_binary

@[simp] theorem coneVolume_composite {height : Expr} : Composite (coneVolume x y height) :=
  .last fun _ => .last fun _ => .last fun _ => .last fun _ => .last fun _ => .last fun _ =>
    .last fun _ => .last fun _ => composite_binary

@[simp] theorem torusVolume_composite : Composite (torusVolume x y) :=
  .last fun _ => .last fun _ => .last fun _ => composite_binary

@[simp] theorem colorLuma_composite : Composite (colorLuma x) := .last fun _ => dot_composite

theorem colorPower_composite {operator : Operator} {exponent : Single} :
    Composite (colorPower operator exponent x) := by
  unfold colorPower
  split
  · exact .last fun _ => .last fun _ => .last fun _ => composite_combine
  · exact composite_refuse

@[simp] theorem gammaToLinear_composite : Composite (gammaToLinear x) := colorPower_composite

@[simp] theorem linearToGamma_composite : Composite (linearToGamma x) := colorPower_composite

@[simp] theorem vanDerCorputSequence_composite : Composite (vanDerCorputSequence x) := by
  unfold vanDerCorputSequence
  split
  · exact composite_refuse
  · exact .last fun _ => .last fun _ => .last fun _ => composite_binary

@[simp] theorem fixedRandom_composite {perElement : Bool} : Composite (fixedRandom x perElement) := by
  unfold fixedRandom
  split
  · exact composite_refuse
  · exact .last fun _ => .last fun _ => composite_unary

end Formula

namespace Operator

open Build Formula

theorem single_composite {step : Build Expr} (h : Composite step) :
    Meets (fun _ => True) (do return [← step]) fun outs => ∀ out ∈ outs, out.isLeaf = false :=
  h.bind fun e he => Meets.pure (by simpa using he)

/-- No result of a formula is a leaf. -/
theorem build_composite (op : Operator) (xs : List Expr) :
    Meets (fun _ => True) (op.build xs) fun outs => ∀ out ∈ outs, out.isLeaf = false := by
  unfold Operator.build
  split
  case h_25 =>
    exact rectangularToPolar_composite.bind fun polar h => Meets.pure (by simp [h])
  case h_27 =>
    exact rectangularToSpherical_composite.bind fun spherical h => Meets.pure (by simp [h])
  case h_42 => exact Meets.refuse trivial
  -- The other formulas have one result.
  all_goals exact single_composite (by simp)

/-- No result of an operator is a leaf. -/
theorem apply_composite (op : Operator) (xs : List Expr) :
    Meets (fun _ => True) (op.apply xs) fun outs => ∀ out ∈ outs, out.isLeaf = false := by
  unfold Operator.apply
  split
  · exact Meets.refuse trivial
  · split
    · exact (meets_true _).bind fun ws _ => (meets_true _).bind fun _ _ => op.build_composite ws
    · exact op.build_composite xs

end Operator

end ShaderAlgebra
