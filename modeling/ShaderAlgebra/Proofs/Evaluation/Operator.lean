import ShaderAlgebra.Operator.Apply
import ShaderAlgebra.Proofs.Evaluation.Elementwise

/-!
# Operators act lane by lane

An element-wise operator on float operands of any widths always succeeds. Each
lane of its result is what the operator gives on scalar operands that have the
values of that lane.
-/

namespace ShaderAlgebra.Operator

open ShaderAlgebra.Expr Build Formula

variable {D : Type}

/-- The operators that act on each lane alone. -/
def lanewise : List Operator := [
  negate, clamp, saturate, frac, round, log, atanh, sinh, cosh, tanh, sqrt, lerp, fit, modulo,
  smoothstep, discretize, degToRad, radToDeg, circleArea, circleCircumference, sphereVolume,
  cylinderVolume, coneVolume, torusVolume]

/-- The scalar formula of a lane-wise operator on floats, with its literals given by `c`. -/
def scalar? (P : Primitives D) (c : Single → D) : Operator → List D → Option D
  | negate, [x] => some (P.negate c x)
  | clamp, [x, lo, hi] => some (P.clamp x lo hi)
  | saturate, [x] => some (P.saturate c x)
  | frac, [x] => some (P.frac x)
  | round, [x] => some (P.round c x)
  | log, [x, base] => some (P.quotientOfLogs x base)
  | atanh, [x] => some (P.atanh c x)
  | sinh, [x] => some (P.sinh c x)
  | cosh, [x] => some (P.cosh c x)
  | tanh, [x] => some (P.tanh c x)
  | sqrt, [x] => some (P.sqrt c x)
  | lerp, [x, y, s] => some (P.lerp x y s)
  | fit, [value, oldMin, oldMax, newMin, newMax] => some (P.fit value oldMin oldMax newMin newMax)
  | modulo, [x, y] => some (P.floatModulo x y)
  | smoothstep, [x, y, s] => some (P.smoothstep c x y s)
  | discretize, [value, step] => some (P.discretize value step)
  | degToRad, [x] => some (P.mul x (P.number (Literal.pi.value / 180)))
  | radToDeg, [x] => some (P.mul x (P.number (180 / Literal.pi.value)))
  | circleArea, [radius] => some (P.circleArea c radius)
  | circleCircumference, [radius] => some (P.circleCircumference c radius)
  | sphereVolume, [radius] => some (P.sphereVolume c radius)
  | cylinderVolume, [radius, height] => some (P.cylinderVolume c radius height)
  | coneVolume, [r, s, height] => some (P.coneVolume c r s height)
  | torusVolume, [major, minor] => some (P.torusVolume c major minor)
  | _, _ => none

/-- The number of lanes of the result of a lane-wise operator. -/
def width (op : Operator) (operands : List Expr) : Nat :=
  let widths := operands.map (·.type.components)
  if op.unifies then widths.max?.getD 0 else widths.headD 0

variable {P : Primitives D} {env : Environment D} {fails : Failure → Prop} {op : Operator}
  {operands : List Expr} {t : ValueType} {f : Nat → D} {fs : List (Nat → D)}

/-- One result of the type `t` with the lanes `value`. -/
def GivesLanes (P : Primitives D) (env : Environment D) (t : ValueType) (value : Nat → Option D)
    (outputs : List Expr) : Prop :=
  ∃ e, outputs = [e] ∧ e.type = t ∧ ∀ i < t.components, value i = some (e.lane P env i)

theorem givesLanes_of_hasLanes {step : Build Expr} {value : Nat → Option D}
    (h : Meets fails step (HasLanes P env t f)) (hvalue : ∀ i, value i = some (f i)) :
    Meets fails (do return [← step]) (GivesLanes P env t value) := by
  apply h.bind
  intro e he
  exact Meets.pure ⟨e, rfl, he.1, fun i hi => by rw [hvalue, he.2 i hi]⟩

theorem build_lanes (hop : op ∈ lanewise) (ht : t.isFloat = true)
    (h : List.Forall₂ (HasLanes P env t) fs operands) (hcount : operands.length = op.arity) :
    Meets fails (op.build operands)
      (GivesLanes P env t fun i => op.scalar? P (P.scalar t) (fs.map (· i))) := by
  cases op with
  | negate =>
    obtain ⟨f, x, rfl, rfl, hx⟩ := forall₂_one h hcount
    exact givesLanes_of_hasLanes (negate_lanes hx) fun _ => rfl
  | clamp =>
    obtain ⟨f, g, k, x, y, z, rfl, rfl, hx, hy, hz⟩ := forall₂_three h hcount
    exact givesLanes_of_hasLanes (clamp_lanes_of_types hx hy hz) fun _ => rfl
  | saturate =>
    obtain ⟨f, x, rfl, rfl, hx⟩ := forall₂_one h hcount
    exact givesLanes_of_hasLanes (saturate_lanes hx) fun _ => rfl
  | frac =>
    obtain ⟨f, x, rfl, rfl, hx⟩ := forall₂_one h hcount
    exact givesLanes_of_hasLanes (frac_lanes hx) fun _ => rfl
  | round =>
    obtain ⟨f, x, rfl, rfl, hx⟩ := forall₂_one h hcount
    exact givesLanes_of_hasLanes (round_lanes hx) fun _ => rfl
  | log =>
    obtain ⟨f, g, x, y, rfl, rfl, hx, hy⟩ := forall₂_two h hcount
    exact givesLanes_of_hasLanes (log_lanes hx hy) fun _ => rfl
  | atanh =>
    obtain ⟨f, x, rfl, rfl, hx⟩ := forall₂_one h hcount
    exact givesLanes_of_hasLanes (atanh_lanes hx) fun _ => rfl
  | sinh =>
    obtain ⟨f, x, rfl, rfl, hx⟩ := forall₂_one h hcount
    exact givesLanes_of_hasLanes (sinh_lanes hx) fun _ => rfl
  | cosh =>
    obtain ⟨f, x, rfl, rfl, hx⟩ := forall₂_one h hcount
    exact givesLanes_of_hasLanes (cosh_lanes hx) fun _ => rfl
  | tanh =>
    obtain ⟨f, x, rfl, rfl, hx⟩ := forall₂_one h hcount
    exact givesLanes_of_hasLanes (tanh_lanes hx) fun _ => rfl
  | sqrt =>
    obtain ⟨f, x, rfl, rfl, hx⟩ := forall₂_one h hcount
    exact givesLanes_of_hasLanes (sqrt_lanes hx) fun _ => rfl
  | lerp =>
    obtain ⟨f, g, k, x, y, z, rfl, rfl, hx, hy, hz⟩ := forall₂_three h hcount
    exact givesLanes_of_hasLanes (lerp_lanes hx hy hz) fun _ => rfl
  | fit =>
    match operands, hcount with
    | [_, _, _, _, _], _ =>
      obtain _ | ⟨hv, _ | ⟨ha, _ | ⟨hb, _ | ⟨hc, _ | ⟨hd, ⟨⟩⟩⟩⟩⟩⟩ := h
      exact givesLanes_of_hasLanes (fit_lanes hv ha hb hc hd) fun _ => rfl
  | modulo =>
    obtain ⟨f, g, x, y, rfl, rfl, hx, hy⟩ := forall₂_two h hcount
    exact givesLanes_of_hasLanes (modulo_lanes hx hy) fun _ => by rw [if_pos ht]; rfl
  | smoothstep =>
    obtain ⟨f, g, k, x, y, z, rfl, rfl, hx, hy, hz⟩ := forall₂_three h hcount
    exact givesLanes_of_hasLanes (smoothstep_lanes hx hy hz) fun _ => rfl
  | discretize =>
    obtain ⟨f, g, x, y, rfl, rfl, hx, hy⟩ := forall₂_two h hcount
    exact givesLanes_of_hasLanes (discretize_lanes hx hy) fun _ => rfl
  | degToRad =>
    obtain ⟨f, x, rfl, rfl, hx⟩ := forall₂_one h hcount
    exact givesLanes_of_hasLanes (scaleBy_lanes hx ht) fun _ => rfl
  | radToDeg =>
    obtain ⟨f, x, rfl, rfl, hx⟩ := forall₂_one h hcount
    exact givesLanes_of_hasLanes (scaleBy_lanes hx ht) fun _ => rfl
  | circleArea =>
    obtain ⟨f, x, rfl, rfl, hx⟩ := forall₂_one h hcount
    exact givesLanes_of_hasLanes (circleArea_lanes hx) fun _ => rfl
  | circleCircumference =>
    obtain ⟨f, x, rfl, rfl, hx⟩ := forall₂_one h hcount
    exact givesLanes_of_hasLanes (circleCircumference_lanes hx) fun _ => rfl
  | sphereVolume =>
    obtain ⟨f, x, rfl, rfl, hx⟩ := forall₂_one h hcount
    exact givesLanes_of_hasLanes (sphereVolume_lanes hx) fun _ => rfl
  | cylinderVolume =>
    obtain ⟨f, g, x, y, rfl, rfl, hx, hy⟩ := forall₂_two h hcount
    exact givesLanes_of_hasLanes (cylinderVolume_lanes hx hy) fun _ => rfl
  | coneVolume =>
    obtain ⟨f, g, k, x, y, z, rfl, rfl, hx, hy, hz⟩ := forall₂_three h hcount
    exact givesLanes_of_hasLanes (coneVolume_lanes hx hy hz) fun _ => rfl
  | torusVolume =>
    obtain ⟨f, g, x, y, rfl, rfl, hx, hy⟩ := forall₂_two h hcount
    exact givesLanes_of_hasLanes (torusVolume_lanes hx hy) fun _ => rfl
  | _ => exact absurd hop (by decide)

theorem hasLanes_operandLane (P : Primitives D) (env : Environment D) (e : Expr) :
    HasLanes P env e.type (e.operandLane P env) e :=
  ⟨rfl, fun _ hi => (if_pos hi).symm⟩

/-- The lanes of the result are the scalar formula of the operands' lanes. -/
def AppliesLanewise (P : Primitives D) (env : Environment D) (op : Operator)
    (operands outputs : List Expr) : Prop :=
  ∃ e ∈ operands, e.type.components = op.width operands ∧
    GivesLanes P env e.type
      (fun i => op.scalar? P P.number (operands.map (·.operandLane P env i))) outputs

/-- An operator that unifies floats builds its formula on operands of the widest type. -/
theorem apply_unified {post : List Expr → Prop} (hunifies : op.unifies = true)
    (hcount : operands.length = op.arity) (hfloat : ∀ e ∈ operands, e.type.isFloat = true)
    (hbuild : ∀ widest ∈ operands, widest.type.components = op.width operands → ∀ widened,
      List.Forall₂ (fun e => HasLanes P env widest.type (e.operandLane P env)) operands widened →
        Meets fails (op.build widened) post) :
    Meets fails (op.apply operands) post := by
  have hseveral : ∀ op ∈ all, op.unifies = true → 2 ≤ op.arity := by decide
  have hlength : 2 ≤ operands.length := hcount ▸ hseveral op op.mem_all hunifies
  have hpos : 0 < operands.length := Nat.lt_of_lt_of_le Nat.two_pos hlength
  obtain ⟨t, ht⟩ := exists_widest? (List.ne_nil_of_length_pos hpos)
  obtain ⟨widest, hwidest, rfl⟩ := exists_of_widest? ht
  have hwidth : widest.type.components = op.width operands := by
    rw [width, if_pos hunifies, max?_components_of_widest? hfloat ht, Option.getD_some]
  unfold Operator.apply unify
  rw [if_neg (not_not.2 hcount), if_pos hunifies]
  apply (widen_lanes hfloat hlength ht).bind
  intro widened hwidened
  have htypes : ∀ e ∈ widened, e.type = widest.type := by
    intro e he
    obtain ⟨_, _, hlanes⟩ := exists_of_mem_forall₂ hwidened he
    exact hlanes.1
  have hne : widened ≠ [] := by
    rintro rfl
    rw [hwidened.length_eq] at hlength
    exact absurd hlength (by decide)
  apply (commonType_meets_of_types htypes hne).bind
  intro _ _
  exact hbuild widest hwidest hwidth widened hwidened

theorem apply_lanes_of_unifies (hop : op ∈ lanewise) (hunifies : op.unifies = true)
    (hcount : operands.length = op.arity) (hfloat : ∀ e ∈ operands, e.type.isFloat = true) :
    Meets fails (op.apply operands) (AppliesLanewise P env op operands) := by
  apply apply_unified hunifies hcount hfloat
  intro widest hwidest hwidth widened hwidened
  have hlanes : List.Forall₂ (HasLanes P env widest.type)
      (operands.map fun e => e.operandLane P env) widened := by
    rwa [List.forall₂_map_left_iff]
  apply (build_lanes hop (hfloat widest hwidest) hlanes (hwidened.length_eq ▸ hcount)).imp
  intro outputs houtputs
  rw [Primitives.scalar_of_isFloat (hfloat widest hwidest)] at houtputs
  exact ⟨widest, hwidest, hwidth, by simpa only [List.map_map, Function.comp_def] using houtputs⟩

theorem apply_lanes (hop : op ∈ lanewise) (hcount : operands.length = op.arity)
    (hfloat : ∀ e ∈ operands, e.type.isFloat = true) :
    Meets fails (op.apply operands) (AppliesLanewise P env op operands) := by
  cases hunifies : op.unifies with
  | true => exact apply_lanes_of_unifies hop hunifies hcount hfloat
  | false =>
    have hshape : ∀ op ∈ lanewise, op.unifies = false → op = clamp ∨ op.arity = 1 := by decide
    unfold Operator.apply
    rw [if_neg (not_not.2 hcount), hunifies, if_neg (by simp)]
    rcases hshape op hop hunifies with rfl | hone
    · match operands, hcount, hfloat with
      | [x, lo, hi], _, hfloat =>
        have hclamp : Meets fails (Formula.clamp x lo hi) _ :=
          clamp_lanes (hasLanes_operandLane P env x) (hasLanes_lane P env lo)
            (hasLanes_lane P env hi) (hfloat x (by simp)) (hfloat lo (by simp))
            (hfloat hi (by simp))
        apply (givesLanes_of_hasLanes hclamp fun _ => rfl).imp
        intro outputs houtputs
        exact ⟨x, by simp, rfl, houtputs⟩
    · obtain ⟨x, rfl⟩ := List.length_eq_one_iff.1 (hcount.trans hone)
      have hx : x.type.isFloat = true := hfloat x (by simp)
      have hlanes : List.Forall₂ (HasLanes P env x.type) [x.operandLane P env] [x] :=
        .cons (hasLanes_operandLane P env x) .nil
      apply (build_lanes hop hx hlanes hcount).imp
      intro outputs houtputs
      refine ⟨x, by simp, by simp [width, hunifies], ?_⟩
      rwa [Primitives.scalar_of_isFloat hx] at houtputs

theorem operandLane_zero (P : Primitives D) (env : Environment D) (e : Expr) :
    e.operandLane P env 0 = e.lane P env 0 :=
  if_pos e.type.components_pos

theorem map_operandLane_zero {xs ys : List Expr} {env' : Environment D} {i : Nat}
    (h : List.Forall₂ (fun x y => y.type = .float ∧ y.lane P env' 0 = x.operandLane P env i)
      xs ys) :
    ys.map (·.operandLane P env' 0) = xs.map (·.operandLane P env i) := by
  induction h with
  | nil => rfl
  | cons hxy _ ih => rw [List.map_cons, List.map_cons, ih, operandLane_zero, hxy.2]

/-- A lane-wise operator on float operands of any widths gives one float of the width that it
takes from them, and the operator on scalars with the values of one lane gives that lane. -/
theorem apply_lanewise (hop : op ∈ lanewise) {xs : List Expr} (hcount : xs.length = op.arity)
    (hfloat : ∀ x ∈ xs, x.type.isFloat = true) (next : Nat) :
    ∃ out, ((op.apply xs).runFrom next).1 = .ok [out] ∧ out.type.isFloat = true ∧
      out.type.components = op.width xs ∧
      ∀ {D : Type} (P : Primitives D) (env env' : Environment D), ∀ i < op.width xs,
        ∀ ys : List Expr, List.Forall₂ (fun x y =>
            y.type = .float ∧ y.lane P env' 0 = x.operandLane P env i) xs ys →
          ∀ next', ∃ out', ((op.apply ys).runFrom next').1 = .ok [out'] ∧ out'.type = .float ∧
            out'.lane P env' 0 = out.lane P env i := by
  have hruns {D : Type} (P : Primitives D) (env : Environment D) :
      ∃ outs, ((op.apply xs).runFrom next).1 = .ok outs ∧ AppliesLanewise P env op xs outs :=
    (apply_lanes hop hcount hfloat).exists_ok next
  obtain ⟨_, hrun, x, hx, hwidth, out, rfl, htype, -⟩ := hruns Primitives.unit Environment.unit
  refine ⟨out, hrun, htype ▸ hfloat x hx, by rw [htype, hwidth], ?_⟩
  intro D P env env' i hi ys hys next'
  obtain ⟨_, hrun', z, -, hwidth', _, rfl, htype', hlanes⟩ := hruns P env
  obtain rfl : out = _ := by simpa [hrun] using hrun'
  have hscalar : ∀ y ∈ ys, y.type = .float := by
    intro y hy
    obtain ⟨_, _, htype, -⟩ := exists_of_mem_forall₂ hys hy
    exact htype
  have hscalarFloat : ∀ y ∈ ys, y.type.isFloat = true := fun y hy => by
    rw [hscalar y hy]
    rfl
  have hys' : Meets (fun _ => False) (op.apply ys) (AppliesLanewise P env' op ys) :=
    apply_lanes hop (hys.length_eq ▸ hcount) hscalarFloat
  obtain ⟨_, hrun'', y, hy, -, out', rfl, htype'', hlanes'⟩ := hys'.exists_ok next'
  refine ⟨out', hrun'', htype''.trans (hscalar y hy), ?_⟩
  have hout := hlanes i (by rwa [hwidth'])
  have hout' := hlanes' 0 y.type.components_pos
  dsimp only at hout hout'
  rw [map_operandLane_zero hys, hout] at hout'
  exact (Option.some.inj hout').symm

/-- Whole numbers with their sums, differences and products. -/
def wholeNumbers : Primitives Int where
  number x := x.truncate
  int n := n.toInt
  uint n := n.toNat
  unary _ x := x
  binary op x y :=
    match op with
    | .add => x + y
    | .sub => x - y
    | .mul => x * y
    | _ => 0

def mixedWidths : List Expr :=
  [.leaf 0 (.input .float3 "v"), .leaf 1 (.constant (.float2 1 2)), .leaf 2 (.input .float "s")]

/-- The values of `mixedWidths` in the last lane, which the constant does not have. -/
def lastLanes : List Expr :=
  [.leaf 0 (.input .float "v"), .leaf 1 (.constant (.float 0)), .leaf 2 (.input .float "s")]

/-- A vector `7, 8, 9` and a scalar `3`, the last lane of the vector alone, and a scalar. -/
def laneValues (first : Int) : Environment Int where
  input _ name i := if name = "v" then first + i else 3
  seed := 0

theorem apply_lerp_mixedWidths :
    ∃ out, ((lerp.apply mixedWidths).runFrom 3).1 = .ok [out] ∧ out.type.components = 3 ∧
      ∃ out', ((lerp.apply lastLanes).runFrom 3).1 = .ok [out'] ∧ out'.type = .float ∧
        out'.lane wholeNumbers (laneValues 9) 0 = out.lane wholeNumbers (laneValues 7) 2 := by
  obtain ⟨out, hrun, -, hwidth, hlanes⟩ :=
    @apply_lanewise lerp (by decide) mixedWidths rfl (by decide) 3
  have hvalues : List.Forall₂ (fun x y => y.type = .float ∧
      y.lane wholeNumbers (laneValues 9) 0 = x.operandLane wholeNumbers (laneValues 7) 2)
      mixedWidths lastLanes :=
    .cons (by decide) (.cons (by decide) (.cons (by decide) .nil))
  obtain ⟨out', hrun', htype, hlane⟩ := hlanes wholeNumbers (laneValues 7) (laneValues 9) 2
    (by decide) lastLanes hvalues 3
  exact ⟨out, hrun, by rw [hwidth]; decide, out', hrun', htype, hlane⟩

end ShaderAlgebra.Operator
