import Mathlib.Algebra.BigOperators.Field
import Mathlib.Algebra.BigOperators.Group.List.Basic
import Mathlib.Algebra.BigOperators.Ring.Finset
import Mathlib.Algebra.Order.BigOperators.Ring.Finset
import Mathlib.Tactic.Ring
import ShaderAlgebra.Proofs.Evaluation.Exact
import ShaderAlgebra.Proofs.Evaluation.Operator

/-!
# Inner products

With exact numbers, the sum of the channels of a product is the inner product of its
operands, in whatever order the channels are added. Square distances, distances from
a plane and the brightness of colours are inner products too. The catalog takes
operands of several widths: it repeats scalars, and fills vectors up with zeros.
-/

namespace ShaderAlgebra

variable {D K : Type}

namespace Operator

open ShaderAlgebra.Expr Build

variable {P : Primitives D} {env : Environment D} {embed : K → D} {fails : Failure → Prop}
  {operands : List Expr} {op : Operator} {q : K}

/-- From every identity on, an operator of the catalog gives one scalar, the number `q`. -/
def GivesScalar (P : Primitives D) (env : Environment D) (embed : K → D) (op : Operator)
    (operands : List Expr) (q : K) : Prop :=
  ∀ next, ∃ e, ((op.apply operands).runFrom next).1 = .ok [e] ∧
    HasLanes P env .float (fun _ => embed q) e

theorem givesScalar_of_meets
    (h : Meets (fun _ => False) (op.apply operands) fun outputs =>
      ∃ e, outputs = [e] ∧ HasLanes P env .float (fun _ => embed q) e) :
    op.GivesScalar P env embed operands q := by
  intro next
  obtain ⟨_, hrun, e, rfl, he⟩ := h.exists_ok next
  exact ⟨e, hrun, he⟩

theorem singleton_numbers {step : Build Expr}
    (h : Meets fails step (HasLanes P env .float fun _ => embed q)) :
    Meets fails (do return [← step]) fun outputs =>
      ∃ e, outputs = [e] ∧ HasLanes P env .float (fun _ => embed q) e :=
  h.bind fun e he => Meets.pure ⟨e, rfl, he⟩

end Operator

variable [Field K]

def innerProduct (n : Nat) (f g : Nat → K) : K := ∑ i ∈ Finset.range n, f i * g i

/-- The square of the distance between two points of `n` lanes. -/
def squareDistance (n : Nat) (f g : Nat → K) : K := ∑ i ∈ Finset.range n, (f i - g i) ^ 2

def brightness (f : Nat → K) : K :=
  let (r, g, b) := Formula.lumaWeights
  r.value * f 0 + g.value * f 1 + b.value * f 2

section Laws

variable {n : Nat} {f g k : Nat → K} {q : K}

theorem innerProduct_comm : innerProduct n f g = innerProduct n g f :=
  Finset.sum_congr rfl fun _ _ => mul_comm _ _

theorem innerProduct_mul_add_left :
    innerProduct n (fun i => q * f i + k i) g = q * innerProduct n f g + innerProduct n k g := by
  unfold innerProduct
  rw [Finset.mul_sum, ← Finset.sum_add_distrib]
  exact Finset.sum_congr rfl fun _ _ => by ring

theorem innerProduct_sub_left :
    innerProduct n (fun i => f i - k i) g = innerProduct n f g - innerProduct n k g := by
  unfold innerProduct
  rw [← Finset.sum_sub_distrib]
  exact Finset.sum_congr rfl fun _ _ => sub_mul _ _ _

theorem innerProduct_sub_self :
    innerProduct n (fun i => f i - g i) (fun i => f i - g i) = squareDistance n f g :=
  Finset.sum_congr rfl fun _ _ => (sq _).symm

theorem innerProduct_div_self :
    innerProduct n (fun i => f i / q) (fun i => f i / q) = innerProduct n f f / (q * q) := by
  unfold innerProduct
  rw [Finset.sum_div]
  exact Finset.sum_congr rfl fun _ _ => div_mul_div_comm _ _ _ _

theorem squareDistance_comm : squareDistance n f g = squareDistance n g f :=
  Finset.sum_congr rfl fun _ _ => sub_sq_comm _ _

variable [LinearOrder K] [IsStrictOrderedRing K]

theorem squareDistance_nonneg : 0 ≤ squareDistance n f g :=
  Finset.sum_nonneg fun _ _ => sq_nonneg _

theorem squareDistance_eq_zero_iff : squareDistance n f g = 0 ↔ ∀ i < n, f i = g i := by
  unfold squareDistance
  rw [Finset.sum_eq_zero_iff_of_nonneg fun _ _ => sq_nonneg _]
  simp only [Finset.mem_range, sq_eq_zero_iff, sub_eq_zero]

end Laws

/-- A lane of an operand as the other operands see it, as a number. -/
def Expr.operandNumber (value : Expr → Nat → K) (e : Expr) (i : Nat) : K :=
  if i < e.type.components then value e i else if e.type.components = 1 then value e 0 else 0

/-- A float whose lanes are the numbers that `value` gives it. -/
def Expr.HasNumbers (P : Primitives D) (env : Environment D) (embed : K → D)
    (value : Expr → Nat → K) (e : Expr) : Prop :=
  e.type.isFloat = true ∧ HasLanes P env e.type (fun i => embed (value e i)) e

namespace Formula

open ShaderAlgebra.Expr Build

variable {P : Primitives D} {env : Environment D} {embed : K → D} {fails : Failure → Prop}
  {a b c e x y color : Expr} {t : ValueType} {f g k : Nat → K} {q : K}

/-- Terms are added to a scalar one by one. -/
theorem foldlM_add_numbers (h : P.HasArithmetic embed) {qs : List K} {terms : List Expr}
    (hterms : List.Forall₂ (fun q => HasLanes P env .float fun _ => embed q) qs terms)
    (he : HasLanes P env .float (fun _ => embed q) e) :
    Meets fails (terms.foldlM add e) (HasLanes P env .float fun _ => embed (q + qs.sum)) := by
  induction hterms generalizing q e with
  | nil =>
    rw [List.sum_nil, add_zero]
    exact Meets.pure he
  | cons hterm _ ih =>
    rw [List.foldlM_cons, List.sum_cons, ← add_assoc]
    exact (add_numbers h he hterm).bind fun _ htotal => ih htotal

theorem sum_numbers (h : P.HasArithmetic embed) {qs : List K} {terms : List Expr}
    (hterms : List.Forall₂ (fun q => HasLanes P env .float fun _ => embed q) qs terms)
    (hne : qs ≠ []) :
    Meets fails (sum terms) fun r =>
      ∃ total, r = some total ∧ HasLanes P env .float (fun _ => embed qs.sum) total := by
  have hreverse := List.forall₂_reverse_iff.2 hterms
  unfold sum
  cases hlist : terms.reverse with
  | nil =>
    rw [hlist, List.forall₂_nil_right_iff, List.reverse_eq_nil_iff] at hreverse
    exact absurd hreverse hne
  | cons last others =>
    rw [hlist] at hreverse
    obtain ⟨q, qs', hlast, hothers, hqs⟩ := List.forall₂_cons_right_iff.1 hreverse
    have hsum : qs.sum = q + qs'.sum := by rw [← List.sum_reverse, hqs, List.sum_cons]
    rw [hsum]
    apply (foldlM_add_numbers h hothers hlast).map
    intro total htotal
    exact ⟨total, rfl, htotal⟩

theorem dot_numbers (h : P.HasArithmetic embed) (hfloat : t.isFloat = true)
    (ha : HasLanes P env t (fun i => embed (f i)) a)
    (hb : HasLanes P env t (fun i => embed (g i)) b) :
    Meets fails (dot a b)
      (HasLanes P env .float fun _ => embed (innerProduct t.components f g)) := by
  unfold dot
  rw [ha.1, hb.1, if_neg (by simp)]
  apply (mul_numbers h ha hb).bind
  intro product hproduct
  by_cases hone : t.components = 1
  · rw [if_pos hone, hone]
    obtain rfl := ValueType.eq_float_of_components hfloat hone
    refine Meets.pure (hproduct.congr fun i hi => ?_)
    obtain rfl : i = 0 := Nat.lt_one_iff.1 hi
    rw [innerProduct, Finset.sum_range_one]
  · rw [if_neg hone]
    apply (channels_lanes hproduct hfloat).bind
    intro terms hterms
    have hterms' : List.Forall₂ (fun q => HasLanes P env .float fun _ => embed q)
        ((List.range t.components).map fun i => f i * g i) terms :=
      List.forall₂_map_left_iff.2 hterms
    have hne : (List.range t.components).map (fun i => f i * g i) ≠ [] := by
      simpa using t.components_pos.ne'
    apply (sum_numbers h hterms' hne).bind
    rintro _ ⟨total, rfl, htotal⟩
    exact Meets.pure htotal

theorem sqrDistance_numbers (h : P.HasArithmetic embed) (hfloat : t.isFloat = true)
    (hx : HasLanes P env t (fun i => embed (f i)) x)
    (hy : HasLanes P env t (fun i => embed (g i)) y) :
    Meets fails (sqrDistance x y)
      (HasLanes P env .float fun _ => embed (squareDistance t.components f g)) := by
  unfold sqrDistance
  apply (commonType_meets_of_types (t := t) (by simp [hx.1, hy.1]) (by simp)).bind
  intro _ _
  apply (sub_numbers h hx hy).bind
  intro difference hdifference
  rw [← innerProduct_sub_self]
  exact dot_numbers h hfloat hdifference hdifference

/-- The plane goes through `a` and has the normal `b`. -/
theorem signedDistanceToPlane_numbers (h : P.HasArithmetic embed) (hfloat : t.isFloat = true)
    (ha : HasLanes P env t (fun i => embed (f i)) a)
    (hb : HasLanes P env t (fun i => embed (g i)) b)
    (hc : HasLanes P env t (fun i => embed (k i)) c) :
    Meets fails (signedDistanceToPlane a b c) (HasLanes P env .float fun _ =>
      embed (innerProduct t.components (fun i => k i - f i) g)) := by
  unfold signedDistanceToPlane
  apply (commonType_meets_of_types (t := t) (by simp [ha.1, hb.1, hc.1]) (by simp)).bind
  intro _ _
  apply (dot_numbers h hfloat ha hb).bind
  intro offset hoffset
  apply (dot_numbers h hfloat hc hb).bind
  intro height hheight
  rw [innerProduct_sub_left]
  exact sub_numbers h hheight hoffset

/-- A fourth lane has no weight. -/
theorem colorLuma_numbers (h : P.HasConstants embed) (ht : t = .float3 ∨ t = .float4)
    (hcolor : HasLanes P env t (fun i => embed (f i)) color) :
    Meets fails (colorLuma color) (HasLanes P env .float fun _ => embed (brightness f)) := by
  have hfinite : lumaWeights.1.isFinite = true ∧ lumaWeights.2.1.isFinite = true ∧
      lumaWeights.2.2.isFinite = true ∧ (0 : Single).isFinite = true := by
    decide +kernel
  have hzero : (0 : Single).value = 0 := by decide +kernel
  unfold colorLuma brightness
  rw [hcolor.1]
  rcases hweights : lumaWeights with ⟨r, g, b⟩
  rw [hweights] at hfinite
  rcases ht with rfl | rfl
  · apply (constant_numbers h (c := .float3 r g b) rfl (by simp [Constant.floats, hfinite])).bind
    intro weights hlanes
    apply (dot_numbers h.toHasArithmetic rfl hcolor hlanes).imp
    intro e he
    refine he.congr fun _ _ => congrArg embed ?_
    simp [innerProduct, Finset.sum_range_succ, ValueType.components, Constant.floats, mul_comm]
  · apply (constant_numbers h (c := .float4 r g b 0) rfl
      (by simp [Constant.floats, hfinite])).bind
    intro weights hlanes
    apply (dot_numbers h.toHasArithmetic rfl hcolor hlanes).imp
    intro e he
    refine he.congr fun _ _ => congrArg embed ?_
    simp [innerProduct, Finset.sum_range_succ, ValueType.components, Constant.floats, mul_comm,
      hzero]

/-- The weights as binary fractions: the floats next to `0.299`, `0.587` and `0.114`. -/
example : lumaWeights.1.value = 10032775 / 2 ^ 25 ∧ lumaWeights.2.1.value = 9848226 / 2 ^ 24 ∧
    lumaWeights.2.2.value = 15300821 / 2 ^ 27 := by
  decide +kernel

end Formula

namespace Operator

open ShaderAlgebra.Expr Build

variable {P : Primitives D} {env : Environment D} {embed : K → D} {fails : Failure → Prop}
  {value : Expr → Nat → K} {a b c e : Expr} {operands : List Expr} {op : Operator} {t : ValueType}

theorem hasLanes_operandNumber (h : P.HasConstants embed)
    (he : HasNumbers P env embed value e) {widened : Expr}
    (hwidened : HasLanes P env t (e.operandLane P env) widened) :
    HasLanes P env t (fun i => embed (e.operandNumber value i)) widened := by
  refine hwidened.congr fun i _ => ?_
  unfold operandLane Primitives.castLane operandNumber
  split
  · exact he.2.2 i ‹_›
  split
  · exact he.2.2 0 e.type.components_pos
  · exact h.zero

/-- An operator that unifies floats builds its formula on the numbers that its operands see. -/
theorem apply_numbers {post : List Expr → Prop} (h : P.HasConstants embed)
    (hunifies : op.unifies = true) (hcount : operands.length = op.arity)
    (hvalue : ∀ e ∈ operands, HasNumbers P env embed value e)
    (hbuild : ∀ t, t.isFloat = true → t.components = op.width operands → ∀ widened,
      List.Forall₂ (fun e => HasLanes P env t fun i => embed (e.operandNumber value i))
          operands widened →
        Meets fails (op.build widened) post) :
    Meets fails (op.apply operands) post := by
  apply apply_unified hunifies hcount fun e he => (hvalue e he).1
  intro widest hwidest hwidth widened hwidened
  apply hbuild widest.type (hvalue widest hwidest).1 hwidth
  have hboth := (List.forall₂_and_left _ _).2 ⟨hvalue, hwidened⟩
  exact hboth.imp fun e _ he => hasLanes_operandNumber h he.1 he.2

theorem apply_dot_numbers (h : P.HasConstants embed)
    (hvalue : ∀ e ∈ [a, b], HasNumbers P env embed value e) :
    dot.GivesScalar P env embed [a, b] (innerProduct
      (max a.type.components b.type.components) (a.operandNumber value)
      (b.operandNumber value)) := by
  apply givesScalar_of_meets
  apply apply_numbers h rfl rfl hvalue
  intro t hfloat hwidth widened hwidened
  obtain _ | ⟨hx, _ | ⟨hy, ⟨⟩⟩⟩ := hwidened
  have hmax : t.components = max a.type.components b.type.components := hwidth
  rw [← hmax]
  exact singleton_numbers (Formula.dot_numbers h.toHasArithmetic hfloat hx hy)

theorem apply_sqrDistance_numbers (h : P.HasConstants embed)
    (hvalue : ∀ e ∈ [a, b], HasNumbers P env embed value e) :
    sqrDistance.GivesScalar P env embed [a, b] (squareDistance
      (max a.type.components b.type.components) (a.operandNumber value)
      (b.operandNumber value)) := by
  apply givesScalar_of_meets
  apply apply_numbers h rfl rfl hvalue
  intro t hfloat hwidth widened hwidened
  obtain _ | ⟨hx, _ | ⟨hy, ⟨⟩⟩⟩ := hwidened
  have hmax : t.components = max a.type.components b.type.components := hwidth
  rw [← hmax]
  exact singleton_numbers (Formula.sqrDistance_numbers h.toHasArithmetic hfloat hx hy)

theorem apply_signedDistanceToPlane_numbers (h : P.HasConstants embed)
    (hvalue : ∀ e ∈ [a, b, c], HasNumbers P env embed value e) :
    signedDistanceToPlane.GivesScalar P env embed [a, b, c] (innerProduct
      (max (max a.type.components b.type.components) c.type.components)
      (fun i => c.operandNumber value i - a.operandNumber value i) (b.operandNumber value)) := by
  apply givesScalar_of_meets
  apply apply_numbers h rfl rfl hvalue
  intro t hfloat hwidth widened hwidened
  obtain _ | ⟨hx, _ | ⟨hy, _ | ⟨hz, ⟨⟩⟩⟩⟩ := hwidened
  have hmax : t.components = max (max a.type.components b.type.components) c.type.components :=
    hwidth
  rw [← hmax]
  exact singleton_numbers (Formula.signedDistanceToPlane_numbers h.toHasArithmetic hfloat hx hy hz)

end Operator

namespace Formula

open ShaderAlgebra.Expr Build Primitives

variable {P : Primitives D} {env : Environment D} {embed : K → D} {a b c : Expr}

theorem forall_mem_pair {α : Type} {p : α → Prop} {x y : α} : (∀ z ∈ [x, y], p z) ↔ p x ∧ p y := by
  simp

theorem dot_orders {t : ValueType} {f g : Nat → K} (h : P.HasArithmetic embed)
    (hfloat : t.isFloat = true) (ha : HasLanes P env t (fun i => embed (f i)) a)
    (hb : HasLanes P env t (fun i => embed (g i)) b) :
    ∀ step ∈ [dot a b, dot b a], EvaluatesTo P env embed step .float
      fun _ => innerProduct t.components f g := by
  refine forall_mem_pair.2 ⟨(dot_numbers h hfloat ha hb).evaluatesTo, ?_⟩
  rw [innerProduct_comm]
  exact (dot_numbers h hfloat hb ha).evaluatesTo

/-- Inner products and what is made of them. Operands of float types have the numbers `value` as
their lanes; the formulas take operands of one type, the catalog takes all of them. -/
theorem dot_innerProduct [LinearOrder K] [IsStrictOrderedRing K] {value : Expr → Nat → K}
    (h : P.HasConstants embed)
    (hvalue : ∀ e ∈ [a, b, c], HasNumbers P env embed value e) :
    (∀ t, (∀ e ∈ [a, b, c], e.type = t) →
      (∀ step ∈ [dot a b, dot b a], EvaluatesTo P env embed step .float
        fun _ => innerProduct t.components (value a) (value b)) ∧
      (∀ q e, HasLanes P env t (fun i => embed (q * value a i + value c i)) e →
        ∀ step ∈ [dot e b, dot b e], EvaluatesTo P env embed step .float
          fun _ => q * innerProduct t.components (value a) (value b) +
            innerProduct t.components (value c) (value b)) ∧
      (∀ step ∈ [sqrDistance a b, sqrDistance b a], EvaluatesTo P env embed step .float
        fun _ => squareDistance t.components (value a) (value b)) ∧
      ∀ step ∈ [signedDistanceToPlane a b c, do dot (← sub c a) b],
        EvaluatesTo P env embed step .float
          fun _ => innerProduct t.components (fun i => value c i - value a i) (value b)) ∧
    (a.type = .float3 ∨ a.type = .float4 →
      EvaluatesTo P env embed (colorLuma a) .float (fun _ => brightness (value a)) ∧
      Operator.colorLuma.GivesScalar P env embed [a] (brightness (value a))) ∧
    (∀ operands ∈ [[a, b], [b, a]],
      Operator.dot.GivesScalar P env embed operands (innerProduct
        (max a.type.components b.type.components) (a.operandNumber value)
        (b.operandNumber value)) ∧
      Operator.sqrDistance.GivesScalar P env embed operands (squareDistance
        (max a.type.components b.type.components) (a.operandNumber value)
        (b.operandNumber value))) ∧
    Operator.signedDistanceToPlane.GivesScalar P env embed [a, b, c] (innerProduct
      (max (max a.type.components b.type.components) c.type.components)
      (fun i => c.operandNumber value i - a.operandNumber value i) (b.operandNumber value)) ∧
    ∀ n (f g : Nat → K), 0 ≤ squareDistance n f g ∧
      (squareDistance n f g = 0 ↔ ∀ i < n, f i = g i) := by
  have hplane := Operator.apply_signedDistanceToPlane_numbers h hvalue
  simp only [List.forall_mem_cons] at hvalue
  obtain ⟨ha, hb, hc, -⟩ := hvalue
  refine ⟨?_, ?_, ?_, hplane, ?_⟩
  · intro t htypes
    simp only [List.forall_mem_cons] at htypes
    obtain ⟨rfl, hbt, hct, -⟩ := htypes
    obtain ⟨hfloat, ha⟩ := ha
    replace hb := hbt ▸ hb.2
    replace hc := hct ▸ hc.2
    have harith := h.toHasArithmetic
    refine ⟨dot_orders harith hfloat ha hb, ?_, ?_, ?_⟩
    · intro q e he
      rw [← innerProduct_mul_add_left]
      exact dot_orders harith hfloat he hb
    · refine forall_mem_pair.2 ⟨(sqrDistance_numbers harith hfloat ha hb).evaluatesTo, ?_⟩
      rw [squareDistance_comm]
      exact (sqrDistance_numbers harith hfloat hb ha).evaluatesTo
    · refine forall_mem_pair.2
        ⟨(signedDistanceToPlane_numbers harith hfloat ha hb hc).evaluatesTo, ?_⟩
      apply Meets.evaluatesTo
      apply (sub_numbers harith hc ha).bind
      intro offset hoffset
      exact dot_numbers harith hfloat hoffset hb
  · intro hcolor
    have hluma {fails : Failure → Prop} : Meets fails (colorLuma a) _ :=
      colorLuma_numbers h hcolor ha.2
    exact ⟨hluma.evaluatesTo,
      Operator.givesScalar_of_meets (Operator.singleton_numbers hluma)⟩
  · have hab : ∀ e ∈ [a, b], HasNumbers P env embed value e := forall_mem_pair.2 ⟨ha, hb⟩
    have hba : ∀ e ∈ [b, a], HasNumbers P env embed value e := forall_mem_pair.2 ⟨hb, ha⟩
    refine forall_mem_pair.2
      ⟨⟨Operator.apply_dot_numbers h hab, Operator.apply_sqrDistance_numbers h hab⟩, ?_, ?_⟩
    · rw [max_comm, innerProduct_comm]
      exact Operator.apply_dot_numbers h hba
    · rw [max_comm, squareDistance_comm]
      exact Operator.apply_sqrDistance_numbers h hba
  · intro n f g
    exact ⟨squareDistance_nonneg, squareDistance_eq_zero_iff⟩

/-- A point of a plane, the normal of the plane, and another point. -/
def plane : Environment ℚ where
  input _ name i :=
    if name = "on" then if i = 0 then 1 else 2
    else if name = "normal" then if i = 0 then 3 else 4
    else if name = "off" then if i = 0 then 5 else 7
    else 2
  seed := 0

/-- The point is 32 from the plane, and the square of its distance from the other point is 41. The
catalog doubles the lanes of the point with a scalar. -/
theorem dot_innerProduct_plane :
    (∃ e, ((signedDistanceToPlane (pair 0 "on") (pair 1 "normal") (pair 2 "off")).runFrom 4).1 =
        .ok e ∧ e.lane (ofField fun a _ => a) plane 0 = 32) ∧
    (∃ e, ((sqrDistance (pair 0 "on") (pair 2 "off")).runFrom 4).1 = .ok e ∧
      e.lane (ofField fun a _ => a) plane 0 = 41) ∧
    ∃ e, ((Operator.dot.apply [pair 0 "on", .leaf 3 (.input .float "two")]).runFrom 4).1 =
        .ok [e] ∧ e.lane (ofField fun a _ => a) plane 0 = 6 := by
  let P : Primitives ℚ := ofField fun a _ => a
  let value : Expr → Nat → ℚ := fun e => e.lane P plane
  let two : Expr := .leaf 3 (.input .float "two")
  have hnumbers (operands : List Expr) (hfloat : ∀ e ∈ operands, e.type.isFloat = true) :
      ∀ e ∈ operands, HasNumbers P plane id value e :=
    fun e he => ⟨hfloat e he, hasLanes_lane P plane e⟩
  have hconstants : P.HasConstants id := (hasOrder_ofField _).toHasConstants
  obtain ⟨hsame, -⟩ := @dot_innerProduct ℚ ℚ _ P plane id (pair 0 "on") (pair 1 "normal")
    (pair 2 "off") _ _ value hconstants (hnumbers _ (by decide))
  obtain ⟨-, -, -, hplane⟩ := hsame .float2 (by decide)
  obtain ⟨distance, hrun, -, hdistance⟩ := hplane _ List.mem_cons_self 4
  obtain ⟨hsame, -⟩ := @dot_innerProduct ℚ ℚ _ P plane id (pair 0 "on") (pair 2 "off")
    (pair 1 "normal") _ _ value hconstants (hnumbers _ (by decide))
  obtain ⟨-, -, hsquare, -⟩ := hsame .float2 (by decide)
  obtain ⟨square, hrun', -, hsquare⟩ := hsquare _ List.mem_cons_self 4
  obtain ⟨-, -, hcatalog, -⟩ := @dot_innerProduct ℚ ℚ _ P plane id (pair 0 "on") two two _ _ value
    hconstants (hnumbers _ (by decide))
  obtain ⟨double, hrun'', -, hdouble⟩ := (hcatalog _ List.mem_cons_self).1 4
  refine ⟨⟨distance, hrun, (hdistance 0 (by decide)).trans ?_⟩,
    ⟨square, hrun', (hsquare 0 (by decide)).trans ?_⟩,
    double, hrun'', (hdouble 0 (by decide)).trans ?_⟩
  · decide +kernel
  · decide +kernel
  · decide +kernel

end Formula

end ShaderAlgebra
