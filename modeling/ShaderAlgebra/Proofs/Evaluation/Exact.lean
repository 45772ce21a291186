import Mathlib.Algebra.Order.Field.Rat
import Mathlib.Data.Rat.Cast.CharZero
import ShaderAlgebra.Proofs.Binary.Error
import ShaderAlgebra.Proofs.Evaluation.Arithmetic

/-!
# Evaluation with exact numbers

Laws of a formula hold where its constants are numbers of the domain as well, each
the one that its float stands for. Then a step on operands whose lanes are numbers
gives an expression whose lanes are numbers, and these can be computed beforehand.
-/

namespace ShaderAlgebra

variable {D K : Type}

namespace Primitives

/-- A constant is the number that its float stands for. -/
structure HasConstants [Field K] (P : Primitives D) (embed : K → D) : Prop
    extends P.HasArithmetic embed where
  number : ∀ x : Single, x.isFinite → P.number x = embed x.value

/-- The numbers of an ordered field, with the lesser and the greater of two. -/
structure HasOrder [Field K] [LinearOrder K] (P : Primitives D) (embed : K → D) : Prop
    extends P.HasConstants embed where
  min : ∀ a b, P.binary .min (embed a) (embed b) = embed (min a b)
  max : ∀ a b, P.binary .max (embed a) (embed b) = embed (max a b)

/-- Powers of one half are square roots. -/
structure HasRoots [Field K] [LinearOrder K] (P : Primitives D) (embed : K → D) : Prop
    extends P.HasConstants embed where
  root : ∀ q, 0 ≤ q → ∃ r, 0 ≤ r ∧ r * r = q ∧ P.pow (embed q) (embed (1 / 2)) = embed r

section Constants

variable [Field K] {P : Primitives D} {embed : K → D}

theorem HasConstants.number_eq (h : P.HasConstants embed) {x : Single} {q : ℚ}
    (hfinite : x.isFinite) (hvalue : x.value = q) : P.number x = embed q := by
  rw [h.number x hfinite, hvalue]

theorem HasConstants.zero (h : P.HasConstants embed) : P.number 0 = embed 0 := by
  rw [h.number_eq (q := 0) (by decide +kernel) (by decide +kernel), Rat.cast_zero]

theorem HasConstants.one (h : P.HasConstants embed) : P.number 1 = embed 1 := by
  rw [h.number_eq (q := 1) (by decide +kernel) (by decide +kernel), Rat.cast_one]

theorem HasConstants.ofNat (h : P.HasConstants embed) {x : Single} (n : Nat)
    (hfinite : x.isFinite) (hvalue : x.value = n) : P.number x = embed n := by
  rw [h.number_eq hfinite hvalue, Rat.cast_natCast]

theorem HasConstants.minusOne (h : P.HasConstants embed) :
    P.number Literal.minusOne.value = embed (-1) := by
  rw [h.number_eq (q := -1) (by decide +kernel) (by decide +kernel), Rat.cast_neg, Rat.cast_one]

theorem HasConstants.two (h : P.HasConstants embed) : P.number Literal.two.value = embed 2 := by
  rw [h.ofNat 2 (by decide +kernel) (by decide +kernel), Nat.cast_ofNat]

theorem HasConstants.half (h : P.HasConstants embed) :
    P.number Literal.half.value = embed (1 / 2) := by
  -- by numerator and denominator, since the field may be of any characteristic
  have hnum : (1 / 2 : ℚ).num = 1 := by decide +kernel
  have hden : (1 / 2 : ℚ).den = 2 := by decide +kernel
  rw [h.number_eq (q := 1 / 2) (by decide +kernel) (by decide +kernel), Rat.cast_def, hnum, hden,
    Int.cast_one, Nat.cast_ofNat]

/-- All numbers are the only value of the domain of one value. -/
theorem hasConstants_unit : Primitives.unit.HasConstants fun _ : K => () where
  add _ _ := rfl
  sub _ _ := rfl
  mul _ _ := rfl
  div _ _ _ := rfl
  number _ _ := rfl

end Constants

/-- The numbers of an ordered field alone, with a power function, as a domain. -/
def ofField [Field K] [LinearOrder K] (pow : K → K → K) : Primitives K where
  number x := x.value
  int n := n.toInt
  uint n := n.toNat
  unary _ a := a
  binary
    | .add, a, b => a + b
    | .sub, a, b => a - b
    | .mul, a, b => a * b
    | .div, a, b => a / b
    | .min, a, b => min a b
    | .max, a, b => max a b
    | .pow, a, b => pow a b
    | _, a, _ => a

theorem hasOrder_ofField [Field K] [LinearOrder K] (pow : K → K → K) :
    (ofField pow).HasOrder id where
  add _ _ := rfl
  sub _ _ := rfl
  mul _ _ := rfl
  div _ _ _ := rfl
  number _ _ := rfl
  min _ _ := rfl
  max _ _ := rfl

end Primitives

def Expr.pair (id : Nat) (name : String) : Expr := .leaf id (.input .float2 name)

/-- A node of the type `t` whose lane `i` is the number `q`. -/
def Expr.HasNumberAt (P : Primitives D) (env : Environment D) (embed : K → D) (t : ValueType)
    (i : Nat) (q : K) (e : Expr) : Prop :=
  e.type = t ∧ e.lane P env i = embed q

theorem Expr.HasNumberAt.hasLanes {P : Primitives D} {env : Environment D} {embed : K → D}
    {t : ValueType} {i : Nat} {q : K} {e : Expr} (h : e.HasNumberAt P env embed t i q) :
    HasLanes P env t (e.lane P env) e :=
  ⟨h.1, fun _ _ => rfl⟩

namespace Build

open ShaderAlgebra.Expr

variable {P : Primitives D} {env : Environment D} {embed : K → D} {fails : Failure → Prop}
  {a b : Expr} {t : ValueType} {f g : Nat → K}

/-- From every identity on, a step gives a node of the type `t` whose lanes are the numbers `f`. -/
def EvaluatesTo (P : Primitives D) (env : Environment D) (embed : K → D) (step : Build Expr)
    (t : ValueType) (f : Nat → K) : Prop :=
  ∀ next, ∃ e, (step.runFrom next).1 = .ok e ∧ HasLanes P env t (fun i => embed (f i)) e

theorem Meets.evaluatesTo {step : Build Expr}
    (h : Meets (fun _ => False) step (HasLanes P env t fun i => embed (f i))) :
    EvaluatesTo P env embed step t f :=
  h.exists_ok

theorem EvaluatesTo.congr {step : Build Expr} (h : EvaluatesTo P env embed step t f)
    (hfg : ∀ i < t.components, f i = g i) : EvaluatesTo P env embed step t g := by
  intro next
  obtain ⟨e, hrun, he⟩ := h next
  exact ⟨e, hrun, he.congr fun i hi => by rw [hfg i hi]⟩

/-- From every identity on, a step gives a node of the type `t` whose lane `i` is the number `q`. -/
def EvaluatesAt (P : Primitives D) (env : Environment D) (embed : K → D) (t : ValueType) (i : Nat)
    (step : Build Expr) (q : K) : Prop :=
  ∀ next, ∃ e, (step.runFrom next).1 = .ok e ∧ e.HasNumberAt P env embed t i q

theorem Meets.evaluatesAt {step : Build Expr} {i : Nat} {q : K}
    (h : Meets (fun _ => False) step (HasNumberAt P env embed t i q)) :
    EvaluatesAt P env embed t i step q :=
  h.exists_ok

section Lane

variable {i : Nat} {q r s : K} (hi : i < t.components)

include hi

theorem numberAt_of_lanes {step : Build Expr} {lanes : Nat → D}
    (h : Meets fails step (HasLanes P env t lanes)) (hq : lanes i = embed q) :
    Meets fails step (HasNumberAt P env embed t i q) :=
  h.imp fun _ he => ⟨he.1, (he.2 i hi).trans hq⟩

theorem binary_at {op : BinaryOp} (ha : a.HasNumberAt P env embed t i q)
    (hb : b.HasNumberAt P env embed t i r) (hs : P.binary op (embed q) (embed r) = embed s) :
    Meets fails (binary op a b) (HasNumberAt P env embed t i s) := by
  apply numberAt_of_lanes hi (binary_lanes ha.hasLanes hb.hasLanes)
  rw [ha.2, hb.2, hs]

end Lane

theorem unary_numbers {op : UnaryOp} (hop : op.isElementwise = true)
    (ha : HasLanes P env t (fun i => embed (f i)) a)
    (hlane : ∀ i < t.components, P.unary op (embed (f i)) = embed (g i)) :
    Meets fails (unary op a) (HasLanes P env t fun i => embed (g i)) :=
  (unary_lanes hop ha).imp fun _ he => he.congr hlane

theorem binary_numbers {op : BinaryOp} {k : Nat → K}
    (ha : HasLanes P env t (fun i => embed (f i)) a)
    (hb : HasLanes P env t (fun i => embed (g i)) b)
    (hlane : ∀ i < t.components, P.binary op (embed (f i)) (embed (g i)) = embed (k i)) :
    Meets fails (binary op a b) (HasLanes P env t fun i => embed (k i)) :=
  (binary_lanes ha hb).imp fun _ he => he.congr hlane

variable [Field K]

theorem constant_numbers (h : P.HasConstants embed) {c : Constant} (hfloat : c.type.isFloat = true)
    (hfinite : ∀ x ∈ c.floats, x.isFinite = true) :
    Meets fails (constant c) (HasLanes P env c.type fun i => embed (c.floats.getD i 0).value) := by
  apply (constant_lanes c).imp
  intro e he
  refine he.congr fun i _ => ?_
  rw [Primitives.constant_of_isFloat hfloat, List.getD_eq_getElem?_getD]
  cases hx : c.floats[i]? with
  | none => exact h.number 0 (by decide +kernel)
  | some x => exact h.number x (hfinite x (List.mem_of_getElem? hx))

theorem add_numbers (h : P.HasArithmetic embed) (ha : HasLanes P env t (fun i => embed (f i)) a)
    (hb : HasLanes P env t (fun i => embed (g i)) b) :
    Meets fails (add a b) (HasLanes P env t fun i => embed (f i + g i)) :=
  binary_numbers ha hb fun _ _ => h.add _ _

theorem sub_numbers (h : P.HasArithmetic embed) (ha : HasLanes P env t (fun i => embed (f i)) a)
    (hb : HasLanes P env t (fun i => embed (g i)) b) :
    Meets fails (sub a b) (HasLanes P env t fun i => embed (f i - g i)) :=
  binary_numbers ha hb fun _ _ => h.sub _ _

theorem mul_numbers (h : P.HasArithmetic embed) (ha : HasLanes P env t (fun i => embed (f i)) a)
    (hb : HasLanes P env t (fun i => embed (g i)) b) :
    Meets fails (mul a b) (HasLanes P env t fun i => embed (f i * g i)) :=
  binary_numbers ha hb fun _ _ => h.mul _ _

theorem div_numbers (h : P.HasArithmetic embed) (ha : HasLanes P env t (fun i => embed (f i)) a)
    (hb : HasLanes P env t (fun i => embed (g i)) b) (hg : ∀ i < t.components, g i ≠ 0) :
    Meets fails (div a b) (HasLanes P env t fun i => embed (f i / g i)) :=
  binary_numbers ha hb fun i hi => h.div _ _ (hg i hi)

end Build

end ShaderAlgebra
