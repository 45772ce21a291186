import Mathlib.Data.Rat.Defs
import Mathlib.Tactic.NormNum
import ShaderAlgebra.Proofs.Evaluation.Exact

/-!
# Remapping ranges

With exact numbers, a range is mapped to another one by the affine function that
takes its ends to the ends of the other. Two maps in a row are one map, a range
mapped to itself is unchanged, and so mapping back gives the value that was mapped.
Blending is the map from the unit range.
-/

namespace ShaderAlgebra

variable {D K : Type} [Field K]

/-- The affine function from the range `[a, b]` to the range `[c, d]`. -/
def remap (a b c d v : K) : K := c + (v - a) / (b - a) * (d - c)

section Laws

variable {a b c d e f v : K}

theorem remap_left : remap a b c d a = c := by
  rw [remap, sub_self, zero_div, zero_mul, add_zero]

theorem remap_right (hab : a ≠ b) : remap a b c d b = d := by
  rw [remap, div_self (sub_ne_zero.2 hab.symm), one_mul, add_sub_cancel]

theorem remap_self (hab : a ≠ b) : remap a b a b v = v := by
  rw [remap, div_mul_cancel₀ _ (sub_ne_zero.2 hab.symm), add_sub_cancel]

theorem remap_remap (hcd : c ≠ d) : remap c d e f (remap a b c d v) = remap a b e f v := by
  have hplace : remap a b c d v - c = (v - a) / (b - a) * (d - c) := add_sub_cancel_left c _
  rw [remap, hplace, mul_div_cancel_right₀ _ (sub_ne_zero.2 hcd.symm), remap]

end Laws

namespace Primitives

variable {P : Primitives D} {embed : K → D} {a b c d v x y s : K}

theorem lerp_embed (h : P.HasArithmetic embed) :
    P.lerp (embed x) (embed y) (embed s) = embed (x + s * (y - x)) := by
  rw [lerp, h.sub, h.mul, h.add]

theorem fit_embed (h : P.HasArithmetic embed) (hab : a ≠ b) :
    P.fit (embed v) (embed a) (embed b) (embed c) (embed d) = embed (remap a b c d v) := by
  rw [fit, h.sub, h.sub, h.div _ _ (sub_ne_zero.2 hab.symm), lerp_embed h, remap]

end Primitives

namespace Formula

open ShaderAlgebra.Expr Build

variable {P : Primitives D} {env : Environment D} {embed : K → D} {fails : Failure → Prop}
  {v a b c d e f x y s : Expr} {t : ValueType} {place lo hi lo' hi' lo'' hi'' : Nat → K}

theorem lerp_numbers (h : P.HasArithmetic embed)
    (hx : HasLanes P env t (fun i => embed (lo i)) x)
    (hy : HasLanes P env t (fun i => embed (hi i)) y)
    (hs : HasLanes P env t (fun i => embed (place i)) s) :
    Meets fails (lerp x y s)
      (HasLanes P env t fun i => embed (lo i + place i * (hi i - lo i))) :=
  (lerp_lanes hx hy hs).imp fun _ hout => hout.congr fun _ _ => Primitives.lerp_embed h

theorem fit_numbers (h : P.HasArithmetic embed)
    (hv : HasLanes P env t (fun i => embed (place i)) v)
    (ha : HasLanes P env t (fun i => embed (lo i)) a)
    (hb : HasLanes P env t (fun i => embed (hi i)) b)
    (hc : HasLanes P env t (fun i => embed (lo' i)) c)
    (hd : HasLanes P env t (fun i => embed (hi' i)) d) (hab : ∀ i < t.components, lo i ≠ hi i) :
    Meets fails (fit v a b c d)
      (HasLanes P env t fun i => embed (remap (lo i) (hi i) (lo' i) (hi' i) (place i))) :=
  (fit_lanes hv ha hb hc hd).imp fun _ hout =>
    hout.congr fun i hi => Primitives.fit_embed h (hab i hi)

/-- Two maps in a row, the second one from the range that the first one has mapped to. -/
theorem fit_fit_numbers (h : P.HasArithmetic embed)
    (hv : HasLanes P env t (fun i => embed (place i)) v)
    (ha : HasLanes P env t (fun i => embed (lo i)) a)
    (hb : HasLanes P env t (fun i => embed (hi i)) b)
    (hc : HasLanes P env t (fun i => embed (lo' i)) c)
    (hd : HasLanes P env t (fun i => embed (hi' i)) d)
    (he : HasLanes P env t (fun i => embed (lo'' i)) e)
    (hf : HasLanes P env t (fun i => embed (hi'' i)) f)
    (hab : ∀ i < t.components, lo i ≠ hi i) (hcd : ∀ i < t.components, lo' i ≠ hi' i) :
    Meets fails (do fit (← fit v a b c d) c d e f)
      (HasLanes P env t fun i => embed (remap (lo i) (hi i) (lo'' i) (hi'' i) (place i))) := by
  apply (fit_numbers h hv ha hb hc hd hab).bind
  intro mapped hmapped
  apply (fit_numbers h hmapped hc hd he hf hcd).imp
  intro out hout
  exact hout.congr fun i hi => by rw [remap_remap (hcd i hi)]

/-- Maps between ranges compose. Operands of one type have the numbers `value` as their lanes, and
no range that is mapped has both ends in one place. -/
theorem fit_composes {value : Expr → Nat → K} (h : P.HasArithmetic embed)
    (hvalue : ∀ o ∈ [v, a, b, c, d, e, f, x, y, s],
      HasLanes P env t (fun i => embed (value o i)) o) :
    ((∀ i < t.components, value a i ≠ value b i) →
      (∀ i < t.components, value c i ≠ value d i) →
      (∃ g, EvaluatesTo P env embed (do fit (← fit v a b c d) c d e f) t g ∧
        EvaluatesTo P env embed (fit v a b e f) t g) ∧
      EvaluatesTo P env embed (fit v a b a b) t (value v) ∧
      EvaluatesTo P env embed (do fit (← fit v a b c d) c d a b) t (value v) ∧
      EvaluatesTo P env embed (fit a a b c d) t (value c) ∧
      EvaluatesTo P env embed (fit b a b c d) t (value d)) ∧
    ∃ g, EvaluatesTo P env embed (lerp x y s) t g ∧ ∀ i < t.components,
      (value s i = 0 → g i = value x i) ∧ (value s i = 1 → g i = value y i) ∧
        (value x i = value y i → g i = value x i) := by
  simp only [List.forall_mem_cons] at hvalue
  obtain ⟨hv, ha, hb, hc, hd, he, hf, hx, hy, hs, -⟩ := hvalue
  constructor
  · intro hab hcd
    have htwice := (fit_fit_numbers h hv ha hb hc hd he hf hab hcd).evaluatesTo
    have honce := (fit_numbers h hv ha hb he hf hab).evaluatesTo
    have hsame := (fit_numbers h hv ha hb ha hb hab).evaluatesTo
    have hback := (fit_fit_numbers h hv ha hb hc hd ha hb hab hcd).evaluatesTo
    have hlow := (fit_numbers h ha ha hb hc hd hab).evaluatesTo
    have hhigh := (fit_numbers h hb ha hb hc hd hab).evaluatesTo
    refine ⟨⟨_, htwice, honce⟩, ?_, ?_, ?_, ?_⟩
    · exact hsame.congr fun i hi => remap_self (hab i hi)
    · exact hback.congr fun i hi => remap_self (hab i hi)
    · exact hlow.congr fun i _ => remap_left
    · exact hhigh.congr fun i hi => remap_right (hab i hi)
  · refine ⟨_, (lerp_numbers h hx hy hs).evaluatesTo, fun i _ => ⟨fun hs => ?_, ?_, ?_⟩⟩
    · rw [hs, zero_mul, add_zero]
    · intro hs
      rw [hs, one_mul, add_sub_cancel]
    · intro hxy
      rw [hxy, sub_self, mul_zero, add_zero]

/-- Water freezes at `32` and boils at `212` degrees of one scale, at `0` and `100` of another. -/
def temperatures : Environment ℚ where
  input _ name i :=
    if name = "reading" then if i = 0 then 68 else 14
    else if name = "freezing" then 32
    else if name = "boiling" then 212
    else if name = "hundred" then 100
    else 0
  seed := 0

/-- Two readings are taken to the other scale and back. -/
theorem fit_composes_temperatures :
    ∃ back, ((do
        let v := pair 0 "reading"
        let a := pair 1 "freezing"
        let b := pair 2 "boiling"
        let c := pair 3 "zero"
        let d := pair 4 "hundred"
        fit (← fit v a b c d) c d a b : Build Expr).runFrom 5).1 = .ok back ∧
      back.lane (.ofArithmetic id) temperatures 0 = 68 ∧
      back.lane (.ofArithmetic id) temperatures 1 = 14 := by
  let P : Primitives ℚ := .ofArithmetic id
  let a := pair 1 "freezing"
  let b := pair 2 "boiling"
  let c := pair 3 "zero"
  let d := pair 4 "hundred"
  obtain ⟨hranges, -⟩ := @fit_composes ℚ ℚ _ P temperatures id (pair 0 "reading") a b c d
    a b a b c .float2 (·.lane P temperatures) (Primitives.hasArithmetic_ofArithmetic _)
    fun o ho => ⟨by revert o; decide, fun _ _ => rfl⟩
  have hfrom : (32 : ℚ) ≠ 212 := by norm_num
  have hto : (0 : ℚ) ≠ 100 := by norm_num
  obtain ⟨-, -, hback, -⟩ := hranges (fun _ _ => hfrom) fun _ _ => hto
  obtain ⟨back, hrun, -, hlanes⟩ := hback 5
  exact ⟨back, hrun, hlanes 0 (by decide), hlanes 1 (by decide)⟩

end Formula

end ShaderAlgebra
