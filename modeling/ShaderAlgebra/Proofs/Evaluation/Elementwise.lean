import ShaderAlgebra.Formula.Solid
import ShaderAlgebra.Formula.Hyperbolic
import ShaderAlgebra.Proofs.Evaluation.Conversion

/-!
# Lanes of element-wise formulas

Each element-wise formula has a scalar counterpart in every domain. On operands
of one type it never fails, and each lane of its result is the scalar formula
of the operands' lanes. The literals of a formula are given by a function `c`,
since on integers they lose their fractions.
-/

namespace ShaderAlgebra

variable {D : Type}

namespace Primitives

section

variable (P : Primitives D)

def add : D → D → D := P.binary .add
def sub : D → D → D := P.binary .sub
def mul : D → D → D := P.binary .mul
def div : D → D → D := P.binary .div
def pow : D → D → D := P.binary .pow
def floor : D → D := P.unary .floor

def clamp (x lo hi : D) : D := P.binary .max (P.binary .min x hi) lo
def frac (x : D) : D := P.sub x (P.floor x)
def quotientOfLogs (x base : D) : D := P.div (P.unary .log2 x) (P.unary .log2 base)
def lerp (x y s : D) : D := P.add x (P.mul s (P.sub y x))

def fit (value oldMin oldMax newMin newMax : D) : D :=
  P.lerp newMin newMax (P.div (P.sub value oldMin) (P.sub oldMax oldMin))

def floatModulo (x y : D) : D := P.mul (P.frac (P.div x y)) y
def wholeModulo (x y : D) : D := P.sub x (P.mul (P.div x y) y)
def discretize (value step : D) : D := P.mul (P.floor (P.div value step)) step

end

section Literals

variable (P : Primitives D) (c : Single → D)

def negate (x : D) : D := P.mul (c Literal.minusOne.value) x
def saturate (x : D) : D := P.clamp x (c Literal.zero.value) (c Literal.one.value)
def round (x : D) : D := P.floor (P.add x (c Literal.half.value))
def sqrt (x : D) : D := P.pow x (c Literal.half.value)

def smoothstep (x y s : D) : D :=
  let t := P.saturate c (P.div (P.sub s x) (P.sub y x))
  P.mul (P.mul (P.sub (c Literal.three.value) (P.mul (c Literal.two.value) t)) t) t

def rising (x : D) : D := P.pow (c Literal.e.value) x
def falling (x : D) : D := P.pow (c Literal.e.value) (P.negate c x)
def sinh (x : D) : D := P.mul (c Literal.half.value) (P.sub (P.rising c x) (P.falling c x))
def cosh (x : D) : D := P.mul (c Literal.half.value) (P.add (P.rising c x) (P.falling c x))

def tanh (x : D) : D :=
  let power := P.pow (c Literal.e.value)
    (P.mul (P.mul (c Literal.minusOne.value) (c Literal.two.value)) x)
  P.div (P.sub (c Literal.one.value) power) (P.add (c Literal.one.value) power)

def atanh (x : D) : D :=
  P.mul (c Literal.half.value) <| P.quotientOfLogs
    (P.div (P.add (c Literal.one.value) x) (P.sub (c Literal.one.value) x)) (c Literal.e.value)

def circleArea (radius : D) : D := P.mul (P.mul (c Literal.pi.value) radius) radius
def circleCircumference (radius : D) : D := P.mul (c Literal.tau.value) radius

def sphereVolume (radius : D) : D :=
  P.mul (P.mul (P.mul (c (4 / 3 * Literal.pi.value)) radius) radius) radius

def cylinderVolume (radius height : D) : D := P.mul (P.circleArea c radius) height

def coneVolume (r s height : D) : D :=
  P.mul (P.mul (c (Literal.pi.value / 3)) (P.add (P.add (P.mul r r) (P.mul r s)) (P.mul s s)))
    height

def torusVolume (major minor : D) : D :=
  P.mul (P.circleArea c minor) (P.circleCircumference c major)

end Literals

end Primitives

namespace Formula

open ShaderAlgebra.Expr Build

variable {P : Primitives D} {env : Environment D} {fails : Failure → Prop}
  {x y s lo hi value step : Expr} {t u v : ValueType} {f g h k l : Nat → D}

theorem negate_lanes (hx : HasLanes P env t f x) :
    Meets fails (negate x) (HasLanes P env t fun i => P.negate (P.scalar t) (f i)) := by
  unfold negate
  rw [hx.1]
  exact binary_lanes (hasLanes_literal _ t) hx

/-- The bounds take the type of the first operand. -/
theorem clamp_lanes (hx : HasLanes P env t f x) (hlo : HasLanes P env u g lo)
    (hhi : HasLanes P env v h hi) (ht : t.isFloat = true) (hu : u.isFloat = true)
    (hv : v.isFloat = true) :
    Meets fails (clamp x lo hi) (HasLanes P env t fun i =>
      P.clamp (f i) (P.castLane u.components 0 g i) (P.castLane v.components 0 h i)) := by
  unfold clamp
  rw [hx.1]
  apply (asType_lanes hlo hu ht).bind
  intro lo hlo
  apply (asType_lanes hhi hv ht).bind
  intro hi hhi
  apply (binary_lanes hx hhi).bind
  intro least hleast
  exact binary_lanes hleast hlo

theorem clamp_lanes_of_types (hx : HasLanes P env t f x) (hlo : HasLanes P env t g lo)
    (hhi : HasLanes P env t h hi) :
    Meets fails (clamp x lo hi) (HasLanes P env t fun i => P.clamp (f i) (g i) (h i)) := by
  unfold clamp
  rw [hx.1]
  apply (asType_lanes_of_type hlo).bind
  intro lo hlo
  apply (asType_lanes_of_type hhi).bind
  intro hi hhi
  apply (binary_lanes hx hhi).bind
  intro least hleast
  exact binary_lanes hleast hlo

theorem saturate_lanes (hx : HasLanes P env t f x) :
    Meets fails (saturate x) (HasLanes P env t fun i => P.saturate (P.scalar t) (f i)) := by
  unfold saturate
  rw [hx.1]
  exact clamp_lanes_of_types hx (hasLanes_literal _ t) (hasLanes_literal _ t)

theorem frac_lanes (hx : HasLanes P env t f x) :
    Meets fails (frac x) (HasLanes P env t fun i => P.frac (f i)) := by
  unfold frac
  apply (unary_lanes rfl hx).bind
  intro floor hfloor
  exact binary_lanes hx hfloor

theorem round_lanes (hx : HasLanes P env t f x) :
    Meets fails (round x) (HasLanes P env t fun i => P.round (P.scalar t) (f i)) := by
  unfold round
  rw [hx.1]
  apply (binary_lanes hx (hasLanes_literal _ t)).bind
  intro sum hsum
  exact unary_lanes rfl hsum

theorem quotientOfLogs_lanes (hx : HasLanes P env t f x) (hy : HasLanes P env t g y) :
    Meets fails (quotientOfLogs x y)
      (HasLanes P env t fun i => P.quotientOfLogs (f i) (g i)) := by
  unfold quotientOfLogs
  apply (unary_lanes rfl hx).bind
  intro top htop
  apply (unary_lanes rfl hy).bind
  intro bottom hbottom
  exact binary_lanes htop hbottom

theorem log_lanes (hx : HasLanes P env t f x) (hy : HasLanes P env t g y) :
    Meets fails (log x y) (HasLanes P env t fun i => P.quotientOfLogs (f i) (g i)) := by
  unfold log
  apply (commonType_meets_of_types (t := t) (by simp [hx.1, hy.1]) (by simp)).bind
  intro _ _
  exact quotientOfLogs_lanes hx hy

theorem sqrt_lanes (hx : HasLanes P env t f x) :
    Meets fails (sqrt x) (HasLanes P env t fun i => P.sqrt (P.scalar t) (f i)) := by
  unfold sqrt
  rw [hx.1]
  exact binary_lanes hx (hasLanes_literal _ t)

theorem lerp_lanes (hx : HasLanes P env t f x) (hy : HasLanes P env t g y)
    (hs : HasLanes P env t h s) :
    Meets fails (lerp x y s) (HasLanes P env t fun i => P.lerp (f i) (g i) (h i)) := by
  unfold lerp
  apply (commonType_meets_of_types (t := t) (by simp [hx.1, hy.1, hs.1]) (by simp)).bind
  intro _ _
  apply (binary_lanes hy hx).bind
  intro difference hdifference
  apply (binary_lanes hs hdifference).bind
  intro part hpart
  exact binary_lanes hx hpart

theorem fit_lanes {oldMin oldMax newMin newMax : Expr} (hvalue : HasLanes P env t f value)
    (holdMin : HasLanes P env t g oldMin) (holdMax : HasLanes P env t h oldMax)
    (hnewMin : HasLanes P env t k newMin) (hnewMax : HasLanes P env t l newMax) :
    Meets fails (fit value oldMin oldMax newMin newMax)
      (HasLanes P env t fun i => P.fit (f i) (g i) (h i) (k i) (l i)) := by
  unfold fit
  apply (commonType_meets_of_types (t := t)
    (by simp [hvalue.1, holdMin.1, holdMax.1, hnewMin.1, hnewMax.1]) (by simp)).bind
  intro _ _
  apply (binary_lanes hvalue holdMin).bind
  intro offset hoffset
  apply (binary_lanes holdMax holdMin).bind
  intro width hwidth
  apply (binary_lanes hoffset hwidth).bind
  intro part hpart
  exact lerp_lanes hnewMin hnewMax hpart

theorem modulo_lanes (hx : HasLanes P env t f x) (hy : HasLanes P env t g y) :
    Meets fails (modulo x y) (HasLanes P env t fun i =>
      if t.isFloat then P.floatModulo (f i) (g i) else P.wholeModulo (f i) (g i)) := by
  unfold modulo
  apply (commonType_meets_of_types (t := t) (by simp [hx.1, hy.1]) (by simp)).bind
  rintro _ rfl
  apply (binary_lanes hx hy).bind
  intro quotient hquotient
  split
  · apply (frac_lanes hquotient).bind
    intro part hpart
    exact binary_lanes hpart hy
  · apply (binary_lanes hquotient hy).bind
    intro multiple hmultiple
    exact binary_lanes hx hmultiple

theorem smoothstep_lanes (hx : HasLanes P env t f x) (hy : HasLanes P env t g y)
    (hs : HasLanes P env t h s) :
    Meets fails (smoothstep x y s)
      (HasLanes P env t fun i => P.smoothstep (P.scalar t) (f i) (g i) (h i)) := by
  unfold smoothstep
  apply (commonType_meets_of_types (t := t) (by simp [hx.1, hy.1, hs.1]) (by simp)).bind
  rintro _ rfl
  apply (binary_lanes hs hx).bind
  intro offset hoffset
  apply (binary_lanes hy hx).bind
  intro width hwidth
  apply (binary_lanes hoffset hwidth).bind
  intro part hpart
  apply (clamp_lanes_of_types hpart (hasLanes_literal _ _) (hasLanes_literal _ _)).bind
  intro place hplace
  apply (binary_lanes (hasLanes_literal _ _) hplace).bind
  intro double hdouble
  apply (binary_lanes (hasLanes_literal _ _) hdouble).bind
  intro slope hslope
  apply (binary_lanes hslope hplace).bind
  intro rise hrise
  exact binary_lanes hrise hplace

theorem discretize_lanes (hvalue : HasLanes P env t f value) (hstep : HasLanes P env t g step) :
    Meets fails (discretize value step)
      (HasLanes P env t fun i => P.discretize (f i) (g i)) := by
  unfold discretize
  apply (commonType_meets_of_types (t := t) (by simp [hvalue.1, hstep.1]) (by simp)).bind
  intro _ _
  apply (binary_lanes hvalue hstep).bind
  intro quotient hquotient
  apply (unary_lanes rfl hquotient).bind
  intro whole hwhole
  exact binary_lanes hwhole hstep

/-- The factor is the same in each lane. -/
theorem scaleBy_lanes {factor : Single} (hx : HasLanes P env t f x) (ht : t.isFloat = true) :
    Meets fails (scaleBy factor x) (HasLanes P env t fun i => P.mul (f i) (P.number factor)) := by
  unfold scaleBy
  rw [hx.1]
  have hfactor : Meets fails (constant (.float factor))
      (HasLanes P env .float fun _ => P.number factor) := splat_lanes factor .float
  apply hfactor.bind
  intro scalar hscalar
  apply (cast_scalar_lanes hscalar ht).bind
  intro scale hscale
  exact binary_lanes hx hscale

section Hyperbolic

theorem exponentials_lanes (hx : HasLanes P env t f x) :
    Meets fails (exponentials x) fun p =>
      HasLanes P env t (fun i => P.rising (P.scalar t) (f i)) p.1 ∧
        HasLanes P env t (fun i => P.falling (P.scalar t) (f i)) p.2 := by
  unfold exponentials
  rw [hx.1]
  apply (binary_lanes (hasLanes_literal _ t) hx).bind
  intro rising hrising
  apply (negate_lanes hx).bind
  intro opposite hopposite
  apply (binary_lanes (hasLanes_literal _ t) hopposite).bind
  intro falling hfalling
  exact Meets.pure ⟨hrising, hfalling⟩

theorem sinh_lanes (hx : HasLanes P env t f x) :
    Meets fails (sinh x) (HasLanes P env t fun i => P.sinh (P.scalar t) (f i)) := by
  unfold sinh
  rw [hx.1]
  apply (exponentials_lanes hx).bind
  intro p hp
  apply (binary_lanes hp.1 hp.2).bind
  intro difference hdifference
  exact binary_lanes (hasLanes_literal _ t) hdifference

theorem cosh_lanes (hx : HasLanes P env t f x) :
    Meets fails (cosh x) (HasLanes P env t fun i => P.cosh (P.scalar t) (f i)) := by
  unfold cosh
  rw [hx.1]
  apply (exponentials_lanes hx).bind
  intro p hp
  apply (binary_lanes hp.1 hp.2).bind
  intro sum hsum
  exact binary_lanes (hasLanes_literal _ t) hsum

theorem tanh_lanes (hx : HasLanes P env t f x) :
    Meets fails (tanh x) (HasLanes P env t fun i => P.tanh (P.scalar t) (f i)) := by
  unfold tanh
  rw [hx.1]
  apply (binary_lanes (hasLanes_literal _ t) (hasLanes_literal _ t)).bind
  intro factor hfactor
  apply (binary_lanes hfactor hx).bind
  intro exponent hexponent
  apply (binary_lanes (hasLanes_literal _ t) hexponent).bind
  intro power hpower
  apply (binary_lanes (hasLanes_literal _ t) hpower).bind
  intro top htop
  apply (binary_lanes (hasLanes_literal _ t) hpower).bind
  intro bottom hbottom
  exact binary_lanes htop hbottom

theorem atanh_lanes (hx : HasLanes P env t f x) :
    Meets fails (atanh x) (HasLanes P env t fun i => P.atanh (P.scalar t) (f i)) := by
  unfold atanh
  rw [hx.1]
  apply (binary_lanes (hasLanes_literal _ t) hx).bind
  intro top htop
  apply (binary_lanes (hasLanes_literal _ t) hx).bind
  intro bottom hbottom
  apply (binary_lanes htop hbottom).bind
  intro ratio hratio
  apply (quotientOfLogs_lanes hratio (hasLanes_literal _ t)).bind
  intro logarithm hlogarithm
  exact binary_lanes (hasLanes_literal _ t) hlogarithm

end Hyperbolic

section Solids

variable {radius height : Expr}

theorem circleArea_lanes (hr : HasLanes P env t f radius) :
    Meets fails (circleArea radius)
      (HasLanes P env t fun i => P.circleArea (P.scalar t) (f i)) := by
  unfold circleArea
  rw [hr.1]
  apply (binary_lanes (hasLanes_literal _ t) hr).bind
  intro product hproduct
  exact binary_lanes hproduct hr

theorem circleCircumference_lanes (hr : HasLanes P env t f radius) :
    Meets fails (circleCircumference radius)
      (HasLanes P env t fun i => P.circleCircumference (P.scalar t) (f i)) := by
  unfold circleCircumference
  rw [hr.1]
  exact binary_lanes (hasLanes_literal _ t) hr

theorem sphereVolume_lanes (hr : HasLanes P env t f radius) :
    Meets fails (sphereVolume radius)
      (HasLanes P env t fun i => P.sphereVolume (P.scalar t) (f i)) := by
  unfold sphereVolume
  rw [hr.1]
  apply (splat_lanes _ t).bind
  intro factor hfactor
  apply (binary_lanes hfactor hr).bind
  intro length hlength
  apply (binary_lanes hlength hr).bind
  intro area harea
  exact binary_lanes harea hr

theorem cylinderVolume_lanes (hr : HasLanes P env t f radius) (hh : HasLanes P env t g height) :
    Meets fails (cylinderVolume radius height)
      (HasLanes P env t fun i => P.cylinderVolume (P.scalar t) (f i) (g i)) := by
  unfold cylinderVolume
  apply (commonType_meets_of_types (t := t) (by simp [hr.1, hh.1]) (by simp)).bind
  intro _ _
  apply (circleArea_lanes hr).bind
  intro area harea
  exact binary_lanes harea hh

theorem coneVolume_lanes (hx : HasLanes P env t f x) (hs : HasLanes P env t g s)
    (hh : HasLanes P env t h height) :
    Meets fails (coneVolume x s height)
      (HasLanes P env t fun i => P.coneVolume (P.scalar t) (f i) (g i) (h i)) := by
  unfold coneVolume
  apply (commonType_meets_of_types (t := t) (by simp [hx.1, hs.1, hh.1]) (by simp)).bind
  intro _ _
  rw [hx.1]
  apply (splat_lanes _ t).bind
  intro factor hfactor
  apply (binary_lanes hx hx).bind
  intro first hfirst
  apply (binary_lanes hx hs).bind
  intro mixed hmixed
  apply (binary_lanes hfirst hmixed).bind
  intro sum hsum
  apply (binary_lanes hs hs).bind
  intro second hsecond
  apply (binary_lanes hsum hsecond).bind
  intro squares hsquares
  apply (binary_lanes hfactor hsquares).bind
  intro area harea
  exact binary_lanes harea hh

theorem torusVolume_lanes {major minor : Expr} (hmajor : HasLanes P env t f major)
    (hminor : HasLanes P env t g minor) :
    Meets fails (torusVolume major minor)
      (HasLanes P env t fun i => P.torusVolume (P.scalar t) (f i) (g i)) := by
  unfold torusVolume
  apply (commonType_meets_of_types (t := t) (by simp [hmajor.1, hminor.1]) (by simp)).bind
  intro _ _
  apply (circleArea_lanes hminor).bind
  intro area harea
  apply (circleCircumference_lanes hmajor).bind
  intro circumference hcircumference
  exact binary_lanes harea hcircumference

end Solids

end Formula

end ShaderAlgebra
