import ShaderAlgebra.Formula.Hyperbolic
import ShaderAlgebra.Proofs.Formula.Conversion

/-!
# Types of element-wise formulas

On operands of one type an element-wise formula never fails, and its result has
that type. Only conversions of further operands to the type of the first one
can be refused.
-/

namespace ShaderAlgebra.Formula

open ShaderAlgebra.Expr Build

variable {fails : Failure → Prop} {x y s lo hi value step : Expr} {t u v : ValueType}

theorem negate_meets (hx : HasType x t) : Meets fails (negate x) (HasType · t) := by
  unfold negate
  rw [hx.2]
  exact arithmetic_meets rfl (hasType_literal _ t) hx

theorem clamp_meets (hx : HasType x t) (hlo : HasType lo u) (hhi : HasType hi v)
    (hloRefused : u ≠ t → (u.isFloat && t.isFloat) = false →
      fails (.refused (.invalidCast u t)))
    (hhiRefused : v ≠ t → (v.isFloat && t.isFloat) = false →
      fails (.refused (.invalidCast v t))) :
    Meets fails (clamp x lo hi) (HasType · t) := by
  unfold clamp
  rw [hx.2]
  apply (asType_meets hlo hloRefused).bind
  intro lo hlo
  apply (asType_meets hhi hhiRefused).bind
  intro hi hhi
  apply (arithmetic_meets rfl hx hhi).bind
  intro least hleast
  exact arithmetic_meets rfl hleast hlo

theorem clamp_meets_of_types (hx : HasType x t) (hlo : HasType lo t) (hhi : HasType hi t) :
    Meets fails (clamp x lo hi) (HasType · t) :=
  clamp_meets hx hlo hhi (fun hne => absurd rfl hne) (fun hne => absurd rfl hne)

theorem saturate_meets (hx : HasType x t) : Meets fails (saturate x) (HasType · t) := by
  unfold saturate
  rw [hx.2]
  exact clamp_meets_of_types hx (hasType_literal _ t) (hasType_literal _ t)

theorem frac_meets (hx : HasType x t) : Meets fails (frac x) (HasType · t) := by
  unfold frac
  apply (elementwise_meets rfl hx).bind
  intro floor hfloor
  exact arithmetic_meets rfl hx hfloor

theorem round_meets (hx : HasType x t) : Meets fails (round x) (HasType · t) := by
  unfold round
  rw [hx.2]
  apply (arithmetic_meets rfl hx (hasType_literal _ t)).bind
  intro sum hsum
  exact elementwise_meets rfl hsum

theorem quotientOfLogs_meets (hx : HasType x t) (hy : HasType y t) :
    Meets fails (quotientOfLogs x y) (HasType · t) := by
  unfold quotientOfLogs
  apply (elementwise_meets rfl hx).bind
  intro top htop
  apply (elementwise_meets rfl hy).bind
  intro bottom hbottom
  exact arithmetic_meets rfl htop hbottom

theorem log_meets (hx : HasType x t) (hy : HasType y t) :
    Meets fails (log x y) (HasType · t) := by
  unfold log
  apply (commonType_meets_of_types (t := t) (by simp [hx.2, hy.2]) (by simp)).bind
  intro _ _
  exact quotientOfLogs_meets hx hy

theorem sqrt_meets (hx : HasType x t) : Meets fails (sqrt x) (HasType · t) := by
  unfold sqrt
  rw [hx.2]
  exact arithmetic_meets rfl hx (hasType_literal _ t)

theorem lerp_meets (hx : HasType x t) (hy : HasType y t) (hs : HasType s t) :
    Meets fails (lerp x y s) (HasType · t) := by
  unfold lerp
  apply (commonType_meets_of_types (t := t) (by simp [hx.2, hy.2, hs.2]) (by simp)).bind
  intro _ _
  apply (arithmetic_meets rfl hy hx).bind
  intro difference hdifference
  apply (arithmetic_meets rfl hs hdifference).bind
  intro part hpart
  exact arithmetic_meets rfl hx hpart

theorem fit_meets {oldMin oldMax newMin newMax : Expr} (hvalue : HasType value t)
    (holdMin : HasType oldMin t) (holdMax : HasType oldMax t) (hnewMin : HasType newMin t)
    (hnewMax : HasType newMax t) :
    Meets fails (fit value oldMin oldMax newMin newMax) (HasType · t) := by
  unfold fit
  apply (commonType_meets_of_types (t := t)
    (by simp [hvalue.2, holdMin.2, holdMax.2, hnewMin.2, hnewMax.2]) (by simp)).bind
  intro _ _
  apply (arithmetic_meets rfl hvalue holdMin).bind
  intro offset hoffset
  apply (arithmetic_meets rfl holdMax holdMin).bind
  intro width hwidth
  apply (arithmetic_meets rfl hoffset hwidth).bind
  intro part hpart
  exact lerp_meets hnewMin hnewMax hpart

theorem modulo_meets (hx : HasType x t) (hy : HasType y t) :
    Meets fails (modulo x y) (HasType · t) := by
  unfold modulo
  apply (commonType_meets_of_types (t := t) (by simp [hx.2, hy.2]) (by simp)).bind
  intro _ _
  apply (arithmetic_meets rfl hx hy).bind
  intro quotient hquotient
  split
  · apply (frac_meets hquotient).bind
    intro part hpart
    exact arithmetic_meets rfl hpart hy
  · apply (arithmetic_meets rfl hquotient hy).bind
    intro multiple hmultiple
    exact arithmetic_meets rfl hx hmultiple

theorem smoothstep_meets (hx : HasType x t) (hy : HasType y t) (hs : HasType s t) :
    Meets fails (smoothstep x y s) (HasType · t) := by
  unfold smoothstep
  apply (commonType_meets_of_types (t := t) (by simp [hx.2, hy.2, hs.2]) (by simp)).bind
  rintro _ rfl
  apply (arithmetic_meets rfl hs hx).bind
  intro offset hoffset
  apply (arithmetic_meets rfl hy hx).bind
  intro width hwidth
  apply (arithmetic_meets rfl hoffset hwidth).bind
  intro part hpart
  apply (clamp_meets_of_types hpart (hasType_literal _ _) (hasType_literal _ _)).bind
  intro place hplace
  apply (arithmetic_meets rfl (hasType_literal _ _) hplace).bind
  intro double hdouble
  apply (arithmetic_meets rfl (hasType_literal _ _) hdouble).bind
  intro slope hslope
  apply (arithmetic_meets rfl hslope hplace).bind
  intro rise hrise
  exact arithmetic_meets rfl hrise hplace

theorem discretize_meets (hvalue : HasType value t) (hstep : HasType step t) :
    Meets fails (discretize value step) (HasType · t) := by
  unfold discretize
  apply (commonType_meets_of_types (t := t) (by simp [hvalue.2, hstep.2]) (by simp)).bind
  intro _ _
  apply (arithmetic_meets rfl hvalue hstep).bind
  intro quotient hquotient
  apply (elementwise_meets rfl hquotient).bind
  intro whole hwhole
  exact arithmetic_meets rfl hwhole hstep

theorem scaleBy_meets {factor : Single} (hx : HasType x t)
    (hrefused : t.isFloat = false → fails (.refused (.invalidCast .float t))) :
    Meets fails (scaleBy factor x) (HasType · t) := by
  unfold scaleBy
  rw [hx.2]
  apply (constant_meets (.float factor)).bind
  intro scalar hscalar
  apply (cast_meets hscalar hrefused).bind
  intro scale hscale
  exact arithmetic_meets rfl hx hscale

section Hyperbolic

theorem exponentials_meets (hx : HasType x t) :
    Meets fails (exponentials x) fun p => HasType p.1 t ∧ HasType p.2 t := by
  unfold exponentials
  rw [hx.2]
  apply (arithmetic_meets rfl (hasType_literal _ t) hx).bind
  intro rising hrising
  apply (negate_meets hx).bind
  intro opposite hopposite
  apply (arithmetic_meets rfl (hasType_literal _ t) hopposite).bind
  intro falling hfalling
  exact Meets.pure ⟨hrising, hfalling⟩

theorem sinh_meets (hx : HasType x t) : Meets fails (sinh x) (HasType · t) := by
  unfold sinh
  rw [hx.2]
  apply (exponentials_meets hx).bind
  intro p hp
  apply (arithmetic_meets rfl hp.1 hp.2).bind
  intro difference hdifference
  exact arithmetic_meets rfl (hasType_literal _ t) hdifference

theorem cosh_meets (hx : HasType x t) : Meets fails (cosh x) (HasType · t) := by
  unfold cosh
  rw [hx.2]
  apply (exponentials_meets hx).bind
  intro p hp
  apply (arithmetic_meets rfl hp.1 hp.2).bind
  intro sum hsum
  exact arithmetic_meets rfl (hasType_literal _ t) hsum

theorem tanh_meets (hx : HasType x t) : Meets fails (tanh x) (HasType · t) := by
  unfold tanh
  rw [hx.2]
  apply (arithmetic_meets rfl (hasType_literal _ t) (hasType_literal _ t)).bind
  intro factor hfactor
  apply (arithmetic_meets rfl hfactor hx).bind
  intro exponent hexponent
  apply (arithmetic_meets rfl (hasType_literal _ t) hexponent).bind
  intro power hpower
  apply (arithmetic_meets rfl (hasType_literal _ t) hpower).bind
  intro top htop
  apply (arithmetic_meets rfl (hasType_literal _ t) hpower).bind
  intro bottom hbottom
  exact arithmetic_meets rfl htop hbottom

theorem atanh_meets (hx : HasType x t) : Meets fails (atanh x) (HasType · t) := by
  unfold atanh
  rw [hx.2]
  apply (arithmetic_meets rfl (hasType_literal _ t) hx).bind
  intro top htop
  apply (arithmetic_meets rfl (hasType_literal _ t) hx).bind
  intro bottom hbottom
  apply (arithmetic_meets rfl htop hbottom).bind
  intro ratio hratio
  apply (quotientOfLogs_meets hratio (hasType_literal _ t)).bind
  intro logarithm hlogarithm
  exact arithmetic_meets rfl (hasType_literal _ t) hlogarithm

end Hyperbolic

end ShaderAlgebra.Formula
