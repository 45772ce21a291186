import ShaderAlgebra.Formula.Hyperbolic
import ShaderAlgebra.Formula.Coordinates
import ShaderAlgebra.Formula.Solid
import ShaderAlgebra.Formula.Color
import ShaderAlgebra.Formula.Random
import ShaderAlgebra.Proofs.Build.Simulation

/-!
# Formulas respect correspondences

A formula decides what to do by the types of its operands alone. On operands
that correspond it fails alike, or its results correspond.
-/

namespace ShaderAlgebra.Formula

open ShaderAlgebra.Expr Build Correspondence

variable {W : Type} [Preorder W] {C : Correspondence W} {w : W} {e e' x x' y y' : Expr}
  {es es' : List Expr}

section Conversions

theorem forall₂_eq {α : Type} (as : List α) : List.Forall₂ Eq as as :=
  List.forall₂_same.2 fun _ _ => rfl

theorem channels_simulates (he : C.Related w e e') :
    C.Simulates w (channels e) (channels e') fun w => List.Forall₂ (C.Related w) := by
  unfold channels
  rw [C.type_eq he]
  split
  · exact Simulates.pure (.cons he .nil)
  · apply Simulates.mapM (forall₂_eq _)
    rintro w₁ h₁ i _ rfl
    exact channel_simulates (C.mono h₁ he)

theorem sum_simulates (h : List.Forall₂ (C.Related w) es es') :
    C.Simulates w (sum es) (sum es') fun w => Option.Rel (C.Related w) := by
  unfold sum
  have hreverse : List.Forall₂ (C.Related w) es.reverse es'.reverse :=
    List.forall₂_reverse_iff.2 h
  generalize es.reverse = terms at hreverse
  generalize es'.reverse = terms' at hreverse
  cases hreverse with
  | nil => exact Simulates.pure .none
  | cons hlast hothers =>
    refine Simulates.map (Simulates.foldlM hothers ?_ hlast) fun _ _ _ => .some
    intro w₁ h₁ a b hab total total' htotal
    exact binary_simulates htotal (C.mono h₁ hab)

theorem getElem?_rel {α β : Type} {R : α → β → Prop} {as : List α} {bs : List β}
    (h : List.Forall₂ R as bs) (i : Nat) : Option.Rel R as[i]? bs[i]? := by
  induction h generalizing i with
  | nil => exact .none
  | cons hab _ ih =>
    cases i with
    | zero => exact .some hab
    | succ i => exact ih i

theorem cast_simulates {t : ValueType} {filler : Single} (he : C.Related w e e') :
    C.Simulates w (cast e t filler) (cast e' t filler) C.Related := by
  unfold cast
  rw [C.type_eq he]
  split
  · exact Simulates.refuse
  · split
    · exact Simulates.pure he
    · apply (channels_simulates he).bind
      intro w₁ h₁ source source' hsource
      refine Simulates.bind (Simulates.mapM (forall₂_eq _) ?_) ?_
      · rintro w₂ h₂ i _ rfl
        have hi := getElem?_rel hsource i
        revert hi
        generalize source[i]? = found
        generalize source'[i]? = found'
        intro hi
        cases hi with
        | some hc => exact Simulates.pure (C.mono h₂ hc)
        | none =>
          obtain _ | ⟨hc, _ | ⟨_, _⟩⟩ := hsource
          · exact constant_simulates _
          · exact Simulates.pure (C.mono h₂ hc)
          · exact constant_simulates _
      · intro w₂ h₂ result result' hresult
        obtain _ | ⟨hc, _ | ⟨hd, hrest⟩⟩ := hresult
        · exact combine_simulates .nil
        · exact Simulates.pure hc
        · exact combine_simulates (.cons hc (.cons hd hrest))

theorem asType_simulates {t : ValueType} (he : C.Related w e e') :
    C.Simulates w (asType e t) (asType e' t) C.Related := by
  unfold asType
  rw [C.type_eq he]
  split
  · exact Simulates.pure he
  · exact cast_simulates he

theorem widest?_eq (h : List.Forall₂ (C.Related w) es es') : widest? es = widest? es' := by
  unfold widest?
  generalize (none : Option ValueType) = best
  induction h generalizing best with
  | nil => rfl
  | cons hxy _ ih =>
    rw [List.foldl_cons, List.foldl_cons, C.type_eq hxy]
    exact ih _

theorem widen_simulates {filler : Single} (h : List.Forall₂ (C.Related w) es es') :
    C.Simulates w (widen es filler) (widen es' filler) fun w => List.Forall₂ (C.Related w) := by
  unfold widen
  rw [widest?_eq h, h.length_eq]
  split
  · split
    · exact Simulates.pure h
    · apply Simulates.mapM h
      intro w₁ h₁ a b hab
      rw [C.type_eq hab]
      split
      · exact cast_simulates (C.mono h₁ hab)
      · exact Simulates.pure (C.mono h₁ hab)
  · exact Simulates.pure h

theorem commonType_simulates (h : List.Forall₂ (C.Related w) es es') :
    C.Simulates w (commonType es) (commonType es') fun _ => Eq := by
  cases h with
  | nil => exact Simulates.refuse
  | @cons first first' others others' hfirst hothers =>
    have hfind := find?_type_eq hothers (· != first'.type)
    unfold commonType
    dsimp only
    rw [C.type_eq hfirst]
    cases hother : others.find? (·.type != first'.type) with
    | none =>
      cases hother' : others'.find? (·.type != first'.type) with
      | none => exact Simulates.pure rfl
      | some other' => simp [hother, hother'] at hfind
    | some other =>
      cases hother' : others'.find? (·.type != first'.type) with
      | none => simp [hother, hother'] at hfind
      | some other' =>
        have htype : other.type = other'.type := by simpa [hother, hother'] using hfind
        dsimp only
        rw [htype]
        exact Simulates.refuse

end Conversions

section Elementwise

theorem negate_simulates (hx : C.Related w x x') :
    C.Simulates w (negate x) (negate x') C.Related := by
  unfold negate
  rw [C.type_eq hx]
  exact binary_simulates (C.literal w _ _) hx

theorem clamp_simulates {lo lo' hi hi' : Expr} (hx : C.Related w x x')
    (hlo : C.Related w lo lo') (hhi : C.Related w hi hi') :
    C.Simulates w (clamp x lo hi) (clamp x' lo' hi') C.Related := by
  unfold clamp
  rw [C.type_eq hx]
  apply (asType_simulates hlo).bind
  intro w₁ h₁ lo lo' hlo
  apply (asType_simulates (C.mono h₁ hhi)).bind
  intro w₂ h₂ hi hi' hhi
  apply (binary_simulates (C.mono (le_trans h₁ h₂) hx) hhi).bind
  intro w₃ h₃ least least' hleast
  exact binary_simulates hleast (C.mono (le_trans h₂ h₃) hlo)

theorem saturate_simulates (hx : C.Related w x x') :
    C.Simulates w (saturate x) (saturate x') C.Related := by
  unfold saturate
  rw [C.type_eq hx]
  exact clamp_simulates hx (C.literal w _ _) (C.literal w _ _)

theorem frac_simulates (hx : C.Related w x x') :
    C.Simulates w (frac x) (frac x') C.Related := by
  unfold frac
  apply (unary_simulates hx).bind
  intro w₁ h₁ floor floor' hfloor
  exact binary_simulates (C.mono h₁ hx) hfloor

theorem round_simulates (hx : C.Related w x x') :
    C.Simulates w (round x) (round x') C.Related := by
  unfold round
  rw [C.type_eq hx]
  apply (binary_simulates hx (C.literal w _ _)).bind
  intro w₁ _ total total' htotal
  exact unary_simulates htotal

theorem quotientOfLogs_simulates (hx : C.Related w x x') (hy : C.Related w y y') :
    C.Simulates w (quotientOfLogs x y) (quotientOfLogs x' y') C.Related := by
  unfold quotientOfLogs
  apply (unary_simulates hx).bind
  intro w₁ h₁ top top' htop
  apply (unary_simulates (C.mono h₁ hy)).bind
  intro w₂ h₂ bottom bottom' hbottom
  exact binary_simulates (C.mono h₂ htop) hbottom

theorem log_simulates (hx : C.Related w x x') (hy : C.Related w y y') :
    C.Simulates w (log x y) (log x' y') C.Related := by
  unfold log
  apply (commonType_simulates (.cons hx (.cons hy .nil))).bind
  intro w₁ h₁ _ _ _
  exact quotientOfLogs_simulates (C.mono h₁ hx) (C.mono h₁ hy)

theorem sqrt_simulates (hx : C.Related w x x') :
    C.Simulates w (sqrt x) (sqrt x') C.Related := by
  unfold sqrt
  rw [C.type_eq hx]
  exact binary_simulates hx (C.literal w _ _)

theorem lerp_simulates {s s' : Expr} (hx : C.Related w x x') (hy : C.Related w y y')
    (hs : C.Related w s s') : C.Simulates w (lerp x y s) (lerp x' y' s') C.Related := by
  unfold lerp
  apply (commonType_simulates (.cons hx (.cons hy (.cons hs .nil)))).bind
  intro w₁ h₁ _ _ _
  apply (binary_simulates (C.mono h₁ hy) (C.mono h₁ hx)).bind
  intro w₂ h₂ difference difference' hdifference
  apply (binary_simulates (C.mono (le_trans h₁ h₂) hs) hdifference).bind
  intro w₃ h₃ part part' hpart
  exact binary_simulates (C.mono (le_trans h₁ (le_trans h₂ h₃)) hx) hpart

theorem fit_simulates
    {value value' oldMin oldMin' oldMax oldMax' newMin newMin' newMax newMax' : Expr}
    (hvalue : C.Related w value value') (holdMin : C.Related w oldMin oldMin')
    (holdMax : C.Related w oldMax oldMax') (hnewMin : C.Related w newMin newMin')
    (hnewMax : C.Related w newMax newMax') :
    C.Simulates w (fit value oldMin oldMax newMin newMax)
      (fit value' oldMin' oldMax' newMin' newMax') C.Related := by
  unfold fit
  apply (commonType_simulates
    (.cons hvalue (.cons holdMin (.cons holdMax (.cons hnewMin (.cons hnewMax .nil)))))).bind
  intro w₁ h₁ _ _ _
  apply (binary_simulates (C.mono h₁ hvalue) (C.mono h₁ holdMin)).bind
  intro w₂ h₂ offset offset' hoffset
  have h₁₂ : w ≤ w₂ := le_trans h₁ h₂
  apply (binary_simulates (C.mono h₁₂ holdMax) (C.mono h₁₂ holdMin)).bind
  intro w₃ h₃ range range' hrange
  apply (binary_simulates (C.mono h₃ hoffset) hrange).bind
  intro w₄ h₄ part part' hpart
  have h₁₄ : w ≤ w₄ := le_trans h₁₂ (le_trans h₃ h₄)
  exact lerp_simulates (C.mono h₁₄ hnewMin) (C.mono h₁₄ hnewMax) hpart

theorem modulo_simulates (hx : C.Related w x x') (hy : C.Related w y y') :
    C.Simulates w (modulo x y) (modulo x' y') C.Related := by
  unfold modulo
  apply (commonType_simulates (.cons hx (.cons hy .nil))).bind
  rintro w₁ h₁ t _ rfl
  apply (binary_simulates (C.mono h₁ hx) (C.mono h₁ hy)).bind
  intro w₂ h₂ quotient quotient' hquotient
  have h₁₂ : w ≤ w₂ := le_trans h₁ h₂
  split
  · apply (frac_simulates hquotient).bind
    intro w₃ h₃ part part' hpart
    exact binary_simulates hpart (C.mono (le_trans h₁₂ h₃) hy)
  · apply (binary_simulates hquotient (C.mono h₁₂ hy)).bind
    intro w₃ h₃ whole whole' hwhole
    exact binary_simulates (C.mono (le_trans h₁₂ h₃) hx) hwhole

theorem smoothstep_simulates {s s' : Expr} (hx : C.Related w x x') (hy : C.Related w y y')
    (hs : C.Related w s s') :
    C.Simulates w (smoothstep x y s) (smoothstep x' y' s') C.Related := by
  unfold smoothstep
  apply (commonType_simulates (.cons hx (.cons hy (.cons hs .nil)))).bind
  rintro w₁ h₁ type _ rfl
  apply (binary_simulates (C.mono h₁ hs) (C.mono h₁ hx)).bind
  intro w₂ h₂ offset offset' hoffset
  have h₁₂ : w ≤ w₂ := le_trans h₁ h₂
  apply (binary_simulates (C.mono h₁₂ hy) (C.mono h₁₂ hx)).bind
  intro w₃ h₃ range range' hrange
  apply (binary_simulates (C.mono h₃ hoffset) hrange).bind
  intro w₄ _ part part' hpart
  apply (clamp_simulates hpart (C.literal w₄ _ _) (C.literal w₄ _ _)).bind
  intro w₅ _ t t' ht
  apply (binary_simulates (C.literal w₅ _ _) ht).bind
  intro w₆ h₆ double double' hdouble
  apply (binary_simulates (C.literal w₆ _ _) hdouble).bind
  intro w₇ h₇ slope slope' hslope
  have h₆₇ : w₅ ≤ w₇ := le_trans h₆ h₇
  apply (binary_simulates hslope (C.mono h₆₇ ht)).bind
  intro w₈ h₈ scaled scaled' hscaled
  exact binary_simulates hscaled (C.mono (le_trans h₆₇ h₈) ht)

theorem discretize_simulates {value value' step step' : Expr} (hvalue : C.Related w value value')
    (hstep : C.Related w step step') :
    C.Simulates w (discretize value step) (discretize value' step') C.Related := by
  unfold discretize
  apply (commonType_simulates (.cons hvalue (.cons hstep .nil))).bind
  intro w₁ h₁ _ _ _
  apply (binary_simulates (C.mono h₁ hvalue) (C.mono h₁ hstep)).bind
  intro w₂ h₂ quotient quotient' hquotient
  apply (unary_simulates hquotient).bind
  intro w₃ h₃ floor floor' hfloor
  exact binary_simulates hfloor (C.mono (le_trans h₁ (le_trans h₂ h₃)) hstep)

theorem scaleBy_simulates {factor : Single} (hx : C.Related w x x') :
    C.Simulates w (scaleBy factor x) (scaleBy factor x') C.Related := by
  unfold scaleBy
  rw [C.type_eq hx]
  apply (constant_simulates _).bind
  intro w₁ h₁ scalar scalar' hscalar
  apply (cast_simulates hscalar).bind
  intro w₂ h₂ vector vector' hvector
  exact binary_simulates (C.mono (le_trans h₁ h₂) hx) hvector

theorem exponentials_simulates (hx : C.Related w x x') :
    C.Simulates w (exponentials x) (exponentials x') fun w powers powers' =>
      C.Related w powers.1 powers'.1 ∧ C.Related w powers.2 powers'.2 := by
  unfold exponentials
  rw [C.type_eq hx]
  apply (binary_simulates (C.literal w _ _) hx).bind
  intro w₁ h₁ rising rising' hrising
  apply (negate_simulates (C.mono h₁ hx)).bind
  intro w₂ h₂ negated negated' hnegated
  apply (binary_simulates (C.literal w₂ _ _) hnegated).bind
  intro w₃ h₃ falling falling' hfalling
  exact Simulates.pure ⟨C.mono (le_trans h₂ h₃) hrising, hfalling⟩

theorem sinh_simulates (hx : C.Related w x x') :
    C.Simulates w (sinh x) (sinh x') C.Related := by
  unfold sinh
  rw [C.type_eq hx]
  apply (exponentials_simulates hx).bind
  rintro w₁ _ ⟨rising, falling⟩ ⟨rising', falling'⟩ ⟨hrising, hfalling⟩
  apply (binary_simulates hrising hfalling).bind
  intro w₂ _ difference difference' hdifference
  exact binary_simulates (C.literal w₂ _ _) hdifference

theorem cosh_simulates (hx : C.Related w x x') :
    C.Simulates w (cosh x) (cosh x') C.Related := by
  unfold cosh
  rw [C.type_eq hx]
  apply (exponentials_simulates hx).bind
  rintro w₁ _ ⟨rising, falling⟩ ⟨rising', falling'⟩ ⟨hrising, hfalling⟩
  apply (binary_simulates hrising hfalling).bind
  intro w₂ _ total total' htotal
  exact binary_simulates (C.literal w₂ _ _) htotal

theorem tanh_simulates (hx : C.Related w x x') :
    C.Simulates w (tanh x) (tanh x') C.Related := by
  unfold tanh
  rw [C.type_eq hx]
  apply (binary_simulates (C.literal w _ _) (C.literal w _ _)).bind
  intro w₁ h₁ minusTwo minusTwo' hminusTwo
  apply (binary_simulates hminusTwo (C.mono h₁ hx)).bind
  intro w₂ _ exponent exponent' hexponent
  apply (binary_simulates (C.literal w₂ _ _) hexponent).bind
  intro w₃ _ power power' hpower
  apply (binary_simulates (C.literal w₃ _ _) hpower).bind
  intro w₄ h₄ top top' htop
  apply (binary_simulates (C.literal w₄ _ _) (C.mono h₄ hpower)).bind
  intro w₅ h₅ bottom bottom' hbottom
  exact binary_simulates (C.mono h₅ htop) hbottom

theorem atanh_simulates (hx : C.Related w x x') :
    C.Simulates w (atanh x) (atanh x') C.Related := by
  unfold atanh
  rw [C.type_eq hx]
  apply (binary_simulates (C.literal w _ _) hx).bind
  intro w₁ h₁ top top' htop
  apply (binary_simulates (C.literal w₁ _ _) (C.mono h₁ hx)).bind
  intro w₂ h₂ bottom bottom' hbottom
  apply (binary_simulates (C.mono h₂ htop) hbottom).bind
  intro w₃ _ ratio ratio' hratio
  apply (quotientOfLogs_simulates hratio (C.literal w₃ _ _)).bind
  intro w₄ _ logarithm logarithm' hlogarithm
  exact binary_simulates (C.literal w₄ _ _) hlogarithm

end Elementwise

section Vectors

variable {a a' b b' v v' : Expr}

theorem dot_simulates (ha : C.Related w a a') (hb : C.Related w b b') :
    C.Simulates w (dot a b) (dot a' b') C.Related := by
  unfold dot
  rw [C.type_eq ha, C.type_eq hb]
  split
  · exact Simulates.refuse
  · apply (binary_simulates ha hb).bind
    intro w₁ h₁ product product' hproduct
    split
    · exact Simulates.pure hproduct
    · apply (channels_simulates hproduct).bind
      intro w₂ _ terms terms' hterms
      apply (sum_simulates hterms).bind
      intro w₃ _ total total' htotal
      cases htotal with
      | some htotal => exact Simulates.pure htotal
      | none => exact Simulates.refuse

theorem length_simulates (hv : C.Related w v v') :
    C.Simulates w (length v) (length v') C.Related := by
  unfold length
  apply (dot_simulates hv hv).bind
  intro w₁ _ square square' hsquare
  exact sqrt_simulates hsquare

theorem distance_simulates (hx : C.Related w x x') (hy : C.Related w y y') :
    C.Simulates w (distance x y) (distance x' y') C.Related := by
  unfold distance
  apply (commonType_simulates (.cons hx (.cons hy .nil))).bind
  intro w₁ h₁ _ _ _
  apply (binary_simulates (C.mono h₁ hx) (C.mono h₁ hy)).bind
  intro w₂ _ difference difference' hdifference
  exact length_simulates hdifference

theorem sqrDistance_simulates (hx : C.Related w x x') (hy : C.Related w y y') :
    C.Simulates w (sqrDistance x y) (sqrDistance x' y') C.Related := by
  unfold sqrDistance
  apply (commonType_simulates (.cons hx (.cons hy .nil))).bind
  intro w₁ h₁ _ _ _
  apply (binary_simulates (C.mono h₁ hx) (C.mono h₁ hy)).bind
  intro w₂ _ difference difference' hdifference
  exact dot_simulates hdifference hdifference

theorem normalize_simulates (hv : C.Related w v v') :
    C.Simulates w (normalize v) (normalize v') C.Related := by
  unfold normalize
  rw [C.type_eq hv]
  split
  · exact Simulates.refuse
  · apply (length_simulates hv).bind
    intro w₁ h₁ size size' hsize
    apply (binary_simulates (C.literal w₁ _ _) hsize).bind
    intro w₂ h₂ inverse inverse' hinverse
    apply (cast_simulates hinverse).bind
    intro w₃ h₃ factor factor' hfactor
    exact binary_simulates (C.mono (le_trans h₁ (le_trans h₂ h₃)) hv) hfactor

theorem signedDistanceToPlane_simulates {planePosition planePosition' planeNormal planeNormal'
    position position' : Expr} (hplanePosition : C.Related w planePosition planePosition')
    (hplaneNormal : C.Related w planeNormal planeNormal')
    (hposition : C.Related w position position') :
    C.Simulates w (signedDistanceToPlane planePosition planeNormal position)
      (signedDistanceToPlane planePosition' planeNormal' position') C.Related := by
  unfold signedDistanceToPlane
  apply (commonType_simulates
    (.cons hplaneNormal (.cons hplanePosition (.cons hposition .nil)))).bind
  intro w₁ h₁ _ _ _
  apply (dot_simulates (C.mono h₁ hplanePosition) (C.mono h₁ hplaneNormal)).bind
  intro w₂ h₂ offset offset' hoffset
  have h₁₂ : w ≤ w₂ := le_trans h₁ h₂
  apply (dot_simulates (C.mono h₁₂ hposition) (C.mono h₁₂ hplaneNormal)).bind
  intro w₃ h₃ height height' hheight
  exact binary_simulates hheight (C.mono h₃ hoffset)

theorem leadingChannels_simulates {operator : Operator} {least : Nat} (he : C.Related w e e') :
    C.Simulates w (leadingChannels operator least e) (leadingChannels operator least e')
      fun w => List.Forall₂ (C.Related w) := by
  unfold leadingChannels
  rw [C.type_eq he]
  split
  · exact Simulates.refuse
  · exact channels_simulates he

theorem requireAngle_simulates (he : C.Related w e e') :
    C.Simulates w (requireAngle e) (requireAngle e') fun _ _ _ => True := by
  unfold requireAngle
  rw [C.type_eq he]
  split
  · exact Simulates.pure trivial
  · exact Simulates.refuse

theorem polarToRectangular_simulates {theta theta' distance distance' : Expr}
    (htheta : C.Related w theta theta') (hdistance : C.Related w distance distance') :
    C.Simulates w (polarToRectangular theta distance) (polarToRectangular theta' distance')
      C.Related := by
  unfold polarToRectangular
  apply (requireAngle_simulates htheta).bind
  intro w₁ h₁ _ _ _
  apply (cast_simulates (C.mono h₁ hdistance)).bind
  intro w₂ h₂ radius radius' hradius
  have h₁₂ : w ≤ w₂ := le_trans h₁ h₂
  apply (unary_simulates (C.mono h₁₂ htheta)).bind
  intro w₃ h₃ cosine cosine' hcosine
  apply (unary_simulates (C.mono (le_trans h₁₂ h₃) htheta)).bind
  intro w₄ h₄ sine sine' hsine
  apply (combine_simulates (.cons (C.mono h₄ hcosine) (.cons hsine .nil))).bind
  intro w₅ h₅ direction direction' hdirection
  exact binary_simulates hdirection (C.mono (le_trans h₃ (le_trans h₄ h₅)) hradius)

theorem rectangularToPolar_simulates (he : C.Related w e e') :
    C.Simulates w (rectangularToPolar e) (rectangularToPolar e') fun w polar polar' =>
      C.Related w polar.theta polar'.theta ∧ C.Related w polar.distance polar'.distance := by
  unfold rectangularToPolar
  apply (leadingChannels_simulates he).bind
  intro w₁ h₁ channels channels' hchannels
  obtain _ | ⟨hx, _ | ⟨hy, _⟩⟩ := hchannels
  · exact Simulates.refuse
  · exact Simulates.refuse
  · apply (binary_simulates hy hx).bind
    intro w₂ h₂ theta theta' htheta
    apply (length_simulates (C.mono (le_trans h₁ h₂) he)).bind
    intro w₃ h₃ distance distance' hdistance
    exact Simulates.pure ⟨C.mono h₃ htheta, hdistance⟩

theorem sphericalToRectangular_simulates {theta theta' phi phi' distance distance' : Expr}
    (htheta : C.Related w theta theta') (hphi : C.Related w phi phi')
    (hdistance : C.Related w distance distance') :
    C.Simulates w (sphericalToRectangular theta phi distance)
      (sphericalToRectangular theta' phi' distance') C.Related := by
  unfold sphericalToRectangular
  apply (requireAngle_simulates htheta).bind
  intro w₁ h₁ _ _ _
  apply (requireAngle_simulates (C.mono h₁ hphi)).bind
  intro w₂ h₂ _ _ _
  have h₁₂ : w ≤ w₂ := le_trans h₁ h₂
  apply (cast_simulates (C.mono h₁₂ hdistance)).bind
  intro w₃ h₃ radius radius' hradius
  have h₁₃ : w ≤ w₃ := le_trans h₁₂ h₃
  apply (unary_simulates (C.mono h₁₃ htheta)).bind
  intro w₄ h₄ cosTheta cosTheta' hcosTheta
  have h₁₄ : w ≤ w₄ := le_trans h₁₃ h₄
  apply (unary_simulates (C.mono h₁₄ htheta)).bind
  intro w₅ h₅ sinTheta sinTheta' hsinTheta
  have h₁₅ : w ≤ w₅ := le_trans h₁₄ h₅
  apply (unary_simulates (C.mono h₁₅ hphi)).bind
  intro w₆ h₆ cosPhi cosPhi' hcosPhi
  apply (unary_simulates (C.mono (le_trans h₁₅ h₆) hphi)).bind
  intro w₇ h₇ sinPhi sinPhi' hsinPhi
  apply (binary_simulates (C.mono (le_trans h₅ (le_trans h₆ h₇)) hcosTheta)
    (C.mono h₇ hcosPhi)).bind
  intro w₈ h₈ x x' hx
  apply (binary_simulates (C.mono (le_trans h₆ (le_trans h₇ h₈)) hsinTheta)
    (C.mono (le_trans h₇ h₈) hcosPhi)).bind
  intro w₉ h₉ z z' hz
  have hy : C.Related w₉ sinPhi sinPhi' := C.mono (le_trans h₈ h₉) hsinPhi
  apply (combine_simulates (.cons (C.mono h₉ hx) (.cons hy (.cons hz .nil)))).bind
  intro w₁₀ h₁₀ direction direction' hdirection
  have h₄₁₀ : w₃ ≤ w₁₀ := le_trans h₄ (le_trans h₅ (le_trans h₆ (le_trans h₇ (le_trans h₈
    (le_trans h₉ h₁₀)))))
  exact binary_simulates hdirection (C.mono h₄₁₀ hradius)

theorem rectangularToSpherical_simulates (he : C.Related w e e') :
    C.Simulates w (rectangularToSpherical e) (rectangularToSpherical e')
      fun w spherical spherical' => C.Related w spherical.theta spherical'.theta ∧
        C.Related w spherical.phi spherical'.phi ∧
        C.Related w spherical.distance spherical'.distance := by
  unfold rectangularToSpherical
  apply (leadingChannels_simulates he).bind
  intro w₁ h₁ channels channels' hchannels
  obtain _ | ⟨hx, _ | ⟨hy, _ | ⟨hz, _⟩⟩⟩ := hchannels
  · exact Simulates.refuse
  · exact Simulates.refuse
  · exact Simulates.refuse
  · apply (length_simulates (C.mono h₁ he)).bind
    intro w₂ h₂ distance distance' hdistance
    apply (binary_simulates (C.mono h₂ hz) (C.mono h₂ hx)).bind
    intro w₃ h₃ theta theta' htheta
    apply (binary_simulates (C.mono (le_trans h₂ h₃) hy) (C.mono h₃ hdistance)).bind
    intro w₄ h₄ sine sine' hsine
    apply (unary_simulates hsine).bind
    intro w₅ h₅ phi phi' hphi
    have h₄₅ : w₃ ≤ w₅ := le_trans h₄ h₅
    exact Simulates.pure ⟨C.mono h₄₅ htheta, hphi, C.mono (le_trans h₃ h₄₅) hdistance⟩

end Vectors

section Solids

variable {r r' s s' radius radius' height height' : Expr}

theorem circleArea_simulates (hradius : C.Related w radius radius') :
    C.Simulates w (circleArea radius) (circleArea radius') C.Related := by
  unfold circleArea
  rw [C.type_eq hradius]
  apply (binary_simulates (C.literal w _ _) hradius).bind
  intro w₁ h₁ scaled scaled' hscaled
  exact binary_simulates hscaled (C.mono h₁ hradius)

theorem circleCircumference_simulates (hradius : C.Related w radius radius') :
    C.Simulates w (circleCircumference radius) (circleCircumference radius') C.Related := by
  unfold circleCircumference
  rw [C.type_eq hradius]
  exact binary_simulates (C.literal w _ _) hradius

theorem boxVolume_simulates (he : C.Related w e e') :
    C.Simulates w (boxVolume e) (boxVolume e') C.Related := by
  unfold boxVolume
  apply (leadingChannels_simulates he).bind
  intro w₁ _ channels channels' hchannels
  obtain _ | ⟨hx, _ | ⟨hy, _ | ⟨hz, _⟩⟩⟩ := hchannels
  · exact Simulates.refuse
  · exact Simulates.refuse
  · exact Simulates.refuse
  · apply (binary_simulates hx hy).bind
    intro w₂ h₂ area area' harea
    exact binary_simulates harea (C.mono h₂ hz)

theorem sphereVolume_simulates (hradius : C.Related w radius radius') :
    C.Simulates w (sphereVolume radius) (sphereVolume radius') C.Related := by
  unfold sphereVolume
  rw [C.type_eq hradius]
  apply (splat_simulates _ _).bind
  intro w₁ h₁ factor factor' hfactor
  apply (binary_simulates hfactor (C.mono h₁ hradius)).bind
  intro w₂ h₂ length length' hlength
  have h₁₂ : w ≤ w₂ := le_trans h₁ h₂
  apply (binary_simulates hlength (C.mono h₁₂ hradius)).bind
  intro w₃ h₃ area area' harea
  exact binary_simulates harea (C.mono (le_trans h₁₂ h₃) hradius)

theorem cylinderVolume_simulates (hradius : C.Related w radius radius')
    (hheight : C.Related w height height') :
    C.Simulates w (cylinderVolume radius height) (cylinderVolume radius' height') C.Related := by
  unfold cylinderVolume
  apply (commonType_simulates (.cons hradius (.cons hheight .nil))).bind
  intro w₁ h₁ _ _ _
  apply (circleArea_simulates (C.mono h₁ hradius)).bind
  intro w₂ h₂ area area' harea
  exact binary_simulates harea (C.mono (le_trans h₁ h₂) hheight)

theorem coneVolume_simulates (hr : C.Related w r r') (hs : C.Related w s s')
    (hheight : C.Related w height height') :
    C.Simulates w (coneVolume r s height) (coneVolume r' s' height') C.Related := by
  unfold coneVolume
  rw [C.type_eq hr]
  apply (commonType_simulates (.cons hr (.cons hs (.cons hheight .nil)))).bind
  intro w₁ h₁ _ _ _
  apply (splat_simulates _ _).bind
  intro w₂ h₂ factor factor' hfactor
  have h₁₂ : w ≤ w₂ := le_trans h₁ h₂
  apply (binary_simulates (C.mono h₁₂ hr) (C.mono h₁₂ hr)).bind
  intro w₃ h₃ rr rr' hrr
  have h₁₃ : w ≤ w₃ := le_trans h₁₂ h₃
  apply (binary_simulates (C.mono h₁₃ hr) (C.mono h₁₃ hs)).bind
  intro w₄ h₄ rs rs' hrs
  apply (binary_simulates (C.mono h₄ hrr) hrs).bind
  intro w₅ h₅ partial' partial'' hpartial
  have h₁₅ : w ≤ w₅ := le_trans h₁₃ (le_trans h₄ h₅)
  apply (binary_simulates (C.mono h₁₅ hs) (C.mono h₁₅ hs)).bind
  intro w₆ h₆ ss ss' hss
  apply (binary_simulates (C.mono h₆ hpartial) hss).bind
  intro w₇ h₇ squares squares' hsquares
  have h₃₇ : w₂ ≤ w₇ := le_trans h₃ (le_trans h₄ (le_trans h₅ (le_trans h₆ h₇)))
  apply (binary_simulates (C.mono h₃₇ hfactor) hsquares).bind
  intro w₈ h₈ area area' harea
  exact binary_simulates harea (C.mono (le_trans h₁₂ (le_trans h₃₇ h₈)) hheight)

theorem torusVolume_simulates {major major' minor minor' : Expr}
    (hmajor : C.Related w major major') (hminor : C.Related w minor minor') :
    C.Simulates w (torusVolume major minor) (torusVolume major' minor') C.Related := by
  unfold torusVolume
  apply (commonType_simulates (.cons hmajor (.cons hminor .nil))).bind
  intro w₁ h₁ _ _ _
  apply (circleArea_simulates (C.mono h₁ hminor)).bind
  intro w₂ h₂ area area' harea
  apply (circleCircumference_simulates (C.mono (le_trans h₁ h₂) hmajor)).bind
  intro w₃ h₃ circumference circumference' hcircumference
  exact binary_simulates (C.mono h₃ harea) hcircumference

end Solids

section ColorsAndRandoms

variable {color color' bits bits' hash hash' : Expr}

theorem colorLuma_simulates (hcolor : C.Related w color color') :
    C.Simulates w (colorLuma color) (colorLuma color') C.Related := by
  unfold colorLuma
  rw [C.type_eq hcolor]
  apply (constant_simulates _).bind
  intro w₁ h₁ weights weights' hweights
  exact dot_simulates (C.mono h₁ hcolor) hweights

theorem colorPower_simulates {operator : Operator} {exponent : Single}
    (hcolor : C.Related w color color') :
    C.Simulates w (colorPower operator exponent color) (colorPower operator exponent color')
      C.Related := by
  unfold colorPower
  rw [C.type_eq hcolor]
  split
  · apply (constant_simulates _).bind
    intro w₁ h₁ exponent exponent' hexponent
    apply (channels_simulates (C.mono h₁ hcolor)).bind
    intro w₂ h₂ parts parts' hparts
    refine Simulates.bind (Simulates.mapM (List.forall₂_take 3 hparts) ?_) ?_
    · intro w₃ h₃ part part' hpart
      exact binary_simulates (C.mono h₃ hpart) (C.mono (le_trans h₂ h₃) hexponent)
    · intro w₃ h₃ powers powers' hpowers
      have hrest := (List.forall₂_drop 3 hparts).imp fun _ _ => C.mono h₃
      exact combine_simulates (List.rel_append hpowers hrest)
  · exact Simulates.refuse

theorem swapGroups_simulates (stage : UInt32 × UInt32) (hbits : C.Related w bits bits') :
    C.Simulates w (swapGroups bits stage) (swapGroups bits' stage) C.Related := by
  unfold swapGroups
  apply (constant_simulates _).bind
  intro w₁ h₁ lowMask lowMask' hlowMask
  apply (binary_simulates (C.mono h₁ hbits) hlowMask).bind
  intro w₂ h₂ lowBits lowBits' hlowBits
  apply (shift_simulates hlowBits).bind
  intro w₃ h₃ low low' hlow
  apply (constant_simulates _).bind
  intro w₄ h₄ highMask highMask' hhighMask
  have h₁₄ : w ≤ w₄ := le_trans h₁ (le_trans h₂ (le_trans h₃ h₄))
  apply (binary_simulates (C.mono h₁₄ hbits) hhighMask).bind
  intro w₅ h₅ highBits highBits' hhighBits
  apply (shift_simulates hhighBits).bind
  intro w₆ h₆ high high' hhigh
  exact binary_simulates (C.mono (le_trans h₄ (le_trans h₅ h₆)) hlow) hhigh

theorem reverseBits_simulates (hbits : C.Related w bits bits') :
    C.Simulates w (reverseBits bits) (reverseBits bits') C.Related := by
  unfold reverseBits
  apply (shift_simulates hbits).bind
  intro w₁ h₁ low low' hlow
  apply (shift_simulates (C.mono h₁ hbits)).bind
  intro w₂ h₂ high high' hhigh
  apply (binary_simulates (C.mono h₂ hlow) hhigh).bind
  intro w₃ _ swapped swapped' hswapped
  refine Simulates.foldlM (forall₂_eq _) ?_ hswapped
  rintro w₄ _ stage _ rfl bits bits' hbits
  exact swapGroups_simulates stage hbits

theorem vanDerCorputSequence_simulates (hbits : C.Related w bits bits') :
    C.Simulates w (vanDerCorputSequence bits) (vanDerCorputSequence bits') C.Related := by
  unfold vanDerCorputSequence
  rw [C.type_eq hbits]
  split
  · exact Simulates.refuse
  · apply (reverseBits_simulates hbits).bind
    intro w₁ _ reversed reversed' hreversed
    apply (unary_simulates hreversed).bind
    intro w₂ _ number number' hnumber
    apply (constant_simulates _).bind
    intro w₃ h₃ scale scale' hscale
    exact binary_simulates (C.mono h₃ hnumber) hscale

theorem fixedRandom_simulates {perElement : Bool} (hhash : C.Related w hash hash') :
    C.Simulates w (fixedRandom hash perElement) (fixedRandom hash' perElement) C.Related := by
  unfold fixedRandom
  rw [C.type_eq hhash]
  split
  · exact Simulates.refuse
  · apply systemSeed_simulates.bind
    intro w₁ h₁ system system' hsystem
    apply (binary_simulates (C.mono h₁ hhash) hsystem).bind
    intro w₂ _ seed seed' hseed
    exact unary_simulates hseed

end ColorsAndRandoms

end ShaderAlgebra.Formula
