import Mathlib.Analysis.Real.Pi.Bounds
import ShaderAlgebra.Proofs.Evaluation.Functions
import ShaderAlgebra.Proofs.Evaluation.UnitVector

/-!
# Coordinates

From angles and a distance to a point and back gives the angles and the distance again,
within the ranges of the angles and away from the origin. From a point to its angles and
back does so for points of the plane and of space. A wider vector is read by its leading
channels, but its length is that of all channels, so these grow by what lies beyond them.
-/

namespace ShaderAlgebra

variable {D K : Type}

namespace Formula

open ShaderAlgebra.Expr Build Primitives

variable {P : Primitives D} {env : Environment D} {embed : K → D} {fails : Failure → Prop}
  {v theta phi distance : Expr} {t : ValueType} {f : Nat → K} {a b d r : K}

theorem leadingChannels_lanes {operator : Operator} {least : Nat} {lanes : Nat → D}
    (hv : HasLanes P env t lanes v) (hfloat : t.isFloat = true) (hwide : least ≤ t.components) :
    Meets fails (leadingChannels operator least v) (ListsLanes P env t.components lanes) := by
  unfold leadingChannels
  rw [hv.1, if_neg (by simpa [hfloat] using hwide)]
  exact channels_lanes hv hfloat

theorem requireAngle_lanes {lanes : Nat → D} (htheta : HasLanes P env .float lanes theta) :
    Meets fails (requireAngle theta) fun _ => True :=
  (requireAngle_meets fun h => absurd htheta.1 h).imp fun _ _ => trivial

section Steps

variable [Field K] {cosTheta sinTheta cosPhi sinPhi : K}

/-- The angle is given by the values that its cosine and its sine have. -/
theorem polarToRectangular_numbers (h : P.HasConstants embed)
    (htheta : HasLanes P env .float (fun _ => embed a) theta)
    (hdistance : HasLanes P env .float (fun _ => embed d) distance)
    (hcos : P.unary .cos (embed a) = embed cosTheta)
    (hsin : P.unary .sin (embed a) = embed sinTheta) :
    Meets fails (polarToRectangular theta distance)
      (HasLanes P env .float2 fun i => embed ([cosTheta, sinTheta].getD i 0 * d)) := by
  unfold polarToRectangular
  apply (requireAngle_lanes htheta).bind
  intro _ _
  apply (cast_scalar_lanes (t := .float2) hdistance rfl).bind
  intro factor hfactor
  apply (unary_numbers rfl htheta fun _ _ => hcos).bind
  intro x hx
  apply (unary_numbers rfl htheta fun _ _ => hsin).bind
  intro y hy
  have hparts : ListsLanes P env 2 (fun i => embed ([cosTheta, sinTheta].getD i 0)) [x, y] :=
    .cons hx (.cons hy .nil)
  apply (combine_lanes (t := .float2) rfl (by decide) hparts).bind
  intro direction hdirection
  exact mul_numbers h.toHasArithmetic hdirection hfactor

theorem sphericalToRectangular_numbers (h : P.HasConstants embed)
    (htheta : HasLanes P env .float (fun _ => embed a) theta)
    (hphi : HasLanes P env .float (fun _ => embed b) phi)
    (hdistance : HasLanes P env .float (fun _ => embed d) distance)
    (hcosTheta : P.unary .cos (embed a) = embed cosTheta)
    (hsinTheta : P.unary .sin (embed a) = embed sinTheta)
    (hcosPhi : P.unary .cos (embed b) = embed cosPhi)
    (hsinPhi : P.unary .sin (embed b) = embed sinPhi) :
    Meets fails (sphericalToRectangular theta phi distance) (HasLanes P env .float3 fun i =>
      embed ([cosTheta * cosPhi, sinPhi, sinTheta * cosPhi].getD i 0 * d)) := by
  unfold sphericalToRectangular
  apply (requireAngle_lanes htheta).bind
  intro _ _
  apply (requireAngle_lanes hphi).bind
  intro _ _
  apply (cast_scalar_lanes (t := .float3) hdistance rfl).bind
  intro factor hfactor
  apply (unary_numbers rfl htheta fun _ _ => hcosTheta).bind
  intro ct hct
  apply (unary_numbers rfl htheta fun _ _ => hsinTheta).bind
  intro st hst
  apply (unary_numbers rfl hphi fun _ _ => hcosPhi).bind
  intro cp hcp
  apply (unary_numbers rfl hphi fun _ _ => hsinPhi).bind
  intro y hy
  apply (mul_numbers h.toHasArithmetic hct hcp).bind
  intro x hx
  apply (mul_numbers h.toHasArithmetic hst hcp).bind
  intro z hz
  have hparts : ListsLanes P env 3
      (fun i => embed ([cosTheta * cosPhi, sinPhi, sinTheta * cosPhi].getD i 0)) [x, y, z] :=
    .cons hx (.cons hy (.cons hz .nil))
  apply (combine_lanes (t := .float3) rfl (by decide) hparts).bind
  intro direction hdirection
  exact mul_numbers h.toHasArithmetic hdirection hfactor

theorem rectangularToPolar_numbers (h : P.HasConstants embed) (hfloat : t.isFloat = true)
    (hwide : 2 ≤ t.components) (hv : HasLanes P env t (fun i => embed (f i)) v)
    (hangle : P.binary .atan2 (embed (f 1)) (embed (f 0)) = embed a)
    (hroot : P.pow (embed (innerProduct t.components f f)) (embed (1 / 2)) = embed r) :
    Meets fails (rectangularToPolar v) fun p =>
      HasLanes P env .float (fun _ => embed a) p.theta ∧
        HasLanes P env .float (fun _ => embed r) p.distance := by
  unfold rectangularToPolar
  apply (leadingChannels_lanes hv hfloat hwide).bind
  intro cs hcs
  have hlength : 2 ≤ cs.length := hcs.length_eq ▸ hwide
  match cs, hlength, hcs with
  | x :: y :: _, _, hcs =>
    have hx := (hcs.of_getElem? (i := 0) rfl).2
    have hy := (hcs.of_getElem? (i := 1) rfl).2
    apply (binary_numbers hy hx fun _ _ => hangle).bind
    intro angle hangle
    apply (length_numbers h hfloat hv hroot).bind
    intro size hsize
    exact Meets.pure ⟨hangle, hsize⟩

theorem rectangularToSpherical_numbers (h : P.HasConstants embed) (hfloat : t.isFloat = true)
    (hwide : 3 ≤ t.components) (hv : HasLanes P env t (fun i => embed (f i)) v)
    (hroot : P.pow (embed (innerProduct t.components f f)) (embed (1 / 2)) = embed r)
    (hr : r ≠ 0) (hazimuth : P.binary .atan2 (embed (f 2)) (embed (f 0)) = embed a)
    (helevation : P.unary .asin (embed (f 1 / r)) = embed b) :
    Meets fails (rectangularToSpherical v) fun p =>
      HasLanes P env .float (fun _ => embed a) p.theta ∧
        HasLanes P env .float (fun _ => embed b) p.phi ∧
          HasLanes P env .float (fun _ => embed r) p.distance := by
  unfold rectangularToSpherical
  apply (leadingChannels_lanes hv hfloat hwide).bind
  intro cs hcs
  have hlength : 3 ≤ cs.length := hcs.length_eq ▸ hwide
  match cs, hlength, hcs with
  | x :: y :: z :: _, _, hcs =>
    have hx := (hcs.of_getElem? (i := 0) rfl).2
    have hy := (hcs.of_getElem? (i := 1) rfl).2
    have hz := (hcs.of_getElem? (i := 2) rfl).2
    apply (length_numbers h hfloat hv hroot).bind
    intro size hsize
    apply (binary_numbers hz hx fun _ _ => hazimuth).bind
    intro azimuth hazimuth
    apply (div_numbers h.toHasArithmetic hy hsize fun _ _ => hr).bind
    intro sine hsine
    apply (unary_numbers rfl hsine fun _ _ => helevation).bind
    intro elevation helevation
    exact Meets.pure ⟨hazimuth, helevation, hsize⟩

end Steps

section Angles

variable [Field K]

theorem innerProduct_polar {c s : K} (hcircle : s ^ 2 + c ^ 2 = 1) :
    innerProduct 2 (fun i => [c, s].getD i 0 * d) (fun i => [c, s].getD i 0 * d) = d * d := by
  rw [innerProduct, Finset.sum_range_succ, Finset.sum_range_one]
  change c * d * (c * d) + s * d * (s * d) = d * d
  linear_combination d ^ 2 * hcircle

theorem innerProduct_spherical {ct st cp sp : K} (htheta : st ^ 2 + ct ^ 2 = 1)
    (hphi : sp ^ 2 + cp ^ 2 = 1) :
    innerProduct 3 (fun i => [ct * cp, sp, st * cp].getD i 0 * d)
      (fun i => [ct * cp, sp, st * cp].getD i 0 * d) = d * d := by
  rw [innerProduct, Finset.sum_range_succ, Finset.sum_range_succ, Finset.sum_range_one]
  change ct * cp * d * (ct * cp * d) + sp * d * (sp * d) + st * cp * d * (st * cp * d) = d * d
  linear_combination d ^ 2 * cp ^ 2 * htheta + d ^ 2 * hphi

variable [LinearOrder K] [IsStrictOrderedRing K] {sin cos : K → K} {pi : K}

/-- From an angle and a positive distance to a point of the plane and back, and from two angles
and a positive distance to a point of space and back: all of them are recovered. -/
theorem angles_recovered (h : P.HasAngles embed sin cos pi)
    (htheta : HasLanes P env .float (fun _ => embed a) theta)
    (hdistance : HasLanes P env .float (fun _ => embed d) distance)
    (hd : 0 < d) (hlow : -pi < a) (hhigh : a ≤ pi) (next : Nat) :
    (∀ phi b, HasLanes P env .float (fun _ => embed b) phi → |b| < pi / 2 →
      ∃ p, ((do rectangularToSpherical (← sphericalToRectangular theta phi distance)).runFrom
          next).1 = .ok p ∧
        HasLanes P env .float (fun _ => embed a) p.theta ∧
          HasLanes P env .float (fun _ => embed b) p.phi ∧
            HasLanes P env .float (fun _ => embed d) p.distance) ∧
    ∃ p, ((do rectangularToPolar (← polarToRectangular theta distance)).runFrom next).1 = .ok p ∧
      HasLanes P env .float (fun _ => embed a) p.theta ∧
        HasLanes P env .float (fun _ => embed d) p.distance := by
  constructor
  · intro phi b hphi hb
    have hcos := h.cos_pos b hb
    refine Meets.exists_ok ?_ next
    apply (sphericalToRectangular_numbers h.toHasConstants htheta hphi hdistance (h.unary_cos a)
      (h.unary_sin a) (h.unary_cos b) (h.unary_sin b)).bind
    intro point hpoint
    apply rectangularToSpherical_numbers h.toHasConstants rfl le_rfl hpoint _ hd.ne'
    · have hazimuth := h.atan2 (cos b * d) a (mul_pos hcos hd) hlow hhigh
      rwa [mul_comm _ (sin a), mul_comm _ (cos a), ← mul_assoc, ← mul_assoc] at hazimuth
    · change P.unary .asin (embed (sin b * d / d)) = _
      rw [mul_div_cancel_right₀ _ hd.ne', h.asin b hb]
    · change P.pow (embed (innerProduct 3 _ _)) _ = _
      rw [innerProduct_spherical (h.sin_sq_add_cos_sq a) (h.sin_sq_add_cos_sq b), h.root d hd.le]
  · refine Meets.exists_ok ?_ next
    apply (polarToRectangular_numbers h.toHasConstants htheta hdistance (h.unary_cos a)
      (h.unary_sin a)).bind
    intro point hpoint
    apply rectangularToPolar_numbers h.toHasConstants rfl le_rfl hpoint
    · have hangle := h.atan2 d a hd hlow hhigh
      rwa [mul_comm d, mul_comm d] at hangle
    · change P.pow (embed (innerProduct 2 _ _)) _ = _
      rw [innerProduct_polar (h.sin_sq_add_cos_sq a), h.root d hd.le]

/-- A point of space at the distance `3`, with the angles `2` and `1`. -/
noncomputable def bearing : Environment ℝ where
  input _ name _ := (if name = "theta" then 2 else if name = "phi" then 1 else 3 : ℕ)
  seed := 0

def scalar (id : Nat) (name : String) : Expr := .leaf id (.input .float name)

/-- From the point at the distance `3` back to its angles. -/
theorem angles_recovered_bearing :
    ∃ p, ((do
        let point ← sphericalToRectangular (scalar 0 "theta") (scalar 1 "phi") (scalar 2 "d")
        rectangularToSpherical point).runFrom 3).1 = .ok p ∧
      p.theta.lane realNumbers bearing 0 = 2 ∧ p.phi.lane realNumbers bearing 0 = 1 ∧
        p.distance.lane realNumbers bearing 0 = 3 := by
  have hlanes (id : Nat) (name : String) :
      HasLanes realNumbers bearing .float (fun _ => bearing.input .float name 0) (scalar id name) :=
    ⟨rfl, fun _ _ => rfl⟩
  have helevation : HasLanes realNumbers bearing .float (fun _ => 1) (scalar 1 "phi") :=
    (hlanes 1 "phi").congr fun _ _ => Nat.cast_one
  have hpi := Real.pi_gt_three
  have hphi : |(1 : ℝ)| < Real.pi / 2 := by
    rw [abs_one]
    linarith
  obtain ⟨p, hrun, htheta, hphi, hdistance⟩ :=
    (angles_recovered (a := 2) (d := 3) hasRealFunctions_realNumbers.hasAngles (hlanes 0 "theta")
      (hlanes 2 "d") (by norm_num) (by linarith) (by linarith) 3).1 (scalar 1 "phi") 1
      helevation hphi
  exact ⟨p, hrun, htheta.2 0 Nat.one_pos, hphi.2 0 Nat.one_pos, hdistance.2 0 Nat.one_pos⟩

end Angles

section Points

variable {embed : ℝ → D} {f : Nat → ℝ} {x y s q : ℝ} {k n : Nat}

/-- The square of what a vector of `n` lanes has beyond its first `k` lanes. -/
def squareBeyond (k n : Nat) (f : Nat → ℝ) : ℝ := ∑ i ∈ Finset.Ico k n, f i * f i

/-- The factor from the root of `s` to the root of `s + q`. -/
noncomputable def stretch (s q : ℝ) : ℝ := √(1 + q / s)

theorem squareBeyond_nonneg : 0 ≤ squareBeyond k n f :=
  Finset.sum_nonneg fun _ _ => mul_self_nonneg _

theorem squareBeyond_eq_zero_iff : squareBeyond k n f = 0 ↔ ∀ i, k ≤ i → i < n → f i = 0 := by
  unfold squareBeyond
  rw [Finset.sum_eq_zero_iff_of_nonneg fun _ _ => mul_self_nonneg _]
  simp only [Finset.mem_Ico, mul_self_eq_zero, and_imp]

theorem innerProduct_add_squareBeyond (h : k ≤ n) :
    innerProduct k f f + squareBeyond k n f = innerProduct n f f :=
  Finset.sum_range_add_sum_Ico _ h

theorem one_le_stretch (hs : 0 < s) (hq : 0 ≤ q) : 1 ≤ stretch s q :=
  Real.one_le_sqrt.2 (le_add_of_nonneg_right (div_nonneg hq hs.le))

theorem stretch_eq_one_iff (hs : 0 < s) : stretch s q = 1 ↔ q = 0 := by
  unfold stretch
  rw [Real.sqrt_eq_one, add_eq_left, div_eq_zero_iff, or_iff_left hs.ne']

theorem sqrt_mul_stretch (hs : 0 < s) : √s * stretch s q = √(s + q) := by
  unfold stretch
  rw [← Real.sqrt_mul hs.le, mul_one_add, mul_div_cancel₀ _ hs.ne']

/-- Where `y` of the root of `s` is `x`, `y` of the root of `s + q` is the stretched `x`. -/
theorem mul_sqrt_add (hs : 0 < s) (hx : √s * y = x) : y * √(s + q) = stretch s q * x := by
  rw [← sqrt_mul_stretch hs, ← hx]
  ring

theorem sum_squares_pos (h : x ≠ 0 ∨ y ≠ 0) : 0 < x * x + y * y := by
  rcases h with hx | hy
  · exact add_pos_of_pos_of_nonneg (mul_self_pos.2 hx) (mul_self_nonneg y)
  · exact add_pos_of_nonneg_of_pos (mul_self_nonneg x) (mul_self_pos.2 hy)

theorem norm_point (x y : ℝ) : ‖(⟨x, y⟩ : ℂ)‖ = √(x * x + y * y) := by
  rw [Complex.norm_eq_sqrt_sq_add_sq, sq, sq]

theorem cos_arg_mul_sqrt (h : x ≠ 0 ∨ y ≠ 0) :
    Real.cos (Complex.arg ⟨x, y⟩) * √(x * x + y * y + q) = stretch (x * x + y * y) q * x := by
  apply mul_sqrt_add (sum_squares_pos h)
  rw [← norm_point]
  exact Complex.norm_mul_cos_arg ⟨x, y⟩

theorem sin_arg_mul_sqrt (h : x ≠ 0 ∨ y ≠ 0) :
    Real.sin (Complex.arg ⟨x, y⟩) * √(x * x + y * y + q) = stretch (x * x + y * y) q * y := by
  apply mul_sqrt_add (sum_squares_pos h)
  rw [← norm_point]
  exact Complex.norm_mul_sin_arg ⟨x, y⟩

section Elevation

variable (hq : 0 < q)

include hq

theorem height_abs_le_one : |y / √(q + y * y)| ≤ 1 := by
  have hpos : 0 < √(q + y * y) := Real.sqrt_pos.2 (add_pos_of_pos_of_nonneg hq (mul_self_nonneg y))
  rw [abs_div, abs_of_pos hpos, div_le_one hpos]
  apply Real.abs_le_sqrt
  rw [sq]
  exact le_add_of_nonneg_left hq.le

/-- At the height `y` over the plane, `q` is left of the square of the length. -/
theorem cos_arcsin_mul_sqrt :
    Real.cos (Real.arcsin (y / √(q + y * y))) * √(q + y * y) = √q := by
  have hpos : 0 < q + y * y := add_pos_of_pos_of_nonneg hq (mul_self_nonneg y)
  have hpart : (1 - (y / √(q + y * y)) ^ 2) * (q + y * y) = q := by
    rw [div_pow, Real.sq_sqrt hpos.le, sub_mul, div_mul_cancel₀ _ hpos.ne']
    ring
  rw [Real.cos_arcsin, ← Real.sqrt_mul' _ hpos.le, hpart]

theorem sin_arcsin_mul_sqrt : Real.sin (Real.arcsin (y / √(q + y * y))) * √(q + y * y) = y := by
  have hpos : 0 < √(q + y * y) := Real.sqrt_pos.2 (add_pos_of_pos_of_nonneg hq (mul_self_nonneg y))
  obtain ⟨hlow, hhigh⟩ := abs_le.1 (height_abs_le_one (y := y) hq)
  rw [Real.sin_arcsin hlow hhigh, div_mul_cancel₀ _ hpos.ne']

end Elevation

theorem polar_numbers (h : P.HasRealFunctions embed) (hwide : 2 ≤ t.components)
    (hv : HasLanes P env t (fun i => embed (f i)) v) (hplane : f 0 ≠ 0 ∨ f 1 ≠ 0) :
    Meets fails (do
        let p ← rectangularToPolar v
        polarToRectangular p.theta p.distance)
      (HasLanes P env .float2 fun i => embed
        (stretch (f 0 * f 0 + f 1 * f 1) (squareBeyond 2 t.components f) * f i)) := by
  have hfloat : t.isFloat = true := isFloat_of_components (Nat.ne_of_gt hwide)
  have hsquare : innerProduct t.components f f =
      f 0 * f 0 + f 1 * f 1 + squareBeyond 2 t.components f := by
    rw [← innerProduct_add_squareBeyond hwide, innerProduct, Finset.sum_range_succ,
      Finset.sum_range_one]
  have hnonneg : 0 ≤ innerProduct t.components f f :=
    Finset.sum_nonneg fun _ _ => mul_self_nonneg _
  apply (rectangularToPolar_numbers h.toHasConstants hfloat hwide hv (h.atan2 _ _ hplane)
    (h.root _ hnonneg)).bind
  intro p hp
  apply (polarToRectangular_numbers h.toHasConstants hp.1 hp.2 (h.cos _) (h.sin _)).imp
  intro point hpoint
  refine hpoint.congr fun i hi => congrArg embed ?_
  rw [hsquare]
  have hlane : i = 0 ∨ i = 1 := Nat.le_one_iff_eq_zero_or_eq_one.1 (Nat.le_of_lt_succ hi)
  rcases hlane with rfl | rfl
  · exact cos_arg_mul_sqrt hplane
  · exact sin_arg_mul_sqrt hplane

theorem spherical_numbers (h : P.HasRealFunctions embed) (hwide : 3 ≤ t.components)
    (hv : HasLanes P env t (fun i => embed (f i)) v) (hplane : f 0 ≠ 0 ∨ f 2 ≠ 0) :
    let k := stretch (f 0 * f 0 + f 2 * f 2) (squareBeyond 3 t.components f)
    Meets fails (do
        let p ← rectangularToSpherical v
        sphericalToRectangular p.theta p.phi p.distance)
      (HasLanes P env .float3 fun i => embed ([k * f 0, f 1, k * f 2].getD i 0)) := by
  intro k
  have hfloat : t.isFloat = true := isFloat_of_components (by omega)
  let plane := f 0 * f 0 + f 2 * f 2 + squareBeyond 3 t.components f
  have hsquare : innerProduct t.components f f = plane + f 1 * f 1 := by
    rw [← innerProduct_add_squareBeyond hwide, innerProduct, Finset.sum_range_succ,
      Finset.sum_range_succ, Finset.sum_range_one]
    ring
  have hpos : 0 < plane := add_pos_of_pos_of_nonneg (sum_squares_pos hplane) squareBeyond_nonneg
  have hlength : 0 < √(plane + f 1 * f 1) :=
    Real.sqrt_pos.2 (add_pos_of_pos_of_nonneg hpos (mul_self_nonneg _))
  have hroot : P.pow (embed (innerProduct t.components f f)) (embed (1 / 2)) =
      embed √(plane + f 1 * f 1) := by
    rw [hsquare, h.root _ (Real.sqrt_pos.1 hlength).le]
  apply (rectangularToSpherical_numbers h.toHasConstants hfloat hwide hv hroot hlength.ne'
    (h.atan2 _ _ hplane) (h.asin _ (height_abs_le_one hpos))).bind
  intro p hp
  apply (sphericalToRectangular_numbers h.toHasConstants hp.1 hp.2.1 hp.2.2 (h.cos _) (h.sin _)
    (h.cos _) (h.sin _)).imp
  intro point hpoint
  refine hpoint.congr fun i hi => congrArg embed ?_
  have hcos := cos_arcsin_mul_sqrt (y := f 1) hpos
  have hlane : i = 0 ∨ i = 1 ∨ i = 2 := by
    change i < 3 at hi
    omega
  rcases hlane with rfl | rfl | rfl
  · change Real.cos _ * Real.cos _ * _ = k * f 0
    rw [mul_assoc, hcos, cos_arg_mul_sqrt hplane]
  · exact sin_arcsin_mul_sqrt hpos
  · change Real.sin _ * Real.cos _ * _ = k * f 2
    rw [mul_assoc, hcos, sin_arg_mul_sqrt hplane]

/-- From a vector to an angle and its length and back to the plane, and from a vector to two
angles and its length and back to space. What a wider vector has in further lanes counts for its
length alone. So the channels that give an angle of the plane are stretched, and they are
recovered if and only if the further lanes are zero, as they are where there are none. -/
theorem points_recovered_stretched (h : P.HasRealFunctions embed)
    (hv : HasLanes P env v.type (fun i => embed (f i)) v) :
    (2 ≤ v.type.components → (f 0 ≠ 0 ∨ f 1 ≠ 0) →
      let k := stretch (f 0 * f 0 + f 1 * f 1) (squareBeyond 2 v.type.components f)
      1 ≤ k ∧ (k = 1 ↔ ∀ i, 2 ≤ i → i < v.type.components → f i = 0) ∧
        EvaluatesTo P env embed (do
            let p ← rectangularToPolar v
            polarToRectangular p.theta p.distance)
          .float2 fun i => k * f i) ∧
    (3 ≤ v.type.components → (f 0 ≠ 0 ∨ f 2 ≠ 0) →
      let k := stretch (f 0 * f 0 + f 2 * f 2) (squareBeyond 3 v.type.components f)
      1 ≤ k ∧ (k = 1 ↔ ∀ i, 3 ≤ i → i < v.type.components → f i = 0) ∧
        EvaluatesTo P env embed (do
            let p ← rectangularToSpherical v
            sphericalToRectangular p.theta p.phi p.distance)
          .float3 fun i => [k * f 0, f 1, k * f 2].getD i 0) := by
  constructor
  · intro hwide hplane
    have hpos := sum_squares_pos hplane
    exact ⟨one_le_stretch hpos squareBeyond_nonneg,
      (stretch_eq_one_iff hpos).trans squareBeyond_eq_zero_iff,
      (polar_numbers h hwide hv hplane).evaluatesTo⟩
  · intro hwide hplane
    have hpos := sum_squares_pos hplane
    exact ⟨one_le_stretch hpos squareBeyond_nonneg,
      (stretch_eq_one_iff hpos).trans squareBeyond_eq_zero_iff,
      (spherical_numbers h hwide hv hplane).evaluatesTo⟩

/-- A vector of three channels, which `legs` gives the lanes `3`, `4` and `5`. -/
def wideVector : Expr := .leaf 0 (.input .float3 "v")

theorem stretch_wideVector :
    stretch (3 * 3 + 4 * 4) (squareBeyond 2 3 (wideVector.lane realNumbers legs)) = √2 := by
  rw [squareBeyond, Nat.Ico_succ_singleton, Finset.sum_singleton]
  change √(1 + ((2 + 3 : ℕ) : ℝ) * (2 + 3 : ℕ) / (3 * 3 + 4 * 4)) = √2
  norm_num

/-- The vector is stretched in the plane, and recovered in space. -/
theorem points_recovered_stretched_wideVector :
    (∃ e, ((do
        let p ← rectangularToPolar wideVector
        polarToRectangular p.theta p.distance).runFrom 1).1 = .ok e ∧
      e.lane realNumbers legs 0 = √2 * 3 ∧ e.lane realNumbers legs 1 = √2 * 4) ∧
    ∃ e, ((do
        let p ← rectangularToSpherical wideVector
        sphericalToRectangular p.theta p.phi p.distance).runFrom 1).1 = .ok e ∧
      e.lane realNumbers legs 0 = 3 ∧ e.lane realNumbers legs 1 = 4 ∧
        e.lane realNumbers legs 2 = 5 := by
  have hthree : (3 : ℝ) ≠ 0 := by norm_num
  have h := points_recovered_stretched hasRealFunctions_realNumbers
    (hasLanes_lane realNumbers legs wideVector)
  obtain ⟨-, -, hplane⟩ := h.1 (by decide) (.inl hthree)
  obtain ⟨-, hone, hspace⟩ := h.2 (by decide) (.inl hthree)
  have hnone : ∀ i, 3 ≤ i → i < 3 → wideVector.lane realNumbers legs i = 0 :=
    fun i hi hi' => absurd hi (Nat.not_le.2 hi')
  obtain ⟨e, hrun, -, hlanes⟩ := hplane 1
  obtain ⟨e', hrun', -, hlanes'⟩ := hspace 1
  rw [hone.2 hnone] at hlanes'
  refine ⟨⟨e, hrun, ?_, ?_⟩, e', hrun', ?_, ?_, ?_⟩
  · rw [← stretch_wideVector]
    exact hlanes 0 (by decide)
  · rw [← stretch_wideVector]
    exact hlanes 1 (by decide)
  · exact (hlanes' 0 (by decide)).trans (one_mul _)
  · exact hlanes' 1 (by decide)
  · exact (hlanes' 2 (by decide)).trans (one_mul _)

/-- A vector is not recovered in the plane if it has a further channel that is not zero. -/
theorem wideVector_not_recovered :
    wideVector.type = .float3 ∧ wideVector.lane realNumbers legs 0 = 3 ∧
      wideVector.lane realNumbers legs 1 = 4 ∧
      ¬ EvaluatesTo realNumbers legs id (do
          let p ← rectangularToPolar wideVector
          polarToRectangular p.theta p.distance)
        .float2 (wideVector.lane realNumbers legs) := by
  refine ⟨rfl, rfl, rfl, ?_⟩
  intro hrecovered
  have hthree : (3 : ℝ) ≠ 0 := by norm_num
  have hstretched := (polar_numbers hasRealFunctions_realNumbers (by decide)
    (hasLanes_lane realNumbers legs wideVector) (.inl hthree)).evaluatesTo
  obtain ⟨e, hrun, -, hlanes⟩ := hrecovered 1
  obtain ⟨e', hrun', -, hlanes'⟩ := hstretched 1
  obtain rfl : e = e' := by simpa [hrun] using hrun'
  have hequal := (hlanes' 0 (by decide)).symm.trans (hlanes 0 (by decide))
  change stretch (3 * 3 + 4 * 4) (squareBeyond 2 3 (wideVector.lane realNumbers legs)) * 3 = 3
    at hequal
  rw [stretch_wideVector, mul_eq_right₀ hthree, Real.sqrt_eq_one] at hequal
  norm_num at hequal

end Points

end Formula

end ShaderAlgebra
