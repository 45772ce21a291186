import ShaderAlgebra.Proofs.Evaluation.Widening

/-!
# Two conversions in a row

A conversion between float types keeps the lanes that its source has, repeats a
scalar and fills up a vector. Two conversions with one filler give the lanes of
the second one alone, except when the first one has dropped lanes that the second
one asks for, or has made a vector of a scalar that the second one would repeat.
-/

namespace ShaderAlgebra

variable {D : Type} {n m k : Nat} {filler : Single}

/-- The `k` lanes that a source of `n` lanes gets by way of `m` lanes are those that it gets at
once. -/
def PassesThrough (n m k : Nat) : Prop := k ≤ m ∨ (m = 1 ∧ n = 1) ∨ (1 < n ∧ n ≤ m)

instance (n m k : Nat) : Decidable (PassesThrough n m k) :=
  inferInstanceAs (Decidable (_ ∨ _))

namespace Primitives

theorem castLane_castLane (P : Primitives D) (h : PassesThrough n m k) (f : Nat → D) {i : Nat}
    (hi : i < k) :
    P.castLane m filler (P.castLane n filler f) i = P.castLane n filler f i := by
  by_cases hbetween : i < m
  · exact if_pos hbetween
  · -- The lane is one that the second conversion adds.
    rw [castLane, if_neg hbetween]
    rcases h with hnarrow | ⟨rfl, rfl⟩ | ⟨hvector, hwide⟩
    · omega
    · rw [if_pos rfl, castLane, if_pos Nat.one_pos, castLane, if_neg hbetween, if_pos rfl]
    · have hmany : m ≠ 1 := by omega
      have hbeyond : ¬i < n := by omega
      rw [if_neg hmany, castLane, if_neg hbeyond, if_neg (Nat.ne_of_gt hvector)]

/-- Lanes are values of their own, none of them the filler. -/
def laneNumbers : Primitives (Option Nat) :=
  ⟨fun _ => none, fun _ => none, fun _ => none, fun _ x => x, fun _ x _ => x⟩

/-- In all other cases the first lane beyond those in between is a different one. -/
theorem castLane_castLane_ne (filler : Single) (hn : 0 < n) (hm : 0 < m) (h : ¬PassesThrough n m k) :
    m < k ∧ laneNumbers.castLane m filler (laneNumbers.castLane n filler some) m ≠
      laneNumbers.castLane n filler some m := by
  have hcases : m < k ∧ (m = 1 ∧ 1 < n ∨ m ≠ 1 ∧ n = 1 ∨ m ≠ 1 ∧ n ≠ 1 ∧ m < n) := by
    unfold PassesThrough at h
    omega
  refine ⟨hcases.1, ?_⟩
  simp only [castLane, laneNumbers, Nat.lt_irrefl, if_false]
  rcases hcases.2 with ⟨rfl, hvector⟩ | ⟨hmany, rfl⟩ | ⟨hmany, hvector, hdropped⟩
  · simp [hn, hvector]
  · have hzero : m ≠ 0 := Nat.ne_of_gt hm
    simp [hmany, hzero]
  · simp [hmany, hdropped]

end Primitives

/-- Two expressions of one type that have the same lanes in every domain. -/
structure Expr.SameLanes (a b : Expr) : Prop where
  type_eq : a.type = b.type
  lane_eq : ∀ (D : Type) (P : Primitives D) (env : Environment D),
    ∀ i < a.type.components, a.lane P env i = b.lane P env i

theorem Expr.sameLanes_of_hasLanes {t : ValueType} {a b : Expr}
    {f : (D : Type) → Primitives D → Environment D → Nat → D}
    (ha : ∀ D P env, HasLanes P env t (f D P env) a)
    (hb : ∀ D P env, HasLanes P env t (f D P env) b) : a.SameLanes b := by
  have htype : a.type = t := (ha Unit .unit .unit).1
  have htype' : b.type = t := (hb Unit .unit .unit).1
  refine ⟨htype.trans htype'.symm, fun D P env i hi => ?_⟩
  rw [htype] at hi
  rw [(ha D P env).2 i hi, (hb D P env).2 i hi]

namespace Formula

open ShaderAlgebra.Expr Build

variable {fails : Failure → Prop} {e e' : Expr} {s t u : ValueType}

/-- What a conversion makes of an expression. -/
structure Converted (t : ValueType) (filler : Single) (e e' : Expr) : Prop where
  lanes : ∀ (D : Type) (P : Primitives D) (env : Environment D),
    HasLanes P env t (P.castLane e.type.components filler (e.lane P env)) e'
  eq_of_type : t = e.type → e' = e

theorem cast_converted (he : e.type.isFloat = true) (ht : t.isFloat = true) :
    Meets fails (cast e t filler) (Converted t filler e) := by
  have hlanes : Meets fails (cast e t filler) fun e' => ∀ D (P : Primitives D)
      (env : Environment D), HasLanes P env t (P.castLane e.type.components filler (e.lane P env))
        e' := cast_lanes_forall he ht
  by_cases htype : t = e.type
  · subst htype
    rw [cast_of_type he] at hlanes ⊢
    exact Meets.pure ⟨hlanes 0, fun _ => rfl⟩
  · exact hlanes.imp fun e' h => ⟨h, fun heq => absurd heq htype⟩

theorem cast_eq_refuse (h : ¬(e.type.isFloat = true ∧ t.isFloat = true)) :
    cast e t filler = refuse (.invalidCast e.type t) := by
  unfold cast
  rw [if_pos]
  rwa [← Bool.not_and, Bool.not_eq_true', ← Bool.not_eq_true, Bool.and_eq_true]

theorem cast_cast_lanes (he : e.type.isFloat = true) (ht : t.isFloat = true)
    (hu : u.isFloat = true) :
    Meets fails (do cast (← cast e t filler) u filler) fun e' => ∀ (D : Type) (P : Primitives D)
      (env : Environment D), HasLanes P env u (P.castLane t.components filler
        (P.castLane e.type.components filler (e.lane P env))) e' := by
  refine Meets.forall_domains fun D P env => ?_
  apply (cast_lanes (hasLanes_lane P env e) he ht).bind
  intro between hbetween
  exact cast_lanes hbetween ht hu

/-- The lanes of two conversions in a row are those of one, at any widths that pass through. -/
theorem cast_cast_of_passesThrough (he : e.type.isFloat = true) (ht : t.isFloat = true)
    (hu : u.isFloat = true) (h : PassesThrough e.type.components t.components u.components)
    (filler : Single) (next next' : Nat) :
    ∃ twice once, ((do cast (← cast e t filler) u filler).runFrom next).1 = .ok twice ∧
      ((cast e u filler).runFrom next').1 = .ok once ∧ twice.SameLanes once := by
  obtain ⟨twice, hrun, htwice⟩ := (cast_cast_lanes he ht hu).exists_ok next
  obtain ⟨once, hrun', honce⟩ := (cast_converted he hu).exists_ok next'
  have hlanes (D : Type) (P : Primitives D) (env : Environment D) :
      HasLanes P env u (P.castLane e.type.components filler (e.lane P env)) twice :=
    (htwice D P env).congr fun i hi => P.castLane_castLane h _ hi
  exact ⟨twice, once, hrun, hrun', sameLanes_of_hasLanes hlanes honce.lanes⟩

/-- An input of a type tells the lanes apart at all other widths. -/
theorem passesThrough_of_cast_cast (hs : s.isFloat = true) (ht : t.isFloat = true)
    (hu : u.isFloat = true) {next next' : Nat}
    (h : ∀ e : Expr, e.type = s → ∃ twice once,
      ((do cast (← cast e t filler) u filler).runFrom next).1 = .ok twice ∧
        ((cast e u filler).runFrom next').1 = .ok once ∧ twice.SameLanes once) :
    PassesThrough s.components t.components u.components := by
  by_contra hpasses
  let source : Expr := .leaf 0 (.input s "v")
  let env : Environment (Option Nat) := ⟨fun _ _ i => some i, none⟩
  obtain ⟨twice, once, hrun, hrun', hsame⟩ := h source rfl
  have hmeets : Meets (fun _ => False) (do cast (← cast source t filler) u filler) _ :=
    cast_cast_lanes hs ht hu
  have hmeets' : Meets (fun _ => False) (cast source u filler) _ := cast_converted hs hu
  have htwice := hmeets.of_ok hrun (Option Nat) .laneNumbers env
  have honce := (hmeets'.of_ok hrun').lanes (Option Nat) .laneNumbers env
  obtain ⟨hlt, hne⟩ :=
    Primitives.castLane_castLane_ne filler s.components_pos t.components_pos hpasses
  apply hne
  have hlane := hsame.lane_eq _ Primitives.laneNumbers env t.components (by rwa [htwice.1])
  rwa [htwice.2 _ hlt, honce.2 _ hlt] at hlane

/-- A conversion succeeds exactly between float types, gives the lanes of its source with the
filler beyond those of a vector, and is the same node for its own type. Two conversions with one
filler have the lanes of the second one alone exactly if their widths pass through, and so a
wider type and back gives the lanes that were there. -/
theorem cast_composes (s t u : ValueType) (filler : Single) (next next' : Nat) :
    (∀ e : Expr, e.type = s →
      (s.isFloat = true ∧ t.isFloat = true →
        ∃ e', ((cast e t filler).runFrom next).1 = .ok e' ∧ Converted t filler e e') ∧
      (¬(s.isFloat = true ∧ t.isFloat = true) →
        ((cast e t filler).runFrom next).1 = .error (.refused (.invalidCast s t)))) ∧
    (s.isFloat = true → t.isFloat = true → u.isFloat = true →
      ((∀ e : Expr, e.type = s → ∃ twice once,
          ((do cast (← cast e t filler) u filler).runFrom next).1 = .ok twice ∧
          ((cast e u filler).runFrom next').1 = .ok once ∧ twice.SameLanes once) ↔
        PassesThrough s.components t.components u.components)) ∧
    (s.isFloat = true → t.isFloat = true → s.components ≤ t.components →
      ∀ e : Expr, e.type = s → ∃ back,
        ((do cast (← cast e t filler) s filler).runFrom next).1 = .ok back ∧ back.SameLanes e) := by
  refine ⟨?_, fun hs ht hu => ⟨fun h => passesThrough_of_cast_cast hs ht hu h, ?_⟩, ?_⟩
  · rintro e rfl
    refine ⟨fun hfloat => (cast_converted hfloat.1 hfloat.2).exists_ok next, fun hother => ?_⟩
    rw [cast_eq_refuse hother]
    rfl
  · rintro hpasses e rfl
    exact cast_cast_of_passesThrough hs ht hu hpasses filler next next'
  · rintro hs ht hwide e rfl
    obtain ⟨back, once, hrun, hrun', hsame⟩ :=
      cast_cast_of_passesThrough hs ht hs (.inl hwide) filler next next'
    rw [cast_of_type hs] at hrun'
    obtain rfl : e = once := Except.ok.inj hrun'
    exact ⟨back, hrun, hsame⟩

def planePoint : Expr := .leaf 0 (.input .float2 "p")

/-- A vector passes through three channels to four, and back again. A scalar does not pass through
two channels to four: the last two lanes would be the filler. -/
theorem cast_composes_planePoint :
    (∃ twice once, ((do cast (← cast planePoint .float3 7) .float4 7).runFrom 1).1 = .ok twice ∧
      ((cast planePoint .float4 7).runFrom 1).1 = .ok once ∧ twice.SameLanes once) ∧
    (∃ back, ((do cast (← cast planePoint .float3 7) .float2 7).runFrom 1).1 = .ok back ∧
      back.SameLanes planePoint) ∧
    ((cast planePoint .int 7).runFrom 1).1 = .error (.refused (.invalidCast .float2 .int)) ∧
    ¬∀ e : Expr, e.type = .float → ∃ twice once,
      ((do cast (← cast e .float2 7) .float4 7).runFrom 1).1 = .ok twice ∧
        ((cast e .float4 7).runFrom 1).1 = .ok once ∧ twice.SameLanes once := by
  have hvector := cast_composes .float2 .float3 .float4 7 1 1
  have hinteger := cast_composes .float2 .int .float4 7 1 1
  have hscalar := cast_composes .float .float2 .float4 7 1 1
  refine ⟨(hvector.2.1 rfl rfl rfl).2 (by decide) planePoint rfl,
    hvector.2.2 rfl rfl (by decide) planePoint rfl,
    (hinteger.1 planePoint rfl).2 (by decide), fun h => ?_⟩
  exact absurd ((hscalar.2.1 rfl rfl rfl).1 h) (by decide)

end Formula

end ShaderAlgebra
