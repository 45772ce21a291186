import ShaderAlgebra.Proofs.Evaluation.Lane
import ShaderAlgebra.Proofs.Formula.Conversion

/-!
# Lanes of conversions

A conversion between float types keeps the lanes that the source has. Further
lanes repeat a scalar, or take the filler after a vector. Operands that are
brought to one type are converted so, with the filler zero.
-/

namespace ShaderAlgebra

variable {D : Type}

/-- A lane of a source of `n` lanes after its conversion. -/
def Primitives.castLane (P : Primitives D) (n : Nat) (filler : Single) (f : Nat → D) (i : Nat) :
    D :=
  if i < n then f i else if n = 1 then f 0 else P.number filler

theorem Primitives.castLane_scalar (P : Primitives D) (filler : Single) (d : D) (i : Nat) :
    P.castLane 1 filler (fun _ => d) i = d := by
  simp [castLane]

/-- A lane of an operand as the other operands see it: the only lane of a scalar, and zero
where a vector has none. -/
def Expr.operandLane (P : Primitives D) (env : Environment D) (e : Expr) (i : Nat) : D :=
  P.castLane e.type.components 0 (e.lane P env) i

namespace Formula

open ShaderAlgebra.Expr Build

variable {P : Primitives D} {env : Environment D} {fails : Failure → Prop} {e : Expr}
  {operands : List Expr} {s t : ValueType} {f : Nat → D} {filler : Single}

theorem hasLanes_of_scalar (he : HasLanes P env .float (fun _ => f 0) e) (ht : t.isFloat = true)
    (hone : t.components = 1) : HasLanes P env t f e := by
  obtain rfl := ValueType.eq_float_of_components ht hone
  refine ⟨he.1, fun i hi => ?_⟩
  obtain rfl : i = 0 := Nat.lt_one_iff.1 hi
  exact he.2 0 hi

theorem channels_lanes (he : HasLanes P env t f e) (ht : t.isFloat = true) :
    Meets fails (channels e) (ListsLanes P env t.components f) := by
  unfold channels
  rw [he.1]
  by_cases hone : t.components = 1
  · rw [if_pos hone]
    refine Meets.pure ?_
    rw [hone]
    refine .cons ⟨?_, fun i hi => ?_⟩ .nil
    · rw [he.1, ValueType.eq_float_of_components ht hone]
    · obtain rfl : i = 0 := Nat.lt_one_iff.1 hi
      exact he.2 0 t.components_pos
  · rw [if_neg hone]
    exact Meets.mapM_forall₂ fun i hi => channel_lanes he (List.mem_range.1 hi)

theorem cast_lanes (he : HasLanes P env s f e) (hs : s.isFloat = true) (ht : t.isFloat = true) :
    Meets fails (cast e t filler) (HasLanes P env t (P.castLane s.components filler f)) := by
  unfold cast
  rw [he.1, if_neg (by simp [hs, ht])]
  by_cases hst : s = t
  · rw [if_pos hst]
    refine Meets.pure ⟨he.1.trans hst, fun i hi => ?_⟩
    rw [← hst] at hi
    rw [Primitives.castLane, if_pos hi]
    exact he.2 i hi
  · rw [if_neg hst]
    apply (channels_lanes he hs).bind
    intro source hsource
    let lanes (i : Nat) : Expr → Prop :=
      HasLanes P env .float fun _ => P.castLane s.components filler f i
    refine Meets.bind (Meets.mapM_forall₂ (R := lanes) fun i _ => ?_) fun result hlist => ?_
    · dsimp only [lanes]
      split
      next c hc =>
        obtain ⟨hi, hlanes⟩ := hsource.of_getElem? hc
        rw [Primitives.castLane, if_pos hi]
        exact Meets.pure hlanes
      next c hnone =>
        have hone : s.components = 1 := hsource.length_eq.symm
        have hi : ¬i < s.components := by
          rw [hone]
          simpa using hnone
        rw [Primitives.castLane, if_neg hi, if_pos hone]
        exact Meets.pure (hsource.of_getElem? (i := 0) rfl).2
      next hmany hnone =>
        have hi : ¬i < s.components := by
          rw [← hsource.length_eq]
          simpa using hnone
        have hone : s.components ≠ 1 := by
          intro hone
          obtain ⟨c, rfl⟩ := List.length_eq_one_iff.1 (hsource.length_eq.trans hone)
          exact hmany c rfl
        rw [Primitives.castLane, if_neg hi, if_neg hone]
        exact splat_lanes filler .float
    · have hresult :
          ListsLanes P env t.components (P.castLane s.components filler f) result := hlist
      split
      next c =>
        have hone : t.components = 1 := hresult.length_eq.symm
        exact Meets.pure (hasLanes_of_scalar (hresult.of_getElem? (i := 0) rfl).2 ht hone)
      next hmany =>
        refine combine_lanes ht (fun hone => ?_) hresult
        obtain ⟨c, rfl⟩ := List.length_eq_one_iff.1 (hresult.length_eq.trans hone)
        exact hmany c rfl

/-- A scalar is repeated in each lane. -/
theorem cast_scalar_lanes {d : D} (he : HasLanes P env .float (fun _ => d) e)
    (ht : t.isFloat = true) : Meets fails (cast e t filler) (HasLanes P env t fun _ => d) := by
  apply (cast_lanes he rfl ht).imp
  intro e' he'
  exact he'.congr fun i _ => P.castLane_scalar filler d i

/-- The lanes of a converted node, in all domains at once. -/
theorem cast_lanes_forall (he : e.type.isFloat = true) (ht : t.isFloat = true) :
    Meets fails (cast e t filler) fun e' => ∀ D (P : Primitives D) (env : Environment D),
      HasLanes P env t (P.castLane e.type.components filler (e.lane P env)) e' :=
  Meets.forall_domains fun _ P env => cast_lanes (hasLanes_lane P env e) he ht

/-- A conversion to the type that a node has changes nothing. -/
theorem asType_lanes (he : HasLanes P env s f e) (hs : s.isFloat = true) (ht : t.isFloat = true) :
    Meets fails (asType e t) (HasLanes P env t (P.castLane s.components 0 f)) := by
  unfold asType
  split
  next hst =>
    obtain rfl := he.1.symm.trans hst
    refine Meets.pure ⟨he.1, fun i hi => ?_⟩
    rw [Primitives.castLane, if_pos hi]
    exact he.2 i hi
  · exact cast_lanes he hs ht

theorem asType_lanes_of_type (he : HasLanes P env t f e) :
    Meets fails (asType e t) (HasLanes P env t f) := by
  unfold asType
  rw [if_pos he.1]
  exact Meets.pure he

theorem exists_of_foldl_widest (operands : List Expr) (s : ValueType) :
    ∃ t, operands.foldl (fun best e =>
        match best with
        | some t => if rank t ≤ rank e.type then some e.type else some t
        | none => some e.type) (some s) = some t ∧ (t = s ∨ ∃ e ∈ operands, e.type = t) := by
  induction operands generalizing s with
  | nil => exact ⟨s, rfl, .inl rfl⟩
  | cons e operands ih =>
    rw [List.foldl_cons]
    by_cases h : rank s ≤ rank e.type
    · obtain ⟨t, ht, hmem⟩ := ih e.type
      refine ⟨t, by simpa only [h, if_true] using ht, .inr ?_⟩
      rcases hmem with rfl | ⟨x, hx, hxt⟩
      · exact ⟨e, List.mem_cons_self, rfl⟩
      · exact ⟨x, List.mem_cons_of_mem e hx, hxt⟩
    · obtain ⟨t, ht, hmem⟩ := ih s
      refine ⟨t, by simpa only [h, if_false] using ht, ?_⟩
      rcases hmem with rfl | ⟨x, hx, hxt⟩
      · exact .inl rfl
      · exact .inr ⟨x, List.mem_cons_of_mem e hx, hxt⟩

/-- The widest type is the type of an operand. -/
theorem exists_of_widest? (h : widest? operands = some t) : ∃ e ∈ operands, e.type = t := by
  cases operands with
  | nil => cases h
  | cons first others =>
    obtain ⟨w, hw, hmem⟩ := exists_of_foldl_widest others first.type
    obtain rfl : w = t := Option.some.inj (hw.symm.trans h)
    rcases hmem with rfl | ⟨e, he, rfl⟩
    · exact ⟨first, List.mem_cons_self, rfl⟩
    · exact ⟨e, List.mem_cons_of_mem first he, rfl⟩

/-- Of float operands the widest type has the most components. -/
theorem max?_components_of_widest? (hfloat : ∀ e ∈ operands, e.type.isFloat = true)
    (h : widest? operands = some t) :
    (operands.map (·.type.components)).max? = some t.components := by
  obtain ⟨widest, hwidest, rfl⟩ := exists_of_widest? h
  have hrank (e : Expr) (he : e ∈ operands) : rank e.type = e.type.components :=
    if_pos (hfloat e he)
  refine List.max?_eq_some_iff.2 ⟨List.mem_map_of_mem hwidest, ?_⟩
  rintro _ hn
  obtain ⟨e, he, rfl⟩ := List.mem_map.1 hn
  rw [← hrank e he, ← hrank widest hwidest]
  exact rank_le_of_widest? h he

theorem widen_lanes (hfloat : ∀ e ∈ operands, e.type.isFloat = true)
    (hseveral : 2 ≤ operands.length) (h : widest? operands = some t) :
    Meets fails (widen operands 0)
      (List.Forall₂ (fun e => HasLanes P env t (e.operandLane P env)) operands) := by
  unfold widen
  rw [h]
  dsimp only
  rw [if_neg (Nat.not_lt.2 hseveral)]
  refine Meets.mapM_forall₂ fun e he => ?_
  rw [if_pos (hfloat e he)]
  exact cast_lanes (hasLanes_lane P env e) (hfloat e he) (isFloat_of_widest? h he (hfloat e he))

end Formula

end ShaderAlgebra
