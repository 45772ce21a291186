import ShaderAlgebra.Formula.Conversion
import ShaderAlgebra.Proofs.Expr.WellFormed

/-!
# Types of channels and conversions

What the shared steps of the formulas make of well-formed operands, and exactly
when they refuse them.
-/

namespace ShaderAlgebra.Formula

open ShaderAlgebra.Expr Build

variable {fails : Failure → Prop} {operands : List Expr} {e : Expr} {s t : ValueType}
  {filler : Single}

theorem channels_meets (he : HasType e t) (hfloat : t.isFloat = true) :
    Meets fails (channels e) fun cs =>
      cs.length = t.components ∧ ∀ c ∈ cs, HasType c .float := by
  unfold channels
  rw [he.2]
  by_cases hone : t.components = 1
  · rw [if_pos hone]
    refine Meets.pure ⟨hone.symm, fun c hc => ?_⟩
    obtain rfl : c = e := by simpa using hc
    rwa [← ValueType.eq_float_of_components hfloat hone]
  · rw [if_neg hone]
    have hchannel : ∀ i ∈ List.range t.components, Meets fails (channel e i) (HasType · .float) :=
      fun i hi => channel_meets he hfloat hone (List.mem_range.1 hi)
    apply (Meets.mapM hchannel).imp
    intro cs hcs
    simpa using hcs

theorem sum_meets {terms : List Expr} (h : ∀ e ∈ terms, HasType e t) (hne : terms ≠ []) :
    Meets fails (sum terms) fun r => ∃ total, r = some total ∧ HasType total t := by
  unfold sum
  have hreverse : ∀ e ∈ terms.reverse, HasType e t := fun e he => h e (List.mem_reverse.1 he)
  cases hterms : terms.reverse with
  | nil => exact absurd (List.reverse_eq_nil_iff.1 hterms) hne
  | cons last others =>
    rw [hterms] at hreverse
    have hadd : ∀ e ∈ others, ∀ total, HasType total t → Meets fails (add total e) (HasType · t) :=
      fun e he total htotal =>
        arithmetic_meets rfl htotal (hreverse e (List.mem_cons_of_mem last he))
    apply (Meets.foldlM hadd (hreverse last (by simp))).map
    intro total htotal
    exact ⟨total, rfl, htotal⟩

theorem cast_meets_of_isFloat (he : HasType e s) (hs : s.isFloat = true)
    (ht : t.isFloat = true) : Meets fails (cast e t filler) (HasType · t) := by
  unfold cast
  rw [he.2, if_neg (by simp [hs, ht])]
  by_cases hst : s = t
  · rw [if_pos hst]
    exact Meets.pure (hst ▸ he)
  · rw [if_neg hst]
    apply (channels_meets he hs).bind
    intro source hsource
    refine Meets.bind (Meets.mapM fun i _ => (?_ : Meets fails _ (HasType · .float))) ?_
    · split
      · rename_i c hc
        exact Meets.pure (hsource.2 c (List.mem_of_getElem? hc))
      · exact Meets.pure (hsource.2 _ (by simp))
      · exact constant_meets _
    · rintro result ⟨hlength, htypes⟩
      rw [List.length_range] at hlength
      split
      · have hone : t.components = 1 := by simpa using hlength.symm
        rw [ValueType.eq_float_of_components ht hone]
        exact Meets.pure (htypes _ (by simp))
      · rename_i hmany
        refine combine_meets htypes ht ?_ hlength
        intro hone
        obtain ⟨c, rfl⟩ := List.length_eq_one_iff.1 (hlength.trans hone)
        exact hmany c rfl

/-- A conversion between float types succeeds, and every other one is refused. -/
theorem cast_meets (he : HasType e s)
    (hrefused : (s.isFloat && t.isFloat) = false → fails (.refused (.invalidCast s t))) :
    Meets fails (cast e t filler) (HasType · t) := by
  cases hboth : s.isFloat && t.isFloat with
  | true =>
    rw [Bool.and_eq_true] at hboth
    exact cast_meets_of_isFloat he hboth.1 hboth.2
  | false =>
    unfold cast
    rw [he.2, ← Bool.not_and, hboth]
    exact Meets.refuse (hrefused hboth)

theorem asType_meets (he : HasType e s)
    (hrefused : s ≠ t → (s.isFloat && t.isFloat) = false →
      fails (.refused (.invalidCast s t))) :
    Meets fails (asType e t) (HasType · t) := by
  unfold asType
  split
  · exact Meets.pure ⟨he.1, ‹e.type = t›⟩
  · exact cast_meets he (hrefused (he.2 ▸ ‹¬ e.type = t›))

theorem foldl_widest_some (operands : List Expr) (s : ValueType) :
    ∃ t, operands.foldl (fun best e =>
        match best with
        | some t => if rank t ≤ rank e.type then some e.type else some t
        | none => some e.type) (some s) = some t ∧
      rank s ≤ rank t ∧ ∀ e ∈ operands, rank e.type ≤ rank t := by
  induction operands generalizing s with
  | nil => exact ⟨s, rfl, Nat.le_refl _, by simp⟩
  | cons e operands ih =>
    rw [List.foldl_cons]
    by_cases h : rank s ≤ rank e.type
    · obtain ⟨t, ht, hrank, hall⟩ := ih e.type
      refine ⟨t, by simpa only [h, if_true] using ht, Nat.le_trans h hrank, ?_⟩
      exact List.forall_mem_cons.2 ⟨hrank, hall⟩
    · obtain ⟨t, ht, hrank, hall⟩ := ih s
      refine ⟨t, by simpa only [h, if_false] using ht, hrank, ?_⟩
      exact List.forall_mem_cons.2 ⟨by omega, hall⟩

theorem exists_widest? (hne : operands ≠ []) : ∃ t, widest? operands = some t := by
  cases operands with
  | nil => exact absurd rfl hne
  | cons first others =>
    obtain ⟨t, ht, -⟩ := foldl_widest_some others first.type
    exact ⟨t, ht⟩

/-- No operand ranks above the widest type. -/
theorem rank_le_of_widest? (h : widest? operands = some t) (he : e ∈ operands) :
    rank e.type ≤ rank t := by
  cases operands with
  | nil => cases he
  | cons first others =>
    obtain ⟨w, hw, hrank, hall⟩ := foldl_widest_some others first.type
    obtain rfl : w = t := Option.some.inj (hw.symm.trans h)
    rcases List.mem_cons.1 he with rfl | he
    · exact hrank
    · exact hall e he

theorem rank_pos_iff {t : ValueType} : 0 < rank t ↔ t.isFloat = true := by
  cases t <;> decide

/-- The widest type is a float type if one operand is a float. -/
theorem isFloat_of_widest? (h : widest? operands = some t) (he : e ∈ operands)
    (hfloat : e.type.isFloat = true) : t.isFloat = true := by
  have hpos : 0 < rank e.type := rank_pos_iff.2 hfloat
  exact rank_pos_iff.1 (Nat.lt_of_lt_of_le hpos (rank_le_of_widest? h he))

theorem widen_meets (h : ∀ e ∈ operands, e.WellFormed) :
    Meets fails (widen operands filler) fun bs =>
      bs.length = operands.length ∧ ∀ b ∈ bs, b.WellFormed := by
  unfold widen
  split
  · rename_i target htarget
    split
    · exact Meets.pure ⟨rfl, h⟩
    · refine Meets.mapM fun e he => ?_
      cases hfloat : e.type.isFloat with
      | false => exact Meets.pure (h e he)
      | true =>
        have htargetFloat := isFloat_of_widest? htarget he hfloat
        exact (cast_meets_of_isFloat (h e he).hasType hfloat htargetFloat).imp fun b hb => hb.1
  · exact Meets.pure ⟨rfl, h⟩

/-- Operands of one type have a common type, and other lists are refused. -/
theorem commonType_meets
    (hempty : operands = [] → fails (.refused (.invalidArgument .noOperands)))
    (hmismatch : ∀ a ∈ operands, ∀ b ∈ operands, a.type ≠ b.type →
      fails (.refused (.typeMismatch a.type b.type))) :
    Meets fails (commonType operands) fun t => ∀ e ∈ operands, e.type = t := by
  cases operands with
  | nil => exact Meets.refuse (hempty rfl)
  | cons first others =>
    unfold commonType
    dsimp only
    cases hother : others.find? (·.type != first.type) with
    | none =>
      rw [List.find?_eq_none] at hother
      refine Meets.pure fun e he => ?_
      rcases List.mem_cons.1 he with rfl | he
      · rfl
      · simpa using hother e he
    | some other =>
      have hmem : other ∈ first :: others :=
        List.mem_cons_of_mem first (List.mem_of_find?_eq_some hother)
      have hne : other.type ≠ first.type := by simpa using List.find?_some hother
      exact Meets.refuse (hmismatch first (by simp) other hmem hne.symm)

theorem commonType_meets_of_types (htypes : ∀ e ∈ operands, e.type = t) (hne : operands ≠ []) :
    Meets fails (commonType operands) (· = t) := by
  have hsame : Meets fails (commonType operands) fun u => ∀ e ∈ operands, e.type = u := by
    apply commonType_meets
    · intro hnil
      exact absurd hnil hne
    · intro a ha b hb hab
      exact absurd ((htypes a ha).trans (htypes b hb).symm) hab
  apply hsame.imp
  intro u hu
  obtain ⟨e, he⟩ := List.exists_mem_of_ne_nil operands hne
  rw [← hu e he, htypes e he]

end ShaderAlgebra.Formula
