import ShaderAlgebra.Proofs.Evaluation.Conversion

/-!
# Widening a list of operands

Operands of any types and any number are brought to the widest float type among
them. This always succeeds. It touches the narrower floats only: their
conversions have the lanes of the source, and further lanes that repeat a scalar
or take the filler. All other operands stay the same nodes, so that widening once
more changes nothing.
-/

namespace ShaderAlgebra.Formula

open ShaderAlgebra.Expr Build

variable {operands operands' : List Expr} {e e' : Expr} {t : ValueType} {filler : Single}

theorem widest?_concat (operands : List Expr) (e : Expr) :
    widest? (operands ++ [e]) =
      match widest? operands with
      | some t => if rank t ≤ rank e.type then some e.type else some t
      | none => some e.type := by
  unfold widest?
  rw [List.foldl_append]
  rfl

theorem widest?_eq_none_iff : widest? operands = none ↔ operands = [] := by
  constructor
  · intro hnone
    by_contra hne
    obtain ⟨t, ht⟩ := exists_widest? hne
    simp [hnone] at ht
  · rintro rfl
    rfl

/-- The widest type is that of the last operand of highest rank. -/
theorem exists_split_of_widest? (h : widest? operands = some t) :
    ∃ before e after, operands = before ++ e :: after ∧ e.type = t ∧
      ∀ x ∈ after, rank x.type < rank t := by
  induction operands using List.reverseRecOn generalizing t with
  | nil => cases h
  | append_singleton es last ih =>
    rw [widest?_concat] at h
    cases hes : widest? es with
    | none =>
      simp only [hes, Option.some.injEq] at h
      exact ⟨es, last, [], rfl, h, by simp⟩
    | some s =>
      simp only [hes] at h
      split at h
      next =>
        exact ⟨es, last, [], rfl, Option.some.inj h, by simp⟩
      next hlt =>
        obtain rfl : s = t := Option.some.inj h
        obtain ⟨before, e, after, rfl, htype, hafter⟩ := ih hes
        refine ⟨before, e, after ++ [last], by simp, htype, ?_⟩
        simpa [or_imp, forall_and] using ⟨hafter, Nat.lt_of_not_le hlt⟩

/-- Without floats the widest type is that of the last operand. -/
theorem widest?_of_no_float (h : ∀ e ∈ operands, e.type.isFloat = false) :
    widest? operands = operands.getLast?.map (·.type) := by
  cases hwidest : widest? operands with
  | none =>
    rw [widest?_eq_none_iff.1 hwidest]
    rfl
  | some t =>
    obtain ⟨before, e, after, rfl, rfl, hafter⟩ := exists_split_of_widest? hwidest
    have hrank : rank e.type = 0 := by simp [rank, h e (by simp)]
    obtain rfl : after = [] := by
      refine List.eq_nil_iff_forall_not_mem.2 fun x hx => ?_
      have hlt := hafter x hx
      omega
    simp

/-- The float type with the most components among the types of the operands. -/
structure IsWidestFloat (operands : List Expr) (t : ValueType) : Prop where
  isFloat : t.isFloat = true
  attained : ∃ e ∈ operands, e.type = t
  components_le : ∀ e ∈ operands, e.type.isFloat = true → e.type.components ≤ t.components

theorem rank_of_isFloat (h : t.isFloat = true) : rank t = t.components := if_pos h

theorem eq_of_components {s : ValueType} (hs : s.isFloat = true) (ht : t.isFloat = true)
    (h : s.components = t.components) : s = t := by
  cases s <;> cases t <;> simp_all [ValueType.isFloat, ValueType.components]

theorem IsWidestFloat.unique {s : ValueType} (hs : IsWidestFloat operands s)
    (ht : IsWidestFloat operands t) : s = t := by
  obtain ⟨x, hx, rfl⟩ := hs.attained
  obtain ⟨y, hy, rfl⟩ := ht.attained
  have hle := ht.components_le x hx hs.isFloat
  have hge := hs.components_le y hy ht.isFloat
  exact eq_of_components hs.isFloat ht.isFloat (Nat.le_antisymm hle hge)

theorem IsWidestFloat.perm (h : IsWidestFloat operands t) (hperm : operands.Perm operands') :
    IsWidestFloat operands' t where
  isFloat := h.isFloat
  attained := by
    obtain ⟨e, he, htype⟩ := h.attained
    exact ⟨e, hperm.subset he, htype⟩
  components_le e he := h.components_le e (hperm.symm.subset he)

theorem isWidestFloat_of_widest? (h : widest? operands = some t) (he : e ∈ operands)
    (hfloat : e.type.isFloat = true) : IsWidestFloat operands t where
  isFloat := isFloat_of_widest? h he hfloat
  attained := exists_of_widest? h
  components_le x hx hxfloat := by
    rw [← rank_of_isFloat hxfloat, ← rank_of_isFloat (isFloat_of_widest? h he hfloat)]
    exact rank_le_of_widest? h hx

theorem exists_isWidestFloat (he : e ∈ operands) (hfloat : e.type.isFloat = true) :
    ∃ t, widest? operands = some t ∧ IsWidestFloat operands t := by
  obtain ⟨t, ht⟩ := exists_widest? (List.ne_nil_of_mem he)
  exact ⟨t, ht, isWidestFloat_of_widest? ht he hfloat⟩

/-- With a float among the operands their order does not matter. -/
theorem widest?_perm (hperm : operands.Perm operands')
    (h : ∃ e ∈ operands, e.type.isFloat = true) : widest? operands' = widest? operands := by
  obtain ⟨e, he, hfloat⟩ := h
  obtain ⟨s, hs, hwidest⟩ := exists_isWidestFloat he hfloat
  obtain ⟨t, ht, hwidest'⟩ := exists_isWidestFloat (hperm.subset he) hfloat
  rw [hs, ht, (hwidest.perm hperm).unique hwidest']

/-- What an operand becomes if `t` is the widest type. A narrower float becomes a node of
the type `t`, in every scalar domain with the lanes of a conversion; any other operand
stays the same node. -/
inductive Widened (t : ValueType) (filler : Single) (e : Expr) : Expr → Prop
  | same : e.type.isFloat = false ∨ e.type = t → Widened t filler e e
  | converted {e' : Expr} : e.type.isFloat = true → e.type.components < t.components →
      HasType e' t →
      (∀ (D : Type) (P : Primitives D) (env : Environment D),
        HasLanes P env t (P.castLane e.type.components filler (e.lane P env)) e') →
      Widened t filler e e'

theorem Widened.wellFormed (h : Widened t filler e e') (he : e.WellFormed) : e'.WellFormed := by
  cases h with
  | same => exact he
  | converted _ _ htype _ => exact htype.1

theorem Widened.type_eq (h : Widened t filler e e') (hfloat : e'.type.isFloat = true) :
    e'.type = t := by
  cases h with
  | same h =>
    rcases h with h | h
    · rw [hfloat] at h
      cases h
    · exact h
  | converted _ _ htype _ => exact htype.2

variable {fails : Failure → Prop}

theorem cast_of_type (hfloat : e.type.isFloat = true) : cast e e.type filler = pure e := by
  unfold cast
  rw [if_neg (by simp [hfloat]), if_pos rfl]

theorem cast_widened (he : e.WellFormed) (hfloat : e.type.isFloat = true)
    (ht : t.isFloat = true) (hle : e.type.components ≤ t.components) :
    Meets fails (cast e t filler) (Widened t filler e) := by
  by_cases htype : e.type = t
  · rw [← htype, cast_of_type hfloat]
    exact Meets.pure (.same (.inr rfl))
  · have hlt : e.type.components < t.components :=
      Nat.lt_of_le_of_ne hle fun h => htype (eq_of_components hfloat ht h)
    have hmeets : Meets fails (cast e t filler) (HasType · t) :=
      cast_meets_of_isFloat he.hasType hfloat ht
    apply (hmeets.and (cast_lanes_forall hfloat ht)).imp
    rintro e' ⟨htyped, hlanes⟩
    exact .converted hfloat hlt htyped hlanes

theorem widen_widened (h : ∀ e ∈ operands, e.WellFormed) (hseveral : 2 ≤ operands.length)
    (ht : widest? operands = some t) :
    Meets fails (widen operands filler) (List.Forall₂ (Widened t filler) operands) := by
  unfold widen
  rw [ht]
  dsimp only
  rw [if_neg (Nat.not_lt.2 hseveral)]
  refine Meets.mapM_forall₂ fun e he => ?_
  cases hfloat : e.type.isFloat with
  | false => exact Meets.pure (.same (.inl hfloat))
  | true =>
    have hwidest := isWidestFloat_of_widest? ht he hfloat
    exact cast_widened (h e he) hfloat hwidest.isFloat (hwidest.components_le e he hfloat)

theorem widen_of_length_lt (h : operands.length < 2) : widen operands filler = pure operands := by
  unfold widen
  split
  · rw [if_pos h]
  · rfl

/-- Operands whose floats have one type stay as they are. -/
theorem widen_of_float_types (h : ∀ e ∈ operands, e.type.isFloat = true → e.type = t) :
    widen operands filler = pure operands := by
  unfold widen
  split
  next target htarget =>
    split
    · rfl
    · refine mapM_eq_pure fun e he => ?_
      cases hfloat : e.type.isFloat with
      | false => rfl
      | true =>
        have hwidest := isWidestFloat_of_widest? htarget he hfloat
        obtain ⟨x, hx, htype⟩ := hwidest.attained
        have hsame : e.type = target := by
          rw [h e he hfloat, ← h x hx (htype ▸ hwidest.isFloat), htype]
        rw [if_pos rfl, ← hsame, cast_of_type hfloat]
  · rfl

/-- What widening makes of a list of operands. -/
structure Widening (operands : List Expr) (filler : Single) (result : List Expr) : Prop where
  length_eq : result.length = operands.length
  wellFormed : ∀ e ∈ result, e.WellFormed
  eq_of_few : operands.length < 2 → result = operands
  widened : 2 ≤ operands.length → ∃ t, widest? operands = some t ∧
    List.Forall₂ (Widened t filler) operands result
  again : ∀ filler', widen result filler' = pure result

theorem widen_widening (h : ∀ e ∈ operands, e.WellFormed) :
    Meets fails (widen operands filler) (Widening operands filler) := by
  rcases Nat.lt_or_ge operands.length 2 with hfew | hseveral
  · rw [widen_of_length_lt hfew]
    exact Meets.pure ⟨rfl, h, fun _ => rfl, fun hseveral => absurd hfew (Nat.not_lt.2 hseveral),
      fun _ => widen_of_length_lt hfew⟩
  · have hne : operands ≠ [] := by
      rintro rfl
      cases hseveral
    obtain ⟨t, ht⟩ := exists_widest? hne
    apply (widen_widened h hseveral ht).imp
    intro result hresult
    refine ⟨hresult.length_eq.symm, fun e' he' => ?_,
      fun hfew => absurd hfew (Nat.not_lt.2 hseveral), fun _ => ⟨t, ht, hresult⟩, fun filler' => ?_⟩
    · obtain ⟨e, he, hwidened⟩ := exists_of_mem_forall₂ hresult he'
      exact hwidened.wellFormed (h e he)
    · refine widen_of_float_types (t := t) fun e' he' hfloat => ?_
      obtain ⟨e, -, hwidened⟩ := exists_of_mem_forall₂ hresult he'
      exact hwidened.type_eq hfloat

/-- Widening succeeds on well-formed operands of any types and any number. The type that it
widens to exists unless the list is empty: it is the widest float type, whatever the order,
or without floats the type of the last operand. -/
theorem widen_converts_narrower_floats (h : ∀ e ∈ operands, e.WellFormed) (filler : Single)
    (next : Nat) :
    (∃ result, ((widen operands filler).runFrom next).1 = .ok result ∧
      Widening operands filler result) ∧
    (widest? operands = none ↔ operands = []) ∧
    ((∃ e ∈ operands, e.type.isFloat = true) →
      ∃ t, IsWidestFloat operands t ∧ ∀ operands', operands.Perm operands' →
        widest? operands' = some t) ∧
    ((∀ e ∈ operands, e.type.isFloat = false) →
      widest? operands = operands.getLast?.map (·.type)) := by
  refine ⟨(widen_widening h).exists_ok next, widest?_eq_none_iff, ?_, widest?_of_no_float⟩
  rintro ⟨e, he, hfloat⟩
  obtain ⟨t, ht, hwidest⟩ := exists_isWidestFloat he hfloat
  refine ⟨t, hwidest, fun operands' hperm => ?_⟩
  rw [widest?_perm hperm ⟨e, he, hfloat⟩, ht]

/-- Operands of four types, of which the third is the widest float. -/
def mixedOperands : List Expr := [
  .leaf 100 (.input .uint "n"), .leaf 101 (.input .float "x"), .leaf 102 (.input .float3 "v"),
  .leaf 103 (.input .float2 "w")]

theorem widen_converts_mixedOperands :
    (∀ e ∈ mixedOperands, e.WellFormed) ∧ widest? mixedOperands.reverse = some .float3 ∧
      ∃ result, ((widen mixedOperands 1).runFrom 104).1 = .ok result ∧
        Widening mixedOperands 1 result :=
  have hwellFormed : ∀ e ∈ mixedOperands, e.WellFormed := by decide
  ⟨hwellFormed, by decide, (widen_converts_narrower_floats hwellFormed 1 104).1⟩

end ShaderAlgebra.Formula
