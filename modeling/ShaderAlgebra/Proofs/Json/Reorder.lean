import ShaderAlgebra.Proofs.Json.Document

/-!
# The order of members

Documents that are the same but for the order of members have values that are the
same but for the order of members, or none of them has a value.
-/

namespace ShaderAlgebra.Json

/-- The same value but for the order of members in objects, at all depths. -/
inductive Value.Reordered : Value → Value → Prop
  | null : Reordered .null .null
  | bool (b : Bool) : Reordered (.bool b) (.bool b)
  | number (n : Number) : Reordered (.number n) (.number n)
  | string (s : String) : Reordered (.string s) (.string s)
  | list {items items' : List Value} : List.Forall₂ Reordered items items' →
      Reordered (.list items) (.list items')
  | object {members middle members' : List (String × Value)} :
      members.map (·.1) = middle.map (·.1) →
      List.Forall₂ Reordered (members.map (·.2)) (middle.map (·.2)) → middle.Perm members' →
      Reordered (.object members) (.object members')

section Lists

variable {α β γ δ κ : Type} {R : γ → δ → Prop}

/-- Lists of pairs with the same keys and related values. -/
theorem forall₂_pairs {S : α → β → Prop} {xs : List (κ × α)} {ys : List (κ × β)}
    (hkeys : xs.map (·.1) = ys.map (·.1))
    (hvalues : List.Forall₂ S (xs.map (·.2)) (ys.map (·.2))) :
    List.Forall₂ (fun x y => x.1 = y.1 ∧ S x.2 y.2) xs ys := by
  induction xs generalizing ys with
  | nil =>
    cases ys with
    | nil => exact .nil
    | cons y ys => cases hkeys
  | cons x xs ih =>
    cases ys with
    | nil => cases hkeys
    | cons y ys =>
      obtain ⟨hkey, hkeys⟩ := List.cons.inj hkeys
      obtain _ | ⟨hvalue, hvalues⟩ := hvalues
      exact .cons ⟨hkey, hvalue⟩ (ih hkeys hvalues)

theorem map_of_forall₂_pairs {S : α → β → Prop} {xs : List (κ × α)} {ys : List (κ × β)}
    (h : List.Forall₂ (fun x y => x.1 = y.1 ∧ S x.2 y.2) xs ys) :
    xs.map (·.1) = ys.map (·.1) ∧ List.Forall₂ S (xs.map (·.2)) (ys.map (·.2)) := by
  induction h with
  | nil => exact ⟨rfl, .nil⟩
  | cons hxy _ ih =>
    obtain ⟨hkeys, hvalues⟩ := ih
    exact ⟨List.cons_eq_cons.2 ⟨hxy.1, hkeys⟩, .cons hxy.2 hvalues⟩

theorem rel_mapM {f : α → Option γ} {g : β → Option δ} {xs : List α} {ys : List β}
    (h : List.Forall₂ (fun x y => Option.Rel R (f x) (g y)) xs ys) :
    Option.Rel (List.Forall₂ R) (xs.mapM f) (ys.mapM g) := by
  induction h with
  | nil => exact .some .nil
  | @cons x y xs ys hxy _ ih =>
    rw [List.mapM_cons, List.mapM_cons]
    generalize f x = a at hxy ⊢
    generalize g y = b at hxy ⊢
    generalize xs.mapM f = as at ih ⊢
    generalize ys.mapM g = bs at ih ⊢
    cases hxy with
    | none => exact .none
    | some hab =>
      cases ih with
      | none => exact .none
      | some habs => exact .some (.cons hab habs)

theorem perm_mapM (f : α → Option γ) {xs ys : List α} (h : xs.Perm ys) :
    Option.Rel List.Perm (xs.mapM f) (ys.mapM f) := by
  induction h with
  | nil => exact .some .nil
  | @cons x xs ys _ ih =>
    rw [List.mapM_cons, List.mapM_cons]
    generalize xs.mapM f = as at ih ⊢
    generalize ys.mapM f = bs at ih ⊢
    cases f x with
    | none => exact .none
    | some a =>
      cases ih with
      | none => exact .none
      | some has => exact .some (has.cons a)
  | swap x y xs =>
    simp only [List.mapM_cons]
    cases f x <;> cases f y <;> cases xs.mapM f
    all_goals first | exact .none | exact .some (.swap _ _ _)
  | @trans xs ys zs _ _ ih₁ ih₂ =>
    generalize xs.mapM f = as at ih₁ ⊢
    generalize ys.mapM f = bs at ih₁ ih₂
    generalize zs.mapM f = cs at ih₂ ⊢
    cases ih₁ with
    | none =>
      cases ih₂
      exact .none
    | some h₁ =>
      cases ih₂ with
      | some h₂ => exact .some (h₁.trans h₂)

end Lists

namespace Document

variable {d d' : Document} {depth : Nat}

theorem rel_memberOf? {g : Document → Option Value} {m m' : List Nat × Document}
    (hkey : m.1 = m'.1) (h : Option.Rel Value.Reordered (g m.2) (g m'.2)) :
    Option.Rel (fun x y => x.1 = y.1 ∧ x.2.Reordered y.2) (memberOf? g m) (memberOf? g m') := by
  unfold memberOf?
  rw [hkey]
  generalize g m.2 = v at h ⊢
  generalize g m'.2 = v' at h ⊢
  cases stringOf? m'.1 with
  | none => exact .none
  | some key =>
    cases h with
    | none => exact .none
    | some hv => exact .some ⟨rfl, hv⟩

theorem rel_map_self {α : Type} {f : α → Value} (h : ∀ a, (f a).Reordered (f a))
    (o : Option α) : Option.Rel Value.Reordered (o.map f) (o.map f) := by
  cases o with
  | none => exact .none
  | some a => exact .some (h a)

/-- The values are the same but for the order of members. -/
theorem Reordered.rel_value? (h : d.Reordered d') :
    Option.Rel Value.Reordered (d.value? depth) (d'.value? depth) := by
  induction depth generalizing d d' with
  | zero =>
    cases h with
    | null => exact .some .null
    | bool b => exact .some (.bool b)
    | number numeral => exact rel_map_self .number _
    | string us => exact rel_map_self .string _
    | list | object => exact .none
  | succ depth ih =>
    cases h with
    | null => exact .some .null
    | bool b => exact .some (.bool b)
    | number numeral => exact rel_map_self .number _
    | string us => exact rel_map_self .string _
    | @list items items' hitems =>
      have hvalues := rel_mapM (hitems.imp fun _ _ hd => ih hd)
      rw [value?, value?]
      generalize items.mapM (value? depth) = vs at hvalues ⊢
      generalize items'.mapM (value? depth) = vs' at hvalues ⊢
      cases hvalues with
      | none => exact .none
      | some h => exact .some (.list h)
    | @object members middle members' hkeys hdocuments hperm =>
      have hmembers : List.Forall₂ (fun m m' => Option.Rel
          (fun x y : String × Value => x.1 = y.1 ∧ x.2.Reordered y.2)
          (memberOf? (value? depth) m) (memberOf? (value? depth) m')) members middle :=
        (forall₂_pairs hkeys hdocuments).imp fun m m' hm => rel_memberOf? hm.1 (ih hm.2)
      have hvalues := rel_mapM hmembers
      have hsame := perm_mapM (memberOf? (value? depth)) hperm
      rw [value?, value?]
      generalize members.mapM (memberOf? (value? depth)) = ms at hvalues ⊢
      generalize middle.mapM (memberOf? (value? depth)) = between at hvalues hsame
      generalize members'.mapM (memberOf? (value? depth)) = ms' at hsame ⊢
      cases hvalues with
      | none =>
        cases hsame
        exact .none
      | some hms =>
        cases hsame with
        | some hperm =>
          obtain ⟨hkeys, hvalues⟩ := map_of_forall₂_pairs hms
          exact .some (.object hkeys hvalues hperm)

end Document

end ShaderAlgebra.Json
