import Mathlib.Algebra.BigOperators.Group.List.Basic
import ShaderAlgebra.Formula.Conversion
import ShaderAlgebra.Proofs.Evaluation.Lane

/-!
# Sums of terms

The terms of a sum lie on a stack, the last one on top. The two topmost entries give
way to their sum until one entry is left. So the last two terms are added first, and
every other term is added to the sum of those behind it. The terms must have one
type: the first one from the top that has another type breaks the rule of addition.
-/

namespace ShaderAlgebra.Formula

open ShaderAlgebra.Expr Build
open scoped List

/-- The sum of a stack, its top first. -/
def collapse : List Expr → Build (Option Expr)
  | [] => return none
  | [total] => return some total
  | top :: below :: rest => do collapse ((← add top below) :: rest)
termination_by stack => stack.length

/-- The sum of a list: its first term is added to the sum of the others. The sums take the
identities from `next` on. -/
def nestedSum (next : Nat) : List Expr → Option Expr
  | [] => none
  | e :: es =>
    match nestedSum next es with
    | none => some e
    | some total => some (.binary (next + (es.length - 1)) .add total e)

variable {terms es : List Expr} {a b e : Expr} {t : ValueType} {next : Nat}

section Steps

theorem collapse_cons (top : Expr) (rest : List Expr) :
    collapse (top :: rest) = some <$> rest.foldlM add top := by
  induction rest generalizing top with
  | nil => rw [collapse, List.foldlM_nil, map_pure]
  | cons below rest ih =>
    rw [collapse, List.foldlM_cons, map_bind]
    exact bind_congr fun total => ih total

theorem sum_eq_collapse (terms : List Expr) : sum terms = collapse terms.reverse := by
  unfold sum
  cases terms.reverse with
  | nil => rw [collapse]
  | cons last others => rw [collapse_cons]

/-- What the first term adds to a sum. -/
def addFirst (e : Expr) : Option Expr → Build (Option Expr)
  | none => return some e
  | some total => some <$> add total e

theorem sum_cons (e : Expr) (es : List Expr) : sum (e :: es) = sum es >>= addFirst e := by
  unfold sum
  rw [List.reverse_cons]
  cases es.reverse with
  | nil => rfl
  | cons last others =>
    rw [List.cons_append, bind_map_left]
    simp only [List.foldlM_append, List.foldlM_cons, List.foldlM_nil, bind_pure, map_bind]
    rfl

theorem run_add_of_type (h : a.type = b.type) (next : Nat) :
    (add a b).runFrom next = (.ok (.binary next .add a b), next + 1) := by
  unfold add Build.binary
  rw [if_pos (by simp [h])]
  rfl

theorem run_add_of_type_ne (h : a.type ≠ b.type) (next : Nat) :
    (add a b).runFrom next = (.error (.violated (.operandTypes .add a.type b.type)), next) := by
  unfold add Build.binary
  rw [if_neg (by simpa [BinaryOp.isShift] using h)]
  rfl

theorem run_addFirst_of_type (h : a.type = b.type) (next : Nat) :
    (addFirst b (some a)).runFrom next = (.ok (some (.binary next .add a b)), next + 1) := by
  change (some <$> add a b).runFrom next = _
  rw [map_eq_pure_bind, runFrom_bind, run_add_of_type h]
  rfl

end Steps

section Shape

theorem nestedSum_eq_none_iff : nestedSum next terms = none ↔ terms = [] := by
  cases terms with
  | nil => simp [nestedSum]
  | cons e es =>
    rw [nestedSum]
    split <;> simp

/-- Each term has one place in a sum. The other places are additions of the type `t`, one less
than there are terms, with the identities from `next` on. -/
structure UsesOnce (t : ValueType) (next : Nat) (terms added : List Expr) (total : Expr) :
    Prop where
  nodes_perm : total.nodes.Perm (terms.flatMap nodes ++ added)
  ids_added : ids added = List.range' next (terms.length - 1)
  isSum : ∀ x ∈ added, x.type = t ∧ ∃ i a b, x = .binary i .add a b

theorem UsesOnce.singleton (e : Expr) : UsesOnce t next [e] [] e where
  nodes_perm := by simp
  ids_added := rfl
  isSum := by simp

theorem UsesOnce.cons {added : List Expr} {total sum : Expr} (h : UsesOnce t next es added total)
    (hne : es ≠ []) (hsum : sum = .binary (next + (es.length - 1)) .add total e)
    (htype : sum.type = t) : UsesOnce t next (e :: es) (added ++ [sum]) sum where
  nodes_perm := by
    have hnodes : sum.nodes = total.nodes ++ e.nodes ++ [sum] := by
      rw [nodes_eq, hsum]
      simp [operands, Expr.node, Node.operands]
    calc sum.nodes
      _ = total.nodes ++ e.nodes ++ [sum] := hnodes
      _ ~ (es.flatMap nodes ++ added) ++ e.nodes ++ [sum] :=
        (h.nodes_perm.append_right e.nodes).append_right [sum]
      _ ~ e.nodes ++ (es.flatMap nodes ++ added) ++ [sum] :=
        List.perm_append_comm.append_right [sum]
      _ = (e :: es).flatMap nodes ++ (added ++ [sum]) := by simp
  ids_added := by
    have hpos := List.length_pos_of_ne_nil hne
    obtain ⟨n, hn⟩ := Nat.exists_eq_succ_of_ne_zero (Nat.ne_of_gt hpos)
    rw [ids_append, h.ids_added, hsum, List.length_cons, hn]
    exact List.range'_1_concat.symm
  isSum x hx := by
    rcases List.mem_append.1 hx with hx | hx
    · exact h.isSum x hx
    · obtain rfl := List.mem_singleton.1 hx
      exact ⟨htype, _, _, _, hsum⟩

end Shape

section Runs

/-- Terms of one type give the nested sum. -/
theorem run_sum_of_types (htypes : ∀ e ∈ terms, e.type = t) (hne : terms ≠ []) (next : Nat) :
    ∃ total added, nestedSum next terms = some total ∧ total.type = t ∧
      UsesOnce t next terms added total ∧
      (sum terms).runFrom next = (.ok (some total), next + (terms.length - 1)) := by
  induction terms with
  | nil => exact absurd rfl hne
  | cons e es ih =>
    have he : e.type = t := htypes e List.mem_cons_self
    by_cases hes : es = []
    · subst hes
      exact ⟨e, [], rfl, he, .singleton e, rfl⟩
    · obtain ⟨total, added, hnested, htype, honce, hrun⟩ :=
        ih (fun x hx => htypes x (List.mem_cons_of_mem e hx)) hes
      let sum := Expr.binary (next + (es.length - 1)) .add total e
      refine ⟨sum, added ++ [sum], ?_, htype, honce.cons hes rfl htype, ?_⟩
      · rw [nestedSum, hnested]
      · rw [sum_cons, runFrom_bind, hrun]
        dsimp only
        rw [run_addFirst_of_type (htype.trans he.symm), List.length_cons, Nat.add_assoc,
          Nat.sub_add_cancel (List.length_pos_of_ne_nil hes), Nat.add_sub_cancel]

/-- The first term that has not the type of the sum so far breaks the rule of addition. -/
theorem run_foldlM_add_of_mismatch {total other : Expr} {others : List Expr}
    (htotal : total.type = t) (hother : others.find? (·.type != t) = some other) (next : Nat) :
    ((others.foldlM add total).runFrom next).1 =
      .error (.violated (.operandTypes .add t other.type)) := by
  induction others generalizing total next with
  | nil => cases hother
  | cons x others ih =>
    rw [List.foldlM_cons, runFrom_bind]
    by_cases hx : x.type = t
    · rw [run_add_of_type (htotal.trans hx.symm)]
      have hothers : others.find? (·.type != t) = some other := by
        simpa [List.find?_cons, hx] using hother
      have hsum : (Expr.binary next .add total x).type = t := htotal
      exact ih hsum hothers (next + 1)
    · rw [run_add_of_type_ne (by rwa [htotal, ne_comm])]
      obtain rfl : x = other := by simpa [List.find?_cons, hx] using hother
      rw [htotal]

/-- The terms are tried from the last one on. -/
theorem run_sum_of_mismatch {last other : Expr} {others : List Expr}
    (hterms : terms.reverse = last :: others)
    (hother : others.find? (·.type != last.type) = some other) (next : Nat) :
    ((sum terms).runFrom next).1 =
      .error (.violated (.operandTypes .add last.type other.type)) := by
  unfold sum
  rw [hterms]
  dsimp only
  rw [map_eq_pure_bind, runFrom_bind]
  have hrun := run_foldlM_add_of_mismatch rfl hother next
  rcases hfold : (others.foldlM add last).runFrom next with ⟨outcome, after⟩
  rw [hfold] at hrun
  rw [show outcome = _ from hrun]

def Mixed (terms : List Expr) : Prop := ∃ a ∈ terms, ∃ b ∈ terms, a.type ≠ b.type

theorem exists_type_of_not_mixed (h : ¬Mixed terms) : ∃ t, ∀ e ∈ terms, e.type = t := by
  cases terms with
  | nil => exact ⟨.float, by simp⟩
  | cons first others =>
    refine ⟨first.type, fun e he => ?_⟩
    by_contra hne
    exact h ⟨e, he, first, List.mem_cons_self, hne⟩

theorem exists_ok_of_not_mixed (h : ¬Mixed terms) (next : Nat) :
    ∃ r, ((sum terms).runFrom next).1 = .ok r ∧ (r = none ↔ terms = []) := by
  by_cases hne : terms = []
  · subst hne
    exact ⟨none, rfl, by simp⟩
  · obtain ⟨t, htypes⟩ := exists_type_of_not_mixed h
    obtain ⟨total, -, -, -, -, hrun⟩ := run_sum_of_types htypes hne next
    exact ⟨some total, by rw [hrun], by simp [hne]⟩

theorem exists_violation_of_mixed (h : Mixed terms) (next : Nat) :
    ∃ violation, ((sum terms).runFrom next).1 = .error (.violated violation) := by
  obtain ⟨a, ha, b, hb, hab⟩ := h
  cases hterms : terms.reverse with
  | nil =>
    rw [List.reverse_eq_nil_iff.1 hterms] at ha
    cases ha
  | cons last others =>
    cases hother : others.find? (·.type != last.type) with
    | some other => exact ⟨_, run_sum_of_mismatch hterms hother next⟩
    | none =>
      have hlast (e : Expr) (he : e ∈ terms) : e.type = last.type := by
        rw [← List.mem_reverse, hterms] at he
        rcases List.mem_cons.1 he with rfl | he
        · rfl
        · simpa using List.find?_eq_none.1 hother e he
      exact absurd ((hlast a ha).trans (hlast b hb).symm) hab

end Runs

section Values

variable {D M : Type} [AddCommMonoid M] {P : Primitives D} {env : Environment D} {embed : M → D}
  {value : Expr → M} {i : Nat}

theorem lane_nestedSum (hadd : ∀ x y, P.binary .add (embed x) (embed y) = embed (x + y))
    (hvalue : ∀ e ∈ terms, e.lane P env i = embed (value e)) {total : Expr}
    (htotal : nestedSum next terms = some total) :
    total.lane P env i = embed (terms.map value).sum := by
  induction terms generalizing total with
  | nil => cases htotal
  | cons e es ih =>
    rw [List.forall_mem_cons] at hvalue
    rw [nestedSum] at htotal
    cases hes : nestedSum next es with
    | none =>
      rw [hes] at htotal
      obtain rfl := Option.some.inj htotal
      obtain rfl := nestedSum_eq_none_iff.1 hes
      rw [hvalue.1, List.map_cons, List.map_nil, List.sum_singleton]
    | some rest =>
      rw [hes] at htotal
      obtain rfl := Option.some.inj htotal
      change P.binary .add (rest.lane P env i) (e.lane P env i) = _
      rw [ih hvalue.2 hes, hvalue.1, hadd, List.map_cons, List.sum_cons, add_comm]

end Values

/-- A sum works as a stack. It is missing for no terms, and is the term itself for one. Terms of
one type are all added once, from the last one on, by one new node less than there are terms: in
every commutative monoid the sum has the value of the terms in any order. The rule of addition is
broken exactly by terms of different types. -/
theorem sum_adds_from_last (terms : List Expr) (next : Nat) :
    sum terms = collapse terms.reverse ∧
    (((sum terms).runFrom next).1 = .ok none ↔ terms = []) ∧
    (∀ e, terms = [e] → (sum terms).runFrom next = (.ok (some e), next)) ∧
    (∀ t, terms ≠ [] → (∀ e ∈ terms, e.type = t) → ∃ total added,
      nestedSum next terms = some total ∧ total.type = t ∧ UsesOnce t next terms added total ∧
      (sum terms).runFrom next = (.ok (some total), next + (terms.length - 1)) ∧
      ∀ {D M : Type} [AddCommMonoid M] (P : Primitives D) (env : Environment D) (embed : M → D),
        (∀ x y, P.binary .add (embed x) (embed y) = embed (x + y)) →
        ∀ (value : Expr → M) (i : Nat), (∀ e ∈ terms, e.lane P env i = embed (value e)) →
          ∀ order : List Expr, order.Perm terms →
            total.lane P env i = embed (order.map value).sum) ∧
    ((∃ violation, ((sum terms).runFrom next).1 = .error (.violated violation)) ↔ Mixed terms) := by
  refine ⟨sum_eq_collapse terms, ⟨fun hnone => ?_, ?_⟩, ?_, ?_, ⟨?_, ?_⟩⟩
  · by_cases hmixed : Mixed terms
    · obtain ⟨violation, hrun⟩ := exists_violation_of_mixed hmixed next
      rw [hrun] at hnone
      cases hnone
    · obtain ⟨r, hrun, hr⟩ := exists_ok_of_not_mixed hmixed next
      rw [hrun] at hnone
      exact hr.1 (Except.ok.inj hnone)
  · rintro rfl
    rfl
  · rintro e rfl
    rfl
  · intro t hne htypes
    obtain ⟨total, added, hnested, htype, honce, hrun⟩ := run_sum_of_types htypes hne next
    refine ⟨total, added, hnested, htype, honce, hrun, ?_⟩
    intro D M _ P env embed hadd value i hvalue order horder
    rw [lane_nestedSum hadd hvalue hnested, (horder.map value).sum_eq]
  · rintro ⟨violation, hviolated⟩
    by_contra hmixed
    obtain ⟨r, hrun, -⟩ := exists_ok_of_not_mixed hmixed next
    rw [hrun] at hviolated
    cases hviolated
  · intro hmixed
    exact exists_violation_of_mixed hmixed next

def threeTerms (t : ValueType) : List Expr :=
  [.leaf 0 (.input t "a"), .leaf 1 (.input .float "b"), .leaf 2 (.input .float "c")]

def counting : Primitives Nat := ⟨fun _ => 0, fun _ => 0, fun _ => 0, fun _ x => x, fun _ => (· + ·)⟩

def amounts : Environment Nat where
  input _ name _ := if name = "a" then 1 else if name = "b" then 20 else 300
  seed := 0

/-- Three scalars take two additions, of the last two first. A vector is not added to them. -/
theorem sum_adds_from_last_threeTerms :
    (∃ total added, (sum (threeTerms .float)).runFrom 3 = (.ok (some total), 5) ∧
      total = .binary 4 .add (.binary 3 .add (.leaf 2 (.input .float "c"))
        (.leaf 1 (.input .float "b"))) (.leaf 0 (.input .float "a")) ∧
      UsesOnce .float 3 (threeTerms .float) added total ∧ total.lane counting amounts 0 = 321) ∧
    ∃ violation, ((sum (threeTerms .float2)).runFrom 3).1 = .error (.violated violation) := by
  constructor
  · obtain ⟨-, -, -, htyped, -⟩ := sum_adds_from_last (threeTerms .float) 3
    obtain ⟨total, added, hnested, -, honce, hrun, hvalue⟩ :=
      htyped .float (by simp [threeTerms]) (by decide)
    refine ⟨total, added, hrun, (Option.some.inj hnested).symm, honce, ?_⟩
    exact hvalue counting amounts (fun n => n) (fun _ _ => rfl) (·.lane counting amounts 0) 0
      (fun _ _ => rfl) _ (List.Perm.refl _)
  · obtain ⟨-, -, -, -, hmixed⟩ := sum_adds_from_last (threeTerms .float2) 3
    exact hmixed.2 ⟨.leaf 0 (.input .float2 "a"), by simp [threeTerms],
      .leaf 1 (.input .float "b"), by simp [threeTerms], by decide⟩

end ShaderAlgebra.Formula
