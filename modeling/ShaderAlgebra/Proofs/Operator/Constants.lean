import ShaderAlgebra.Proofs.Operator.Typing

/-!
# The constants of formulas

Which constants a call adds to its results, beside those of its operands. A
formula's numbers are splatted to the type of its operands, and an integer type
keeps of a number its whole part only. So on integers some operators compute
with other numbers than their formula says; these are exactly the operators
whose formula has a fraction and that accept integers.
-/

namespace ShaderAlgebra

def Node.constant? {α : Type} : Node α → Option Constant
  | .leaf (.constant c) => some c
  | _ => none

theorem Node.constant?_eq_some_iff {α : Type} {n : Node α} {c : Constant} :
    n.constant? = some c ↔ n = .leaf (.constant c) := by
  unfold constant?
  split <;> simp_all

namespace Expr

/-- The constants at the places of an expression. -/
def constants (e : Expr) : List Constant := e.nodes.filterMap (·.node.constant?)

variable {e x : Expr} {c : Constant}

theorem mem_constants : c ∈ e.constants ↔ ∃ x ∈ e.nodes, x.node.constant? = some c :=
  List.mem_filterMap

/-- A constant of an expression is its own or one of an operand. -/
theorem mem_constants_cases :
    c ∈ e.constants ↔ e.node.constant? = some c ∨ ∃ a ∈ e.operands, c ∈ a.constants := by
  constructor
  · intro h
    obtain ⟨x, hx, hc⟩ := mem_constants.1 h
    rcases mem_nodes.1 hx with rfl | ⟨a, ha, hxa⟩
    · exact .inl hc
    · exact .inr ⟨a, ha, mem_constants.2 ⟨x, hxa, hc⟩⟩
  · rintro (hc | ⟨a, ha, hca⟩)
    · exact mem_constants.2 ⟨e, self_mem_nodes e, hc⟩
    · obtain ⟨x, hx, hc⟩ := mem_constants.1 hca
      exact mem_constants.2 ⟨x, mem_nodes_of_operand ha hx, hc⟩

end Expr

theorem Node.Rel.constant?_eq {α β : Type} {R : α → β → Prop} {m : Node α} {n : Node β}
    (h : m.Rel R n) : m.constant? = n.constant? := by
  cases h with
  | leaf l => cases l <;> rfl
  | unary | binary | vec2 | vec3 | vec4 => rfl

namespace Operator

open ShaderAlgebra.Expr Build Formula Correspondence ValueType

variable {op : Operator} {operands outs : List Expr} {fails : Failure → Prop}

section Correspondence

/-- A node of an expression that is not a node of an operand is a constant of another
expression if it is a constant at all. -/
def AddsWithin (operands : List Expr) (e e' : Expr) : Prop :=
  ∀ x ∈ e.nodes, (∀ a ∈ operands, x ∉ a.nodes) →
    ∀ c, x.node.constant? = some c → c ∈ e'.constants

/-- A node that was made at the identity `start` or later, or one of the table of literals. -/
def AddedSince (start : Nat) (x : Expr) : Prop := start ≤ x.id ∨ ∃ l t, x = Literal.node l t

theorem AddedSince.not_before {start : Nat} {x : Expr} (h : AddedSince start x) :
    ¬(Literal.identities ≤ x.id ∧ x.id < start) := by
  rintro ⟨hliteral, hbefore⟩
  rcases h with hstart | ⟨l, t, rfl⟩
  · exact Nat.not_lt.2 hstart hbefore
  · exact Nat.not_lt.2 hliteral (l.identity_lt t)

/-- A run from the identity `start` on, beside a run on other operands: the second run shows
which constants the first one adds, and the first one does add what the second one has. -/
def adding (start : Nat) (operands : List Expr) : Correspondence Unit where
  Reached _ i _ := start ≤ i
  Related _ e e' := e.type = e'.type ∧ AddsWithin operands e e' ∧
    ∀ c ∈ e'.constants, ∃ x ∈ e.nodes, AddedSince start x ∧ x.node.constant? = some c
  mono _ h := h
  type_eq h := h.1
  literal _ l t := by
    refine ⟨rfl, fun x hx _ _ hc => mem_constants.2 ⟨x, hx, hc⟩, fun c hc => ?_⟩
    obtain ⟨x, hx, hxc⟩ := mem_constants.1 hc
    obtain rfl : x = l.node t := List.mem_singleton.1 hx
    exact ⟨_, hx, .inr ⟨l, t, rfl⟩, hxc⟩
  node := by
    rintro _ i j m n hi - hrel
    refine ⟨(), le_refl _, Nat.le_succ_of_le hi, hrel.type_eq (fun _ _ h => h.1) i j, ?_, ?_⟩
    · intro x hx hadded c hc
      rcases mem_nodes.1 hx with rfl | ⟨a, ha, hxa⟩
      · rw [node_ofNode, hrel.constant?_eq] at hc
        exact mem_constants_cases.2 (.inl (by rwa [node_ofNode]))
      · rw [Expr.operands, node_ofNode] at ha
        obtain ⟨b, hb, hab⟩ := exists_of_mem_forall₂ hrel.operands.flip ha
        have hcb := hab.2.1 x hxa hadded c hc
        exact mem_constants_cases.2 (.inr ⟨b, by rwa [Expr.operands, node_ofNode], hcb⟩)
    · intro c hc
      rcases mem_constants_cases.1 hc with hc | ⟨b, hb, hcb⟩
      · rw [node_ofNode, ← hrel.constant?_eq] at hc
        exact ⟨_, self_mem_nodes _, .inl (by rwa [id_ofNode]), by rwa [node_ofNode]⟩
      · rw [Expr.operands, node_ofNode] at hb
        obtain ⟨a, ha, hab⟩ := exists_of_mem_forall₂ hrel.operands hb
        obtain ⟨x, hx, hadded, hxc⟩ := hab.2.2 c hcb
        have hoperand : a ∈ (Expr.ofNode i m).operands := by rwa [Expr.operands, node_ofNode]
        exact ⟨x, mem_nodes_of_operand hoperand hx, hadded, hxc⟩

theorem constants_placeholder (t : ValueType) : (placeholder t).constants = [] := rfl

theorem adding_placeholder (start : Nat) (operands : List Expr) (t : ValueType) :
    (adding start operands).Related () (placeholder t) (placeholder t) :=
  ⟨rfl, fun x hx _ _ hc => mem_constants.2 ⟨x, hx, hc⟩, by simp [constants_placeholder]⟩

theorem forall₂_placeholder (start : Nat) (operands : List Expr) :
    List.Forall₂ ((adding start operands).Related ()) operands
      (operands.map fun e => placeholder e.type) := by
  rw [List.forall₂_map_right_iff, List.forall₂_same]
  intro e he
  refine ⟨rfl, ?_, by simp [constants_placeholder]⟩
  intro x hx hadded
  exact absurd hx (hadded e he)

end Correspondence

/-- The numbers in the formula of an operator, as floats. -/
def literals : Operator → List Single
  | negate => [-1]
  | saturate => [0, 1]
  | round | sqrt | length | distance | rectangularToPolar | rectangularToSpherical => [1 / 2]
  | atanh => [1, 1 / 2, Literal.e.value]
  | sinh | cosh => [-1, 1 / 2, Literal.e.value]
  | tanh => [1, -1, 2, Literal.e.value]
  | smoothstep => [0, 1, 2, 3]
  | degToRad => [Literal.pi.value / 180]
  | radToDeg => [180 / Literal.pi.value]
  | normalize => [1, 1 / 2]
  | circleArea | cylinderVolume => [Literal.pi.value]
  | circleCircumference => [Literal.tau.value]
  | sphereVolume => [4 / 3 * Literal.pi.value]
  | coneVolume => [Literal.pi.value / 3]
  | torusVolume => [Literal.pi.value, Literal.tau.value]
  | gammaToLinear => [gamma]
  | linearToGamma => [1 / gamma]
  | vanDerCorputSequence => [.ofRatio .single false 1 UInt32.size]
  | _ => []

/-- The numbers of formulas that an integer type can hold. -/
def wholeLiterals : List Single := [0, 1, -1, 2, 3]

/-- Constants that are no number in each channel: the weights of colours, and the masks and
distances of bit operations. -/
def tables : Operator → List Constant
  | colorLuma => [.float3 lumaWeights.1 lumaWeights.2.1 lumaWeights.2.2,
      .float4 lumaWeights.1 lumaWeights.2.1 lumaWeights.2.2 0]
  | vanDerCorputSequence => .uint 16 ::
      swapStages.flatMap fun stage => [.uint stage.1, .uint (~~~stage.1), .uint stage.2]
  | _ => []

/-- A constant of an operator's formula, or the filler of a conversion. An integer constant
holds a whole number. -/
def Holds (op : Operator) (c : Constant) : Prop :=
  c = .float 0 ∨ c ∈ op.tables ∨
    ∃ v ∈ op.literals, c = .splat v c.type ∧ (c.type.isFloat = true ∨ v ∈ wholeLiterals)

/-- A constant that holds the whole part of a fraction in an operator's formula. -/
def Truncates (op : Operator) (c : Constant) : Prop :=
  ∃ v ∈ op.literals, v ∉ wholeLiterals ∧ c = .splat v c.type ∧ c.type.isFloat = false

instance (op : Operator) (c : Constant) : Decidable (op.Holds c) :=
  inferInstanceAs (Decidable (_ ∨ _ ∨ _))

instance (op : Operator) (c : Constant) : Decidable (op.Truncates c) :=
  inferInstanceAs (Decidable (∃ v ∈ op.literals, _))

/-- The operators that have a fraction in their formula and accept integers. -/
def roundsLiterals : Operator → Bool
  | round | atanh | sinh | cosh | tanh | sqrt | length | distance | circleArea
  | circleCircumference | sphereVolume | cylinderVolume | coneVolume | torusVolume => true
  | _ => false

section Runs

def constantsOf : Except Failure (List Expr) → List Constant
  | .ok outs => outs.flatMap constants
  | .error _ => []

variable {outcome : Except Failure (List Expr)} {start : Nat}

/-- A constant that a run adds shows in a run beside it. -/
theorem mem_constantsOf_of_agree
    (h : Agree (List.Forall₂ ((adding start operands).Related ())) (.ok outs) outcome)
    {out x : Expr}
    (hout : out ∈ outs) (hx : x ∈ out.nodes) (hadded : ∀ a ∈ operands, x ∉ a.nodes)
    {c : Constant} (hc : x.node.constant? = some c) : c ∈ constantsOf outcome := by
  cases h with
  | ok houts =>
    obtain ⟨out', hout', hrelated⟩ := exists_of_mem_forall₂ houts.flip hout
    exact List.mem_flatMap.2 ⟨out', hout', hrelated.2.1 x hx hadded c hc⟩

theorem exists_added_of_agree
    (h : Agree (List.Forall₂ ((adding start operands).Related ())) (.ok outs) outcome)
    {c : Constant} (hc : c ∈ constantsOf outcome) :
    ∃ out ∈ outs, ∃ x ∈ out.nodes, AddedSince start x ∧ x.node.constant? = some c := by
  cases h with
  | ok houts =>
    obtain ⟨out', hout', hcout⟩ := List.mem_flatMap.1 hc
    obtain ⟨out, hout, hrelated⟩ := exists_of_mem_forall₂ houts hout'
    exact ⟨out, hout, hrelated.2.2 c hcout⟩

/-- The run of an operator on operands of which only the types matter. -/
def typicalRun (op : Operator) (types : List ValueType) : Except Failure (List Expr) :=
  ((op.apply (types.map placeholder)).runFrom 0).1

theorem holds_of_not_unifies {types : List ValueType} (h : op.unifies = false)
    (hcount : types.length = op.arity)
    (hexact : op.roundsLiterals = true → ∀ t ∈ types, t.isFloat = true) :
    ∀ c ∈ constantsOf (op.typicalRun types), op.Holds c := by
  revert hexact
  refine cases_of_not_unifies ?_ ?_ ?_ ?_ h hcount
  · intro t lo hi
    cases t <;> cases lo <;> cases hi <;> decide
  · intro theta r
    cases theta <;> cases r <;> decide
  · intro theta phi r
    cases theta <;> cases phi <;> cases r <;> decide
  · -- Some formulas repeat the operand at many places of the tree.
    intro op hop t
    cases op <;> first | exact absurd hop (by decide) | (cases t <;> decide +kernel)

/-- On operands of one type there are six cases for each operator. -/
theorem holds_of_unifies {t : ValueType} (h : op.unifies = true)
    (hexact : op.roundsLiterals = true → t.isFloat = true) :
    ∀ c ∈ constantsOf ((op.build (List.replicate op.arity (placeholder t))).runFrom 0).1,
      op.Holds c := by
  cases op with
  | log | lerp | fit | modulo | smoothstep | discretize | dot | distance | sqrDistance
  | cylinderVolume | coneVolume | torusVolume | signedDistanceToPlane =>
    cases t <;> first | decide | exact absurd (hexact rfl) (by decide)
  | _ => cases h

/-- A conversion adds its filler alone. -/
theorem cast_placeholder_constants {s t : ValueType} (hs : s.isFloat = true)
    (ht : t.isFloat = true) :
    Meets fails (cast (placeholder s) t 0) fun e => ∀ c ∈ e.constants, c = .float 0 := by
  obtain ⟨e', hrun', hfillers⟩ : ∃ e', ((cast (placeholder s) t 0).runFrom 0).1 = .ok e' ∧
      ∀ c ∈ e'.constants, c = .float 0 := by
    cases s with
    | int | uint => cases hs
    | float | float2 | float3 | float4 =>
      cases t with
      | int | uint => cases ht
      | float | float2 | float3 | float4 => exact ⟨_, rfl, by decide⟩
  intro next
  have hside : (adding next []).Simulates () (cast (placeholder s) t 0)
      (cast (placeholder s) t 0) (adding next []).Related :=
    cast_simulates (adding_placeholder next [] s)
  obtain ⟨_, -, -, hagree⟩ := hside next 0 (le_refl next)
  rw [hrun'] at hagree
  generalize ((cast (placeholder s) t 0).runFrom next).1 = outcome at hagree
  cases hagree with
  | ok hrelated =>
    intro c hc
    obtain ⟨x, hx, hxc⟩ := mem_constants.1 hc
    exact hfillers c (hrelated.2.1 x hx (by simp) c hxc)

theorem widen_placeholder_constants (types : List ValueType) :
    Meets fails (widen (types.map placeholder) 0) fun es =>
      es.map (·.type) = widened types ∧ ∀ e ∈ es, ∀ c ∈ e.constants, c = .float 0 := by
  have hself (t : ValueType) : ∀ c ∈ (placeholder t).constants, c = .float 0 := by
    simp [constants_placeholder]
  have hwell : ∀ e ∈ types.map placeholder, e.WellFormed := by
    intro e he
    obtain ⟨t, -, rfl⟩ := List.mem_map.1 he
    exact wellFormed_placeholder t
  refine Meets.and (by simpa [Function.comp_def, type_placeholder] using widen_types hwell) ?_
  have hplaceholders : ∀ e ∈ types.map placeholder, ∀ c ∈ e.constants, c = .float 0 := by
    intro e he
    obtain ⟨t, -, rfl⟩ := List.mem_map.1 he
    exact hself t
  unfold widen
  split
  next target htarget =>
    split
    · exact Meets.pure hplaceholders
    · refine (Meets.mapM fun e he => ?_).imp fun es hes => hes.2
      have hfloat := isFloat_of_widest? htarget he
      obtain ⟨t, -, rfl⟩ := List.mem_map.1 he
      split
      next ht => exact cast_placeholder_constants ht (hfloat ht)
      · exact Meets.pure (hself t)
  · exact Meets.pure hplaceholders

theorem build_holds_of_types {es : List Expr} {t : ValueType} (h : op.unifies = true)
    (hcount : es.length = op.arity) (htypes : ∀ e ∈ es, e.type = t)
    (hconstants : ∀ e ∈ es, ∀ c ∈ e.constants, c = .float 0)
    (hexact : op.roundsLiterals = true → t.isFloat = true) :
    Meets (fun _ => True) (op.build es) fun outs =>
      ∀ out ∈ outs, ∀ c ∈ out.constants, op.Holds c := by
  intro next
  have hsame : es.map (fun e => placeholder e.type) = List.replicate op.arity (placeholder t) := by
    rw [← hcount, List.eq_replicate_iff]
    refine ⟨List.length_map .., ?_⟩
    intro e he
    obtain ⟨a, ha, rfl⟩ := List.mem_map.1 he
    rw [htypes a ha]
  have hside : (adding next es).Simulates () (op.build es)
      (op.build (es.map fun e => placeholder e.type)) _ :=
    build_simulates (forall₂_placeholder next es)
  rw [hsame] at hside
  obtain ⟨_, -, -, hagree⟩ := hside next 0 (le_refl next)
  cases hrun : ((op.build es).runFrom next).1 with
  | error failure => trivial
  | ok outs =>
    rw [hrun] at hagree
    intro out hout c hc
    obtain ⟨x, hx, hxc⟩ := mem_constants.1 hc
    by_cases hold : ∃ e ∈ es, x ∈ e.nodes
    · obtain ⟨e, he, hxe⟩ := hold
      exact .inl (hconstants e he c (mem_constants.2 ⟨x, hxe, hxc⟩))
    · have hadded : ∀ e ∈ es, x ∉ e.nodes := fun e he hxe => hold ⟨e, he, hxe⟩
      exact holds_of_unifies h hexact c (mem_constantsOf_of_agree hagree hout hx hadded hxc)

theorem apply_holds_of_unifies {types : List ValueType} (h : op.unifies = true)
    (hcount : types.length = op.arity)
    (hexact : op.roundsLiterals = true → ∀ t ∈ types, t.isFloat = true) :
    Meets (fun _ => True) (op.apply (types.map placeholder)) fun outs =>
      ∀ out ∈ outs, ∀ c ∈ out.constants, op.Holds c := by
  unfold Operator.apply
  rw [if_neg (by simpa using hcount), if_pos h]
  unfold unify
  apply (widen_placeholder_constants types).bind
  rintro es ⟨htypes, hconstants⟩
  dsimp only
  rw [commonType_eq, htypes]
  cases hagreed : agreed (widened types) with
  | error e => exact Meets.refuse trivial
  | ok t =>
    obtain ⟨hne, hsame⟩ := agreed_eq_ok_iff.1 hagreed
    have hlength : es.length = op.arity := by
      simpa [widened, hcount] using congrArg List.length htypes
    refine build_holds_of_types (t := t) h hlength ?_ hconstants ?_
    · intro e he
      exact hsame e.type (htypes ▸ List.mem_map_of_mem he)
    · intro hrounds
      obtain ⟨s, hs⟩ := List.exists_mem_of_ne_nil _ hne
      rw [← hsame s hs]
      obtain ⟨r, hr, rfl⟩ := List.mem_map.1 hs
      rw [if_pos (hexact hrounds r hr)]
      exact isFloat_widestFloat types

theorem holds_typicalRun {types : List ValueType} (hcount : types.length = op.arity)
    (hexact : op.roundsLiterals = true → ∀ t ∈ types, t.isFloat = true) :
    ∀ c ∈ constantsOf (op.typicalRun types), op.Holds c := by
  cases hunifies : op.unifies with
  | false => exact holds_of_not_unifies hunifies hcount hexact
  | true =>
    have hmeets := apply_holds_of_unifies hunifies hcount hexact 0
    intro c hc
    unfold typicalRun at hc
    cases hrun : ((op.apply (types.map placeholder)).runFrom 0).1 with
    | error failure =>
      rw [hrun] at hc
      cases hc
    | ok outs =>
      rw [hrun] at hc hmeets
      obtain ⟨out, hout, hcout⟩ := List.mem_flatMap.1 hc
      exact hmeets out hout c hcout

/-- On integers a literal is truncated, whichever of them it is. -/
theorem exists_truncates {t : ValueType} (h : op.roundsLiterals = true) (ht : t.isFloat = false) :
    ∃ c ∈ constantsOf (op.typicalRun (List.replicate op.arity t)), op.Truncates c := by
  cases op with
  | round | atanh | sinh | cosh | tanh | sqrt | length | distance | circleArea
  | circleCircumference | sphereVolume | cylinderVolume | coneVolume | torusVolume =>
    cases t with
    | int | uint => decide
    | float | float2 | float3 | float4 => cases ht
  | _ => cases h

end Runs

theorem arity_of_roundsLiterals (h : op.roundsLiterals = true) (hunifies : op.unifies = false) :
    op.arity = 1 := by
  revert h hunifies
  cases op <;> decide

/-- Operators whose literals an integer type truncates take integers of one type only. -/
theorem exists_type_of_roundsLiterals (h : op.roundsLiterals = true) {next : Nat}
    (hrun : ((op.apply operands).runFrom next).1 = .ok outs)
    (hinteger : ∃ e ∈ operands, e.type.isFloat = false) :
    ∃ t, t.isFloat = false ∧ operands.map (·.type) = List.replicate op.arity t := by
  have hfollows := apply_follows op operands next
  rw [hrun] at hfollows
  have hcount : operands.length = op.arity := by
    by_contra hcount
    unfold typing at hfollows
    rw [if_pos (by simpa using hcount)] at hfollows
    cases hfollows
  obtain ⟨e, he, hint⟩ := hinteger
  refine ⟨e.type, hint, List.eq_replicate_iff.2 ⟨by simpa using hcount, ?_⟩⟩
  cases hunifies : op.unifies with
  | true =>
    have hok := (exists_typing_iff_of_unifies hunifies (by simpa using hcount)).1
      ((exists_ok_iff hfollows).1 ⟨outs, rfl⟩)
    rcases hok with hfloats | ⟨t, -, hsame⟩
    · rw [hfloats e.type (List.mem_map_of_mem he)] at hint
      cases hint
    · intro s hs
      rw [hsame s hs, hsame e.type (List.mem_map_of_mem he)]
  | false =>
    obtain ⟨x, rfl⟩ := List.length_eq_one_iff.1
      (hcount.trans (arity_of_roundsLiterals h hunifies))
    rw [List.mem_singleton] at he
    simp [he]

/-- Which constants an accepted call adds. They are the constants of the operator's formula,
whole numbers where they are integers, unless the formula has a fraction and the operands are
integers: in that case the call adds a truncated fraction, which it makes or takes from the table
of literals, and so is in no operand that was made before and has no node of that table. -/
theorem apply_constants (op : Operator) (operands : List Expr) (next : Nat)
    (h : ((op.apply operands).runFrom next).1 = .ok outs) :
    (¬(op.roundsLiterals = true ∧ ∃ e ∈ operands, e.type.isFloat = false) →
      ∀ out ∈ outs, ∀ x ∈ out.nodes, (∀ a ∈ operands, x ∉ a.nodes) →
        ∀ c, x.node = .leaf (.constant c) → op.Holds c) ∧
    ((op.roundsLiterals = true ∧ ∃ e ∈ operands, e.type.isFloat = false) →
      ∃ out ∈ outs, ∃ x ∈ out.nodes, AddedSince next x ∧
        (∀ a ∈ operands, (∀ y ∈ a.nodes, Literal.identities ≤ y.id ∧ y.id < next) →
          x ∉ a.nodes) ∧
        ∃ c, x.node = .leaf (.constant c) ∧ op.Truncates c) := by
  let types := operands.map (·.type)
  have hcount : types.length = op.arity := by
    by_contra hcount
    unfold Operator.apply at h
    rw [if_pos (by simpa [types] using hcount)] at h
    cases h
  have hagree : Agree (List.Forall₂ ((adding next operands).Related ())) (.ok outs)
      (op.typicalRun types) := by
    have hside := apply_simulates op (forall₂_placeholder next operands)
    obtain ⟨_, -, -, hagree⟩ := hside next 0 (le_refl next)
    rw [h] at hagree
    rwa [typicalRun, List.map_map]
  constructor
  · intro hexact out hout x hx hadded c hc
    have hshown : c ∈ constantsOf (op.typicalRun types) :=
      mem_constantsOf_of_agree hagree hout hx hadded (Node.constant?_eq_some_iff.2 hc)
    refine holds_typicalRun hcount ?_ c hshown
    intro hrounds t ht
    obtain ⟨e, he, rfl⟩ := List.mem_map.1 ht
    by_contra hint
    exact hexact ⟨hrounds, e, he, by simpa using hint⟩
  · rintro ⟨hrounds, hinteger⟩
    obtain ⟨t, ht, htypes⟩ := exists_type_of_roundsLiterals hrounds h hinteger
    obtain ⟨c, hc, htruncates⟩ := exists_truncates hrounds ht
    rw [← htypes] at hc
    obtain ⟨out, hout, x, hx, hadded, hxc⟩ := exists_added_of_agree hagree hc
    refine ⟨out, hout, x, hx, hadded, ?_, c, Node.constant?_eq_some_iff.1 hxc, htruncates⟩
    intro a _ hbefore hxa
    exact absurd (hbefore x hxa) hadded.not_before

def floatPoints : List Expr := [.leaf 0 (.input .float2 "p"), .leaf 1 (.constant (.float 3))]

def four : Expr := .leaf Literal.identities (.constant (.int 4))

theorem apply_constants_floatPoints_four :
    (∃ outs, ((distance.apply floatPoints).runFrom 2).1 = .ok outs ∧
      ∀ out ∈ outs, ∀ x ∈ out.nodes, (∀ a ∈ floatPoints, x ∉ a.nodes) →
        ∀ c, x.node = .leaf (.constant c) → distance.Holds c) ∧
    ∃ outs, ((sqrt.apply [four]).runFrom (Literal.identities + 1)).1 = .ok outs ∧
      ∃ out ∈ outs, ∃ x ∈ out.nodes, x ∉ four.nodes ∧
        ∃ c, x.node = .leaf (.constant c) ∧ sqrt.Truncates c := by
  constructor
  · obtain ⟨outs, houts⟩ : ∃ outs, ((distance.apply floatPoints).runFrom 2).1 = .ok outs :=
      ⟨_, rfl⟩
    have hfloats : ¬(distance.roundsLiterals = true ∧
        ∃ e ∈ floatPoints, e.type.isFloat = false) := by decide
    exact ⟨outs, houts, (apply_constants distance floatPoints 2 houts).1 hfloats⟩
  · obtain ⟨outs, houts⟩ :
        ∃ outs, ((sqrt.apply [four]).runFrom (Literal.identities + 1)).1 = .ok outs := ⟨_, rfl⟩
    obtain ⟨out, hout, x, hx, -, hnew, hc⟩ :=
      (apply_constants sqrt [four] (Literal.identities + 1) houts).2 (by decide)
    exact ⟨outs, houts, out, hout, x, hx, hnew four (by decide) (by decide), hc⟩

/-- Not every constant that a call adds is one of the operator's formula: the square root of a
whole number is its power zero. -/
theorem exists_added_truncated_constant :
    ¬∀ (op : Operator) (operands outs : List Expr) (next : Nat),
      ((op.apply operands).runFrom next).1 = .ok outs →
        ∀ out ∈ outs, ∀ x ∈ out.nodes, (∀ a ∈ operands, x ∉ a.nodes) →
          ∀ c, x.node = .leaf (.constant c) → op.Holds c := by
  intro h
  let next := Literal.identities + 1
  let root : Expr := .binary next .pow four (Literal.half.node .int)
  have hrun : ((sqrt.apply [four]).runFrom next).1 = .ok [root] := rfl
  have hzero : sqrt.Holds (.int 0) :=
    h sqrt [four] [root] next hrun root (by decide) (Literal.half.node .int) (by decide)
      (by decide) (.int 0) rfl
  exact absurd hzero (by decide)

end Operator

end ShaderAlgebra
