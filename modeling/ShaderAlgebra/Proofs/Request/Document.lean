import ShaderAlgebra.Proofs.Json.Reorder
import ShaderAlgebra.Request.Read

/-!
# The request of a document

A document describes a request or none. Only the value of the document matters, and not
the order of its members: an operand fits a form by the members that the form knows,
each given once, and the fields of a request are read one by one into places of
their own.
-/

namespace ShaderAlgebra.Request

open Json (Value Document Number stringOf?)

namespace Operand

variable {members members' : List (String × Value)} {v v' : Value} {key : String}

/-- The same members in another order, but for the order of members in their values. -/
def SameMembers (members members' : List (String × Value)) : Prop :=
  ∃ middle, List.Forall₂ (fun m m' => m.1 = m'.1 ∧ m.2.Reordered m'.2) members middle ∧
    middle.Perm members'

theorem SameMembers.member? (h : SameMembers members members') (key : String) :
    Option.Rel (Option.Rel Value.Reordered) (member? key members) (member? key members') := by
  obtain ⟨middle, hvalues, hperm⟩ := h
  have hfilter : List.Forall₂ (fun m m' => m.1 = m'.1 ∧ m.2.Reordered m'.2)
      (members.filter (·.1 = key)) (middle.filter (·.1 = key)) := by
    refine List.rel_filter (fun m m' hm => ?_) hvalues
    simp [hm.1]
  have hsame := hperm.filter (·.1 = key)
  unfold Request.member?
  generalize members.filter (·.1 = key) = found at hfilter ⊢
  generalize middle.filter (·.1 = key) = between at hfilter hsame
  generalize members'.filter (·.1 = key) = found' at hsame ⊢
  rcases hfilter with _ | ⟨hm, _ | ⟨hm₂, hms⟩⟩
  · obtain rfl := List.nil_perm.1 hsame
    exact .some .none
  · obtain rfl := List.singleton_perm.1 hsame
    exact .some (.some hm.2)
  · match found', hsame.length_eq with
    | _ :: _ :: _, _ => exact .none

/-- What is made of the only member of a key, if it takes related values for the same. -/
theorem SameMembers.bind_eq {α : Type} {g : Option Value → Option α}
    (h : SameMembers members members')
    (hg : ∀ v v', v.Reordered v' → g (some v) = g (some v')) (key : String) :
    (Request.member? key members).bind g = (Request.member? key members').bind g := by
  have hmember := h.member? key
  generalize Request.member? key members = found at hmember ⊢
  generalize Request.member? key members' = found' at hmember ⊢
  cases hmember with
  | none => rfl
  | some hfound =>
    cases hfound with
    | none => rfl
    | some hv => exact hg _ _ hv

theorem typeOfValue?_eq (h : v.Reordered v') : typeOfValue? v = typeOfValue? v' := by
  cases h with
  | null | bool | number | string | list => rfl
  | @object members middle members' hkeys hvalues hperm =>
    rcases Json.forall₂_pairs hkeys hvalues with _ | ⟨⟨hkey, hvalue⟩, _ | ⟨-, hms⟩⟩
    · obtain rfl := List.nil_perm.1 hperm
      rfl
    · obtain rfl := List.singleton_perm.1 hperm
      rename_i m m'
      obtain ⟨name, value⟩ := m
      obtain ⟨name', value'⟩ := m'
      obtain rfl : name = name' := hkey
      cases hvalue <;> rfl
    · have hnone (m m' : String × Value) (ms : List (String × Value)) :
          typeOfValue? (.object (m :: m' :: ms)) = none := by
        obtain ⟨name, value⟩ := m
        cases value <;> rfl
      match members', hperm.length_eq with
      | _ :: _ :: _, _ => rw [hnone, hnone]

theorem nameOfValue?_eq (h : v.Reordered v') :
    nameOfValue? (some v) = nameOfValue? (some v') := by
  cases h <;> rfl

theorem mapM_singleOfValue?_eq {items items' : List Value}
    (h : List.Forall₂ Value.Reordered items items') :
    items.mapM singleOfValue? = items'.mapM singleOfValue? := by
  induction h with
  | nil => rfl
  | @cons v v' _ _ hv _ ih =>
    have hsingle : singleOfValue? v = singleOfValue? v' := by cases hv <;> rfl
    rw [List.mapM_cons, List.mapM_cons, hsingle, ih]

theorem ofInput?_eq (h : SameMembers members members') : ofInput? members = ofInput? members' := by
  have hparts (ms : List (String × Value)) :
      ofInput? ms = (Request.member? "input" ms).bind fun found =>
        (found.bind typeOfValue?).bind fun t =>
          ((Request.member? "name" ms).bind nameOfValue?).map (.input t ·) := by
    unfold ofInput?
    cases Request.member? "input" ms with
    | none => rfl
    | some found =>
      cases found with
      | none => rfl
      | some v => cases Request.member? "name" ms <;> simp [Option.map_eq_bind]
  rw [hparts, hparts, h.bind_eq (fun _ _ hv => nameOfValue?_eq hv) "name"]
  refine h.bind_eq (fun v v' hv => ?_) "input"
  rw [Option.bind_some, Option.bind_some, typeOfValue?_eq hv]

theorem ofFloats?_eq (h : SameMembers members members') :
    ofFloats? members = ofFloats? members' := by
  refine h.bind_eq (fun v v' hv => ?_) "const"
  cases hv with
  | null | bool | number | string | object => rfl
  | list hitems =>
    dsimp only
    rw [mapM_singleOfValue?_eq hitems]

theorem ofUInt?_eq (h : SameMembers members members') : ofUInt? members = ofUInt? members' := by
  refine h.bind_eq (fun v v' hv => ?_) "uint"
  cases hv <;> rfl

theorem ofInt?_eq (h : SameMembers members members') : ofInt? members = ofInt? members' := by
  refine h.bind_eq (fun v v' hv => ?_) "int"
  cases hv <;> rfl

/-- The form that a value fits does not depend on the order of members. -/
theorem ofValue?_eq (h : v.Reordered v') : ofValue? v = ofValue? v' := by
  cases h with
  | null | bool | number | string | list => rfl
  | object hkeys hvalues hperm =>
    have hmembers : SameMembers _ _ := ⟨_, Json.forall₂_pairs hkeys hvalues, hperm⟩
    rw [ofValue?, ofValue?, ofInput?_eq hmembers, ofFloats?_eq hmembers, ofUInt?_eq hmembers,
      ofInt?_eq hmembers]

end Operand

/-! ### Requests -/

def operatorOf? : Document → Option Operator
  | .string us => (stringOf? us).bind Operator.ofName?
  | .object [(us, .null)] => (stringOf? us).bind Operator.ofName?
  | _ => none

def operandOf? (d : Document) : Option Operand :=
  (d.value? (depthLimit - 2)).bind Operand.ofValue?

def inputsOf? : Document → Option (List Operand)
  | .list items => items.mapM operandOf?
  | _ => none

def fieldOf? (fields : Reading.Fields) (m : List Nat × Document) : Option Reading.Fields := do
  let key ← stringOf? m.1
  if key = Field.operator.name then
    if fields.operator.isSome then none
    else return { fields with operator := some (← operatorOf? m.2) }
  else if key = Field.inputs.name then
    if fields.inputs.isSome then none
    else return { fields with inputs := some (← inputsOf? m.2) }
  else none

/-- The request that a document describes: an object with the two fields in any order, or a list
of the two. -/
def requestOf? : Document → Option Request
  | .object members => do
    let fields ← members.foldlM fieldOf? {}
    return ⟨← fields.operator, fields.inputs.getD []⟩
  | .list [op] => return ⟨← operatorOf? op, []⟩
  | .list [op, inputs] => return ⟨← operatorOf? op, ← inputsOf? inputs⟩
  | _ => none

variable {d d' : Document}

theorem operatorOf?_eq (h : d.Reordered d') : operatorOf? d = operatorOf? d' := by
  cases h with
  | null | bool | number | string | list => rfl
  | @object members middle members' hkeys hvalues hperm =>
    rcases Json.forall₂_pairs hkeys hvalues with _ | ⟨⟨hkey, hvalue⟩, _ | ⟨-, hms⟩⟩
    · obtain rfl := List.nil_perm.1 hperm
      rfl
    · obtain rfl := List.singleton_perm.1 hperm
      rename_i m m'
      obtain ⟨us, value⟩ := m
      obtain ⟨us', value'⟩ := m'
      obtain rfl : us = us' := hkey
      cases hvalue <;> rfl
    · have hnone (m m' : List Nat × Document) (ms : List (List Nat × Document)) :
          operatorOf? (.object (m :: m' :: ms)) = none := by
        obtain ⟨us, value⟩ := m
        cases value <;> rfl
      match members', hperm.length_eq with
      | _ :: _ :: _, _ => rw [hnone, hnone]

theorem operandOf?_eq (h : d.Reordered d') : operandOf? d = operandOf? d' := by
  have hvalue : Option.Rel Value.Reordered (d.value? (depthLimit - 2)) (d'.value? (depthLimit - 2)) :=
    h.rel_value?
  unfold operandOf?
  generalize d.value? (depthLimit - 2) = v at hvalue ⊢
  generalize d'.value? (depthLimit - 2) = v' at hvalue ⊢
  cases hvalue with
  | none => rfl
  | some hv => exact Operand.ofValue?_eq hv

theorem inputsOf?_eq (h : d.Reordered d') : inputsOf? d = inputsOf? d' := by
  cases h with
  | null | bool | number | string | object => rfl
  | list hitems =>
    rw [inputsOf?, inputsOf?]
    induction hitems with
    | nil => rfl
    | cons hitem _ ih => rw [List.mapM_cons, List.mapM_cons, operandOf?_eq hitem, ih]

theorem fieldOf?_eq {fields : Reading.Fields} {m m' : List Nat × Document} (hkey : m.1 = m'.1)
    (h : m.2.Reordered m'.2) : fieldOf? fields m = fieldOf? fields m' := by
  rw [fieldOf?, fieldOf?, hkey, operatorOf?_eq h, inputsOf?_eq h]

section Fields

variable {fields : Reading.Fields} {m m' : List Nat × Document}

theorem fieldOf?_operator (h : stringOf? m.1 = some Field.operator.name) :
    fieldOf? fields m = if fields.operator.isSome then none
      else (operatorOf? m.2).map fun op => { fields with operator := some op } := by
  rw [fieldOf?, h, Option.bind_eq_bind, Option.bind_some, if_pos rfl, Option.map_eq_bind]
  rfl

theorem fieldOf?_inputs (h : stringOf? m.1 = some Field.inputs.name) :
    fieldOf? fields m = if fields.inputs.isSome then none
      else (inputsOf? m.2).map fun os => { fields with inputs := some os } := by
  rw [fieldOf?, h, Option.bind_eq_bind, Option.bind_some, if_neg (by decide), if_pos rfl,
    Option.map_eq_bind]
  rfl

/-- A member is one of the two fields, or is refused. -/
theorem field_cases (m : List Nat × Document) :
    stringOf? m.1 = some Field.operator.name ∨ stringOf? m.1 = some Field.inputs.name ∨
      ∀ fields, fieldOf? fields m = none := by
  cases hkey : stringOf? m.1 with
  | none =>
    refine .inr (.inr fun fields => ?_)
    rw [fieldOf?, hkey]
    rfl
  | some key =>
    by_cases hoperator : key = Field.operator.name
    · exact .inl (congrArg some hoperator)
    by_cases hinputs : key = Field.inputs.name
    · exact .inr (.inl (congrArg some hinputs))
    refine .inr (.inr fun fields => ?_)
    rw [fieldOf?, hkey, Option.bind_eq_bind, Option.bind_some, if_neg hoperator, if_neg hinputs]

theorem fieldOf?_operator_inputs (h : stringOf? m.1 = some Field.operator.name)
    (h' : stringOf? m'.1 = some Field.inputs.name) :
    (fieldOf? fields m).bind (fieldOf? · m') = (fieldOf? fields m').bind (fieldOf? · m) := by
  simp only [fieldOf?_operator h, fieldOf?_inputs h']
  cases fields.operator <;> cases fields.inputs <;> cases operatorOf? m.2 <;>
    cases inputsOf? m'.2 <;> rfl

/-- The two fields have places of their own, so it does not matter which comes first. -/
theorem fieldOf?_comm (fields : Reading.Fields) (m m' : List Nat × Document) :
    (fieldOf? fields m).bind (fieldOf? · m') = (fieldOf? fields m').bind (fieldOf? · m) := by
  rcases field_cases m with h | h | h
  · rcases field_cases m' with h' | h' | h'
    · -- A field that is given twice is refused either way.
      simp only [fieldOf?_operator h, fieldOf?_operator h']
      cases fields.operator <;> cases operatorOf? m.2 <;> cases operatorOf? m'.2 <;> rfl
    · exact fieldOf?_operator_inputs h h'
    · simp [h']
  · rcases field_cases m' with h' | h' | h'
    · exact (fieldOf?_operator_inputs h' h).symm
    · simp only [fieldOf?_inputs h, fieldOf?_inputs h']
      cases fields.inputs <;> cases inputsOf? m.2 <;> cases inputsOf? m'.2 <;> rfl
    · simp [h']
  · simp [h]

end Fields

theorem foldlM_perm {α β : Type} {f : β → α → Option β} {xs ys : List α}
    (hcomm : ∀ b x y, (f b x).bind (f · y) = (f b y).bind (f · x)) (h : xs.Perm ys) (b : β) :
    xs.foldlM f b = ys.foldlM f b := by
  induction h generalizing b with
  | nil => rfl
  | @cons x xs ys _ ih =>
    rw [List.foldlM_cons, List.foldlM_cons]
    exact congrArg (f b x).bind (funext ih)
  | swap x y xs =>
    have hstep := congrArg (·.bind fun c => xs.foldlM f c) (hcomm b y x)
    simpa [List.foldlM_cons, Option.bind_assoc] using hstep
  | trans _ _ ih₁ ih₂ => rw [ih₁, ih₂]

/-- The order of members does not matter to what a document describes. -/
theorem requestOf?_eq (h : d.Reordered d') : requestOf? d = requestOf? d' := by
  cases h with
  | null | bool | number | string => rfl
  | list hitems =>
    rcases hitems with _ | ⟨hop, _ | ⟨hinputs, _ | ⟨-, -⟩⟩⟩
    · rfl
    · simp only [requestOf?, operatorOf?_eq hop]
    · simp only [requestOf?, operatorOf?_eq hop, inputsOf?_eq hinputs]
    · rfl
  | @object members middle members' hkeys hvalues hperm =>
    have hfields (fields : Reading.Fields) :
        members.foldlM fieldOf? fields = middle.foldlM fieldOf? fields := by
      have hpairs := Json.forall₂_pairs hkeys hvalues
      clear hkeys hvalues hperm
      induction hpairs generalizing fields with
      | nil => rfl
      | @cons m m' _ _ hm _ ih =>
        rw [List.foldlM_cons, List.foldlM_cons, fieldOf?_eq hm.1 hm.2]
        exact congrArg (fieldOf? fields m').bind (funext ih)
    rw [requestOf?, requestOf?, hfields, foldlM_perm fieldOf?_comm hperm]

end ShaderAlgebra.Request
