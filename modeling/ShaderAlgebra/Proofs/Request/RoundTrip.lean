import ShaderAlgebra.Proofs.Json.Single
import ShaderAlgebra.Proofs.Json.Value

/-!
# Requests survive their written form

A written request is read back with the same operator and the same operands in
the same order. Names, integers and finite floats are the same. A component that
is no finite number is written as null, and then no form fits the operand, so the
request is not read at all.
-/

namespace ShaderAlgebra.Request

open Json (Scan Value Writes ascii stringText singleText)

/-! ### Operands -/

def singleValue (x : Single) : Value :=
  match Scan.number (bytesOfString (singleText x)) with
  | .ok (n, _) => .number n
  | .error _ => .null

theorem exists_singleValue {x : Single} (h : x.isFinite) :
    ∃ n, singleValue x = .number n ∧ singleOfNumber n = x ∧
      Scan.Takes Scan.number (bytesOfString (singleText x)) (.ok n) := by
  obtain ⟨y, hy, hx⟩ := Json.takes_number_single x h
  have hread := hy [] Json.Stops.nil
  rw [List.append_nil] at hread
  exact ⟨.real y, by rw [singleValue, hread]; rfl, hx, hy⟩

theorem singleText_of_not_finite {x : Single} (h : x.isFinite = false) : singleText x = "null" := by
  simp [singleText, h]

theorem singleValue_of_not_finite {x : Single} (h : x.isFinite = false) : singleValue x = .null := by
  rw [singleValue, singleText_of_not_finite h]
  rfl

theorem writes_single (depth : Nat) (x : Single) : Writes depth (singleValue x) (singleText x) := by
  cases h : x.isFinite with
  | true =>
    obtain ⟨n, hvalue, -, hnumber⟩ := exists_singleValue h
    rw [hvalue]
    exact Json.writes_number depth hnumber
  | false =>
    rw [singleValue_of_not_finite h, singleText_of_not_finite h]
    exact Json.writes_null depth

namespace Operand

def value : Operand → Value
  | input t none => .object [("input", .string t.name)]
  | input t (some name) => .object [("input", .string t.name), ("name", .string name)]
  | floats xs => .object [("const", .list (xs.map singleValue))]
  | uint n => .object [("uint", .number (.integer n.toNat))]
  | int n => .object [("int", .number (.integer n.toInt))]

theorem writes (depth : Nat) (o : Operand) : Writes (depth + 2) o.value o.json := by
  cases o with
  | input t name =>
    have htype : Writes (depth + 1) (.string t.name) (stringText t.name) := Json.writes_string _ _
    cases name with
    | none => exact Json.writes_object [("input", stringText t.name, .string t.name)] (by simpa)
    | some name =>
      have hname : Writes (depth + 1) (.string name) (stringText name) := Json.writes_string _ _
      exact Json.writes_object [("input", stringText t.name, .string t.name),
        ("name", stringText name, .string name)] (by simp [htype, hname])
  | floats xs =>
    have hlist : Writes (depth + 1) (.list (xs.map singleValue)) (listText (xs.map singleText)) :=
      Json.writes_list fun x _ => writes_single depth x
    exact Json.writes_object [("const", listText (xs.map singleText), .list (xs.map singleValue))]
      (by simpa)
  | uint n =>
    have hsmall : n.toNat < UInt64.size := Nat.lt_trans n.toNat_lt (by decide)
    have hnumber : Writes (depth + 1) (.number (.integer n.toNat)) (toString n.toNat) :=
      Json.writes_number _ (Scan.takes_number_nat hsmall)
    exact Json.writes_object [("uint", toString n.toNat, .number (.integer n.toNat))] (by simpa)
  | int n =>
    have hlow : Int64.minValue.toInt ≤ n.toInt := Int.le_trans (by decide) n.le_toInt
    have hhigh : n.toInt < UInt64.size := Int.lt_trans n.toInt_lt (by decide)
    have hnumber : Writes (depth + 1) (.number (.integer n.toInt)) (toString n.toInt) :=
      Json.writes_number _ (Scan.takes_number_int hlow hhigh)
    exact Json.writes_object [("int", toString n.toInt, .number (.integer n.toInt))] (by simpa)

def Finite : Operand → Prop
  | floats xs => ∀ x ∈ xs, x.isFinite
  | _ => True

instance : (o : Operand) → Decidable o.Finite
  | floats xs => inferInstanceAs (Decidable (∀ x ∈ xs, x.isFinite))
  | input _ _ | uint _ | int _ => .isTrue trivial

/-- The same operand, but for the values of its floats. -/
def SameShape : Operand → Operand → Prop
  | floats xs, floats ys => xs.length = ys.length
  | a, b => a = b

theorem SameShape.refl (o : Operand) : o.SameShape o := by
  cases o <;> rfl

theorem mapM_singleValue {xs : List Single} (h : ∀ x ∈ xs, x.isFinite) :
    (xs.map singleValue).mapM singleOfValue? = some xs := by
  induction xs with
  | nil => rfl
  | cons x xs ih =>
    obtain ⟨n, hvalue, hx, -⟩ := exists_singleValue (h x List.mem_cons_self)
    rw [List.map_cons, List.mapM_cons, hvalue, ih fun y hy => h y (List.mem_cons_of_mem x hy),
      singleOfValue?, hx]
    rfl

theorem mapM_singleValue_eq_none {xs : List Single} (h : ¬∀ x ∈ xs, x.isFinite) :
    (xs.map singleValue).mapM singleOfValue? = none := by
  induction xs with
  | nil => exact absurd (by simp) h
  | cons x xs ih =>
    rw [List.map_cons, List.mapM_cons]
    cases hx : x.isFinite with
    | false =>
      rw [singleValue_of_not_finite hx]
      rfl
    | true =>
      rw [ih fun hxs => h (by simpa [hx] using hxs)]
      cases singleOfValue? (singleValue x) <;> rfl

theorem ofValue?_input (t : ValueType) (name : Option String) :
    ofValue? (value (.input t name)) = some (.input t name) := by
  cases name with
  | none => simp [value, ofValue?, ofInput?, member?, typeOfValue?, nameOfValue?]
  | some name => simp [value, ofValue?, ofInput?, member?, typeOfValue?, nameOfValue?]

theorem ofValue?_uint (n : UInt32) : ofValue? (value (.uint n)) = some (.uint n) := by
  have hrange : 0 ≤ (n.toNat : Int) ∧ (n.toNat : Int) < UInt32.size :=
    ⟨Int.natCast_nonneg _, Int.ofNat_lt.mpr n.toNat_lt_size⟩
  have huint : ofUInt? [("uint", .number (.integer n.toNat))] = some (.uint n) := by
    have hmember : member? "uint" [("uint", Value.number (.integer n.toNat))] =
        some (some (.number (.integer n.toNat))) := by simp [member?]
    rw [ofUInt?, hmember, Option.bind_eq_bind, Option.bind_some]
    simp only [if_pos hrange, Int.toNat_natCast, UInt32.ofNat_toNat]
    rfl
  simp [value, ofValue?, ofInput?, ofFloats?, member?, huint]

theorem ofValue?_int (n : Int32) : ofValue? (value (.int n)) = some (.int n) := by
  have hrange : Int32.minValue.toInt ≤ n.toInt ∧ n.toInt ≤ Int32.maxValue.toInt :=
    ⟨n.le_toInt, n.toInt_le⟩
  have hint : ofInt? [("int", .number (.integer n.toInt))] = some (.int n) := by
    change (if Int32.minValue.toInt ≤ n.toInt ∧ n.toInt ≤ Int32.maxValue.toInt then
      some (int (.ofInt n.toInt)) else none) = _
    rw [if_pos hrange, Int32.ofInt_toInt]
  simp [value, ofValue?, ofInput?, ofFloats?, ofUInt?, member?, hint]

theorem ofValue?_value {o : Operand} (h : o.Finite) : ofValue? o.value = some o := by
  cases o with
  | input t name => exact ofValue?_input t name
  | floats xs =>
    have hfloats := mapM_singleValue h
    simp [value, ofValue?, ofInput?, ofFloats?, member?, hfloats]
  | uint n => exact ofValue?_uint n
  | int n => exact ofValue?_int n

theorem ofValue?_value_eq_none {o : Operand} (h : ¬o.Finite) : ofValue? o.value = none := by
  cases o with
  | floats xs =>
    have hnone := mapM_singleValue_eq_none h
    simp [value, ofValue?, ofInput?, ofFloats?, ofUInt?, ofInt?, member?, hnone]
  | _ => exact absurd trivial h

/-- What a written operand is read as. -/
def reread (o : Operand) : Except Fault Operand :=
  match ofValue? o.value with
  | some o => .ok o
  | none => .error .noOperandForm

end Operand

/-! ### Requests -/

namespace Reading

variable {rest : List UInt8}

theorem takes_operand (o : Operand) : Scan.Takes operand (bytesOfString o.json) o.reread := by
  intro rest hrest
  have hvalue : (json (Scan.value (depthLimit - 2))) (bytesOfString o.json ++ rest) =
      .ok (o.value, rest) := Scan.widen_of_ok ((o.writes 123).takes rest hrest)
  rw [operand, Scan.bind_of_ok hvalue, Operand.reread]
  cases Operand.ofValue? o.value <;> rfl

theorem foldlM_push_reread (os : List Operand) (acc : Array Operand) :
    os.foldlM (fun acc o => o.reread.map acc.push) acc =
      (os.mapM Operand.reread).map (acc ++ ·.toArray) := by
  induction os generalizing acc with
  | nil => simp [pure, Except.pure, Except.map]
  | cons o os ih =>
    rw [List.foldlM_cons, List.mapM_cons]
    cases o.reread with
    | error fault => rfl
    | ok o' =>
      refine (ih (acc.push o')).trans ?_
      cases os.mapM Operand.reread with
      | error fault => simp [Except.map, bind, Except.bind]
      | ok os' => simp [Except.map, bind, Except.bind, pure, Except.pure]

theorem takes_inputs (os : List Operand) :
    Scan.Takes inputs (bytesOfString (listText (os.map Operand.json)))
      (os.mapM Operand.reread) := by
  have hitem (o : Operand) (_ : o ∈ os) (acc : Array Operand) :
      Scan.Takes (do return acc.push (← operand)) (bytesOfString o.json)
        (o.reread.map acc.push) := (takes_operand o).map acc.push
  have hlist : Scan.Takes
      (Scan.list .json (fun acc => do return acc.push (← operand)) #[])
      (Scan.separated (fun o => bytesOfString (Operand.json o)) true os ++ [ascii ']'])
      ((os.mapM Operand.reread).map List.toArray) := by
    have hfold := foldlM_push_reread os #[]
    simp only [Array.empty_append] at hfold
    rw [← hfold]
    exact Scan.takes_list (fun o _ => (o.writes 0).opens) hitem
  intro rest hrest
  have hread := hlist rest hrest
  have htoken : json Scan.token (ascii '[' ::
      (Scan.separated (fun o => bytesOfString (Operand.json o)) true os ++ [ascii ']'] ++ rest)) =
        .ok (.list, _) := Scan.widen_of_ok (Scan.token_list _)
  rw [Json.bytesOfString_listText, List.cons_append, inputs]
  refine (Scan.bind_of_ok htoken).trans ((Scan.bind_of_ok Scan.skip_cons).trans ?_)
  cases hos : os.mapM Operand.reread with
  | error fault =>
    rw [hos] at hread
    exact Scan.bind_of_error hread
  | ok os' =>
    rw [hos] at hread
    exact Scan.bind_of_ok hread

theorem operator_stringText (op : Operator) (rest : List UInt8) :
    operator (bytesOfString (stringText op.name) ++ rest) = .ok (op, rest) := by
  have hstring : json Scan.string (bytesOfString (stringText op.name) ++ rest) = .ok (op.name, rest) :=
    Scan.widen_of_ok (Json.string_stringText _ _)
  have hname : operatorOfName op.name = pure op := by rw [operatorOfName, Operator.ofName?_name]
  rw [Json.bytesOfString_stringText, List.cons_append] at hstring ⊢
  refine (Scan.bind_of_ok (Scan.widen_of_ok (Scan.peekToken_cons (by decide)))).trans ?_
  refine (Scan.bind_of_ok hstring).trans ?_
  rw [hname]
  rfl

/-- The fields of a written request. -/
def written (r : Request) : Field → String × String
  | .operator => (Field.operator.name, stringText r.operator.name)
  | .inputs => (Field.inputs.name, listText (r.inputs.map Operand.json))

/-- The fields known after one more field of a written request. -/
def readField (r : Request) (fields : Fields) : Field → Except Fault Fields
  | .operator =>
    if fields.operator.isSome then .error (.repeatedField .operator)
    else .ok { fields with operator := some r.operator }
  | .inputs =>
    if fields.inputs.isSome then .error (.repeatedField .inputs)
    else (r.inputs.mapM Operand.reread).map fun os => { fields with inputs := some os }

theorem takes_field (r : Request) (f : Field) (fields : Fields) :
    Scan.Takes (field fields) (Json.memberBytes (written r f)) (readField r fields f) := by
  intro rest hrest
  rw [Json.memberBytes, List.append_assoc, List.cons_append, field]
  refine (Scan.bind_of_ok (Scan.widen_of_ok (Json.string_stringText _ _))).trans ?_
  cases f with
  | operator =>
    simp only [written, readField]
    cases hfield : fields.operator.isSome with
    | true => rfl
    | false =>
      simp only [Bool.false_eq_true, if_false]
      refine (Scan.bind_of_ok (Scan.widen_of_ok Scan.colon_cons)).trans ?_
      exact Scan.bind_of_ok (operator_stringText r.operator rest)
  | inputs =>
    simp only [written, if_true, readField]
    cases hfield : fields.inputs.isSome with
    | true => rfl
    | false =>
      simp only [Bool.false_eq_true, if_false]
      refine (Scan.bind_of_ok (Scan.widen_of_ok Scan.colon_cons)).trans ?_
      exact ((takes_inputs r.inputs).map _) rest hrest

/-- The fields of a written request with the commas between them. -/
def writtenFields (r : Request) : List UInt8 :=
  Scan.separated (fun f => Json.memberBytes (written r f)) true [.operator, .inputs]

theorem bytesOfString_json (r : Request) :
    bytesOfString r.json = ascii '\x7b' :: (writtenFields r ++ [ascii '\x7d']) :=
  Json.bytesOfString_objectText (written r) [.operator, .inputs]

theorem takes_fields (r : Request) :
    Scan.Takes (Scan.object .json field {}) (writtenFields r ++ [ascii '\x7d'])
      ((r.inputs.mapM Operand.reread).map fun os => ⟨some r.operator, some os⟩) := by
  have hfields : [Field.operator, Field.inputs].foldlM (readField r) {} =
      (r.inputs.mapM Operand.reread).map fun os => ⟨some r.operator, some os⟩ := by
    simp only [List.foldlM_cons, List.foldlM_nil, readField, Option.isSome_none,
      Bool.false_eq_true, if_false]
    cases r.inputs.mapM Operand.reread <;> rfl
  rw [← hfields]
  exact Scan.takes_object (fun f _ => Json.opens_memberBytes (written r f))
    fun f _ fields => takes_field r f fields

theorem request_json (r : Request) :
    request (bytesOfString r.json) =
      (r.inputs.mapM Operand.reread).map fun os => (⟨r.operator, os⟩, []) := by
  have hfields := takes_fields r [] Json.Stops.nil
  rw [List.append_nil] at hfields
  rw [bytesOfString_json, request]
  have htoken : json Scan.token (ascii '\x7b' :: (writtenFields r ++ [ascii '\x7d'])) =
      .ok (.object, ascii '\x7b' :: (writtenFields r ++ [ascii '\x7d'])) :=
    Scan.widen_of_ok (Scan.token_object _)
  rw [Scan.bind_of_ok htoken]
  refine (Scan.bind_of_ok Scan.skip_cons).trans ?_
  cases hos : r.inputs.mapM Operand.reread with
  | error fault =>
    simp only [hos, Except.map] at hfields
    have hobject : requestObject (writtenFields r ++ [ascii '\x7d']) = .error fault := by
      rw [requestObject, Scan.bind_of_error hfields]
    exact Scan.bind_of_error hobject
  | ok os =>
    simp only [hos, Except.map] at hfields
    have hobject : requestObject (writtenFields r ++ [ascii '\x7d']) = .ok (⟨r.operator, os⟩, []) := by
      rw [requestObject, Scan.bind_of_ok hfields]
      rfl
    exact (Scan.bind_of_ok hobject).trans rfl

end Reading

theorem ofBytes_json (r : Request) :
    ofBytes (bytesOfString r.json) =
      (r.inputs.mapM Operand.reread).map fun os => ⟨r.operator, os⟩ := by
  rw [ofBytes, Reading.request_json]
  cases r.inputs.mapM Operand.reread <;> rfl

theorem mapM_reread {os : List Operand} (h : ∀ o ∈ os, o.Finite) :
    os.mapM Operand.reread = .ok os := by
  induction os with
  | nil => rfl
  | cons o os ih =>
    have hreread : o.reread = .ok o := by
      rw [Operand.reread, Operand.ofValue?_value (h o List.mem_cons_self)]
    rw [List.mapM_cons, hreread, ih fun p hp => h p (List.mem_cons_of_mem o hp)]
    rfl

theorem mapM_reread_eq_error {os : List Operand} (h : ∃ o ∈ os, ¬o.Finite) :
    os.mapM Operand.reread = .error .noOperandForm := by
  induction os with
  | nil => simp at h
  | cons o os ih =>
    rw [List.mapM_cons]
    by_cases ho : o.Finite
    · have hos : ∃ p ∈ os, ¬p.Finite := by simpa [ho] using h
      rw [ih hos, Operand.reread, Operand.ofValue?_value ho]
      rfl
    · rw [Operand.reread, Operand.ofValue?_value_eq_none ho]
      rfl

theorem parse_json_of_finite {r : Request} (h : ∀ o ∈ r.inputs, o.Finite) :
    parse (bytesOfString r.json) = .ok r := by
  rw [parse, ofBytes_json, mapM_reread h]
  rfl

theorem parse_json_of_not_finite {r : Request} (h : ∃ o ∈ r.inputs, ¬o.Finite) :
    parse (bytesOfString r.json) = .error (.config (.unreadable .noOperandForm)) := by
  rw [parse, ofBytes_json, mapM_reread_eq_error h]
  rfl

/-- A request of finite floats is read back with the operator, the operands in order, the types,
names and integers, and the lengths of the float lists; a request with any other float is
refused. -/
theorem parse_json (r : Request) :
    ((∀ o ∈ r.inputs, o.Finite) → ∃ inputs, parse (bytesOfString r.json) = .ok ⟨r.operator, inputs⟩ ∧
      List.Forall₂ Operand.SameShape r.inputs inputs) ∧
    ((∃ o ∈ r.inputs, ¬o.Finite) → parse (bytesOfString r.json) =
      .error (.config (.unreadable .noOperandForm))) := by
  constructor
  · intro h
    have hshapes : List.Forall₂ Operand.SameShape r.inputs r.inputs :=
      List.forall₂_same.2 fun o _ => Operand.SameShape.refl o
    exact ⟨r.inputs, parse_json_of_finite h, hshapes⟩
  · exact parse_json_of_not_finite

theorem parse_json_escapedNames :
    (∃ inputs, parse (bytesOfString (json ⟨.fit, [.input .float3 (some "\"\\\n"), .input .int none,
      .input .uint (some ""), .floats [1, .ofBits 0x7F7FFFFF], .floats []]⟩)) = .ok ⟨.fit, inputs⟩ ∧
        List.Forall₂ Operand.SameShape [.input .float3 (some "\"\\\n"), .input .int none,
          .input .uint (some ""), .floats [1, .ofBits 0x7F7FFFFF], .floats []] inputs) ∧
    parse (bytesOfString (json ⟨.negate, [.floats [1, .ofBits 0x7F800000]]⟩)) =
      .error (.config (.unreadable .noOperandForm)) :=
  ⟨(parse_json ⟨.fit, _⟩).1 (by decide), (parse_json ⟨.negate, _⟩).2 (by decide)⟩

end ShaderAlgebra.Request
