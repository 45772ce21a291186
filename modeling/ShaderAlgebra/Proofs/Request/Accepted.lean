import ShaderAlgebra.Proofs.Json.Range
import ShaderAlgebra.Proofs.Request.RoundTrip

/-!
# What accepted texts describe

No component of an accepted request is "not a number", since no number that is read
is. A component is infinite if its number is beyond the range of 32 bits: such a
number is not refused. The request is then written with a null, which is refused.
So an accepted request can be read back if and only if all its components are finite.
-/

namespace ShaderAlgebra.Request

open Json (Value Number)
open Json.Scan (Gives list_gives object_gives value_gives)

theorem isNaN_singleOfNumber {n : Number} (h : n.Bounded) : (singleOfNumber n).isNaN = false := by
  cases n with
  | integer n => exact Word.isNaN_ofRatio
  | real x =>
    have hfinite : x.isFinite := h
    rw [singleOfNumber, Word.convert_of_isFinite hfinite]
    exact Word.isNaN_ofRatio

namespace Operand

/-- No float component is "not a number". -/
def Numeric : Operand → Prop
  | floats xs => ∀ x ∈ xs, x.isNaN = false
  | _ => True

variable {members : List (String × Value)} {v : Value} {o : Operand} {key : String}

theorem mem_of_member? (h : member? key members = some (some v)) : ∃ m ∈ members, m.2 = v := by
  unfold member? at h
  split at h
  · cases h
  next name value hfilter =>
    cases h
    have hmem : (name, v) ∈ members.filter (·.1 = key) := by simp [hfilter]
    exact ⟨_, List.mem_of_mem_filter hmem, rfl⟩
  · cases h

theorem mapM_singleOfValue? {items : List Value} {xs : List Single}
    (hitems : ∀ v ∈ items, v.Bounded) (h : items.mapM singleOfValue? = some xs) :
    ∀ x ∈ xs, x.isNaN = false := by
  induction items generalizing xs with
  | nil =>
    cases h
    simp
  | cons v items ih =>
    rw [List.mapM_cons] at h
    simp only [Option.bind_eq_bind, Option.bind_eq_some_iff] at h
    obtain ⟨x, hx, xs, hxs, ⟨⟩⟩ := h
    have hhead : x.isNaN = false := by
      cases hitems v List.mem_cons_self with
      | number hn =>
        cases hx
        exact isNaN_singleOfNumber hn
      | null | bool | string | list | object => cases hx
    have htail := ih (fun u hu => hitems u (List.mem_cons_of_mem v hu)) hxs
    exact List.forall_mem_cons.2 ⟨hhead, htail⟩

theorem numeric_ofFloats? (hmembers : ∀ m ∈ members, m.2.Bounded)
    (h : ofFloats? members = some o) : o.Numeric := by
  simp only [ofFloats?, Option.bind_eq_bind, Option.bind_eq_some_iff] at h
  obtain ⟨found, hfound, hread⟩ := h
  split at hread
  next items =>
    obtain ⟨m, hm, hvalue⟩ := mem_of_member? hfound
    have hlist := hmembers m hm
    rw [hvalue] at hlist
    cases hlist with
    | list hitems =>
      simp only [Option.bind_eq_some_iff] at hread
      obtain ⟨xs, hxs, ⟨⟩⟩ := hread
      exact mapM_singleOfValue? hitems hxs
  · cases hread

/-- The other forms have no float components. -/
theorem numeric_of_other (h : ofInput? members = some o ∨ ofUInt? members = some o ∨
    ofInt? members = some o) : o.Numeric := by
  rcases h with h | h | h
  · simp only [ofInput?, Option.bind_eq_bind, Option.bind_eq_some_iff] at h
    obtain ⟨_, -, _, -, _, -, _, -, _, -, ⟨⟩⟩ := h
    trivial
  all_goals
    simp only [ofUInt?, ofInt?, Option.bind_eq_bind, Option.bind_eq_some_iff] at h
    obtain ⟨_, -, hread⟩ := h
    split at hread
    · split at hread
      · cases hread
        trivial
      · cases hread
    · cases hread

theorem numeric_ofValue? (hv : v.Bounded) (h : ofValue? v = some o) : o.Numeric := by
  cases hv with
  | object hmembers =>
    simp only [ofValue?, Option.orElse_eq_some] at h
    rcases h with hinput | ⟨-, hfloats | ⟨-, huint | ⟨-, hint⟩⟩⟩
    · exact numeric_of_other (.inl hinput)
    · exact numeric_ofFloats? hmembers hfloats
    · exact numeric_of_other (.inr (.inl huint))
    · exact numeric_of_other (.inr (.inr hint))
  | null | bool | number | string | list => cases h

end Operand

namespace Reading

theorem operand_gives : Gives operand Operand.Numeric := by
  unfold operand
  refine (Gives.widen (value_gives _)).bind fun v hv => ?_
  split
  next o ho => exact Gives.pure (Operand.numeric_ofValue? hv ho)
  · exact Gives.throw

theorem inputs_gives : Gives inputs fun os => ∀ o ∈ os, o.Numeric := by
  unfold inputs
  refine Gives.seq fun found => ?_
  split
  · have hitems : Gives (Json.Scan.list .json (fun os => do return os.push (← operand)) #[])
        fun os : Array Operand => ∀ o ∈ os, o.Numeric := by
      refine list_gives (fun os hos => ?_) (by simp)
      refine operand_gives.bind fun o ho => Gives.pure fun p hp => ?_
      rcases Array.mem_push.1 hp with hp | rfl
      · exact hos p hp
      · exact ho
    refine Gives.seq fun _ => hitems.bind fun os hos => Gives.pure fun o ho => ?_
    exact hos o (by simpa using ho)
  · exact Gives.throw

/-- The operands read so far, if they have been read. -/
def Fields.Numeric (fields : Fields) : Prop := ∀ os ∈ fields.inputs, ∀ o ∈ os, o.Numeric

theorem field_gives (fields : Fields) (h : fields.Numeric) :
    Gives (field fields) Fields.Numeric := by
  unfold field
  refine Gives.seq fun key => ?_
  split
  · refine Gives.guard (Gives.seq fun _ => Gives.seq fun op => Gives.pure ?_)
    exact h
  split
  · refine Gives.guard (Gives.seq fun _ => inputs_gives.bind fun os hos => Gives.pure ?_)
    rintro _ ⟨⟩
    exact hos
  · exact Gives.throw

theorem requestObject_gives : Gives requestObject fun r => ∀ o ∈ r.inputs, o.Numeric := by
  unfold requestObject
  have hnone : Fields.Numeric {} := by
    rintro _ ⟨⟩
  refine (object_gives field_gives hnone).bind fun fields hfields => ?_
  split
  · refine Gives.pure ?_
    cases hinputs : fields.inputs with
    | none => simp
    | some os => exact hfields os hinputs
  · exact Gives.throw

theorem requestList_gives : Gives requestList fun r => ∀ o ∈ r.inputs, o.Numeric := by
  unfold requestList
  refine Gives.seq fun more => ?_
  split
  · refine Gives.seq fun op => ?_
    have hend (os : List Operand) (hos : ∀ o ∈ os, o.Numeric) :
        Gives (do json Json.Scan.endList; return ⟨op, os⟩)
          fun r : Request => ∀ o ∈ r.inputs, o.Numeric := Gives.seq fun _ => Gives.pure hos
    refine Gives.seq fun another => ?_
    cases another with
    | true => exact inputs_gives.bind hend
    | false => exact (Gives.pure (by simp)).bind hend
  · exact Gives.throw

theorem request_gives : Gives request fun r => ∀ o ∈ r.inputs, o.Numeric := by
  unfold request
  refine Gives.seq fun found => ?_
  have hend (r : Request) (hr : ∀ o ∈ r.inputs, o.Numeric) :
      Gives (do json Json.Scan.endOfInput; return r)
        fun r : Request => ∀ o ∈ r.inputs, o.Numeric := Gives.seq fun _ => Gives.pure hr
  cases found with
  | object => exact Gives.seq fun _ => requestObject_gives.bind hend
  | list => exact Gives.seq fun _ => requestList_gives.bind hend
  | null | bool | number | string => exact Gives.throw.bind hend

end Reading

theorem numeric_of_parse {bytes : List UInt8} {r : Request} (h : parse bytes = .ok r) :
    ∀ o ∈ r.inputs, o.Numeric := by
  unfold parse ofBytes at h
  cases hread : Reading.request bytes with
  | error fault =>
    rw [hread] at h
    cases h
  | ok result =>
    rw [hread] at h
    cases h
    exact Reading.request_gives bytes result.1 result.2 hread

/-- Some float component is infinite. -/
def Operand.Overflowed : Operand → Prop
  | floats xs => ∃ x ∈ xs, x.isInfinite
  | _ => False

theorem Operand.Numeric.finite_iff {o : Operand} (h : o.Numeric) : o.Finite ↔ ¬o.Overflowed := by
  cases o with
  | floats xs =>
    have hword (x : Single) (hx : x.isNaN = false) : x.isFinite ↔ ¬x.isInfinite := by
      simp only [Word.isNaN, decide_eq_false_iff_not] at hx
      simp only [Word.isFinite, Word.isInfinite, decide_eq_true_eq, beq_iff_eq]
      omega
    simp only [Finite, Overflowed, not_exists, not_and]
    exact forall₂_congr fun x hx => hword x (h x hx)
  | input | uint | int => simp [Finite, Overflowed]

/-- An accepted request has no component that is "not a number". It is read back as it is if no
component has become infinite, and is refused otherwise. -/
theorem reread_of_parse {bytes : List UInt8} {r : Request} (h : parse bytes = .ok r) :
    (∀ o ∈ r.inputs, o.Numeric) ∧
      ((∀ o ∈ r.inputs, ¬o.Overflowed) → parse (bytesOfString r.json) = .ok r) ∧
      ((∃ o ∈ r.inputs, o.Overflowed) →
        parse (bytesOfString r.json) = .error (.config (.unreadable .noOperandForm))) := by
  have hnumeric := numeric_of_parse h
  refine ⟨hnumeric, fun hnone => ?_, fun hsome => ?_⟩
  · exact parse_json_of_finite fun o ho => (hnumeric o ho).finite_iff.2 (hnone o ho)
  · obtain ⟨o, ho, hoverflowed⟩ := hsome
    exact parse_json_of_not_finite
      ⟨o, ho, fun hfinite => (hnumeric o ho).finite_iff.1 hfinite hoverflowed⟩

/-- A request in the form of a list, with floats that are given as integers and by powers. -/
def listForm : List UInt8 := bytesOfString "[\"negate\",[\x7b\"const\":[-3,1e2]\x7d]]"

/-- A request with a number beyond the range of 32 bits. -/
def beyondRange : List UInt8 :=
  bytesOfString "\x7b\"operator\":\"negate\",\"inputs\":[\x7b\"const\":[1e39]\x7d]\x7d"

theorem reread_of_parse_listForm_beyondRange :
    (∃ r, parse listForm = .ok r ∧ parse (bytesOfString r.json) = .ok r) ∧
      ∃ r, parse beyondRange = .ok r ∧
        parse (bytesOfString r.json) = .error (.config (.unreadable .noOperandForm)) := by
  have hlist : parse listForm =
      .ok ⟨.negate, [.floats [.ofBits 0xC0400000, .ofBits 0x42C80000]]⟩ := by decide +kernel
  have hbeyond : parse beyondRange = .ok ⟨.negate, [.floats [.ofBits 0x7F800000]]⟩ := by
    decide +kernel
  refine ⟨⟨_, hlist, (reread_of_parse hlist).2.1 ?_⟩,
    ⟨_, hbeyond, (reread_of_parse hbeyond).2.2 ?_⟩⟩
  · simp only [List.mem_singleton, forall_eq, Operand.Overflowed]
    decide
  · simp only [List.mem_singleton, exists_eq_left, Operand.Overflowed]
    decide

/-- A request is accepted that is refused when it is read again. -/
theorem exists_parse_not_reread : ∃ bytes r, parse bytes = .ok r ∧
    parse (bytesOfString r.json) = .error (.config (.unreadable .noOperandForm)) := by
  have hparse : parse beyondRange = .ok ⟨.negate, [.floats [.ofBits 0x7F800000]]⟩ := by
    decide +kernel
  exact ⟨_, _, hparse, parse_json_of_not_finite (by decide)⟩

end ShaderAlgebra.Request
