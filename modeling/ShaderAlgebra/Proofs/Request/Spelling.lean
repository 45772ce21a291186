import ShaderAlgebra.Proofs.Json.Parse
import ShaderAlgebra.Proofs.Request.Accepted
import ShaderAlgebra.Proofs.Request.Document
import ShaderAlgebra.Proofs.Request.Exact

/-!
# A request means its document, not its spelling

Every text of a document is read as the request that the document describes, or is
refused if it describes none. So blanks, escapes and the order of members make no
difference.
-/

namespace ShaderAlgebra.Request

open Json
open Json.Scan (Skips Parses accepts)

namespace Reading

variable {d : Document} {text rest bytes : List UInt8} {b : UInt8}

/-! ### Operators -/

theorem skips_json {α : Type} {step : Scan Json.Fault α} (h : Skips step) : Skips (json step) :=
  h.widen

theorem skips_operator : Skips operator := (skips_json Scan.skips_peekToken).bind

theorem skips_operatorKey : Skips operatorKey := (skips_json Scan.skips_peekToken).bind

theorem skips_inputs : Skips inputs := (skips_json Scan.skips_token).bind

theorem accepts_operatorOfName (name : String) (bytes : List UInt8) :
    accepts (operatorOfName name) bytes = (Operator.ofName? name).map (·, bytes) := by
  unfold operatorOfName
  cases Operator.ofName? name <;> rfl

theorem peek_cons (h : isBlank b = false) :
    (json Scan.peekToken) (b :: bytes) = .ok (some b, b :: bytes) :=
  Scan.widen_of_ok (Scan.peekToken_cons h)

/-- An operator begins with a quote or a brace. -/
theorem accepts_operator_none (hblank : isBlank b = false) (hquote : b ≠ ascii '"')
    (hbrace : b ≠ ascii '\x7b') : accepts operator (b :: bytes) = none := by
  unfold operator
  rw [Scan.accepts_bind_of_ok (peek_cons hblank)]
  simp only [if_neg hquote, if_neg hbrace]
  rfl

theorem accepts_operator_string {us : List Nat} (h : SpellsUnits us text) (rest : List UInt8) :
    accepts operator (quotedBytes text ++ rest) =
      ((stringOf? us).bind Operator.ofName?).map (·, rest) := by
  unfold operator
  rw [quotedBytes, List.cons_append, Scan.accepts_bind_of_ok (peek_cons (by decide))]
  dsimp only
  rw [if_pos rfl, Scan.accepts_bind, json, Scan.accepts_widen, ← List.cons_append, ← quotedBytes,
    Scan.accepts_string h]
  cases stringOf? us with
  | none => rfl
  | some name => exact accepts_operatorOfName name rest

theorem text_of_spells_null (h : Spells .null text) : text = bytesOfString "null" := by
  cases h
  rfl

/-- The token is the first one of a text of the document. -/
def Shows : Document → Found → Prop
  | .null, .null | .bool _, .bool _ | .number _, .number _ | .string _, .string _
  | .list _, .list | .object _, .object => True
  | _, _ => False

theorem shows_of_accepts (h : Spells d text) (hrest : Stops rest) :
    ∀ r ∈ accepts Scan.token (text ++ rest), Shows d r.1 := by
  intro r hr
  cases h with
  | null =>
    cases hr
    trivial
  | bool b =>
    cases b <;>
      · cases hr
        trivial
  | number h =>
    rw [Scan.parses_token_number h rest hrest] at hr
    cases hn : numberOf? text with
    | none =>
      rw [hn] at hr
      cases hr
    | some n =>
      rw [hn] at hr
      cases hr
      trivial
  | @string us text h =>
    rw [Scan.accepts_token_string h rest] at hr
    cases hs : stringOf? us with
    | none =>
      rw [hs] at hr
      cases hr
    | some s =>
      rw [hs] at hr
      cases hr
      trivial
  | list | object =>
    cases hr
    trivial

theorem accepts_operatorKey (m : Member) (rest : List UInt8) :
    accepts operatorKey (m.text ++ rest) =
      ((stringOf? m.units).bind Operator.ofName?).map
        (·, m.colon.bytes ++ (m.value ++ rest)) := by
  have htext : m.text ++ rest = ascii '"' :: (m.text ++ rest).tail := rfl
  unfold operatorKey
  rw [htext, Scan.accepts_bind_of_ok (peek_cons (by decide)), ← htext]
  dsimp only
  rw [if_pos rfl, Scan.accepts_bind, json, Scan.accepts_widen, Scan.accepts_key]
  cases stringOf? m.units with
  | none => rfl
  | some name => exact accepts_operatorOfName name _

theorem operatorOf?_of_ne_null {us : List Nat} {ms : List (List Nat × Document)}
    (h : d ≠ .null) : operatorOf? (.object ((us, d) :: ms)) = none := by
  cases d with
  | null => exact absurd rfl h
  | bool | number | string | list | object => rfl

theorem operatorOf?_member_none {us : List Nat} {ms : List (List Nat × Document)}
    (h : (stringOf? us).bind Operator.ofName? = none) :
    operatorOf? (.object ((us, d) :: ms)) = none := by
  cases d with
  | null =>
    cases ms with
    | nil => exact h
    | cons => rfl
  | bool | number | string | list | object => rfl

/-- The end of an object with one member: only null may be its value. -/
theorem accepts_operator_end {m : Member} {p : Padded} {ms : List (Member × Padded)}
    {op : Operator} (hvalue : Spells m.document m.value)
    (hname : (stringOf? m.units).bind Operator.ofName? = some op) :
    accepts (do
        match ← json Scan.token with
        | .null => pure ()
        | found => throw (.wrongType found .null)
        match ← json Scan.peekToken with
        | none => throw (.json .endInObject)
        | some b =>
          if b = ascii '\x7d' then
            Scan.skip
            return op
          else throw (.json .noValue))
      (m.value ++ (p.after ++ (Scan.separated (·.2.bytes) false ms ++ ascii '\x7d' :: rest))) =
      (operatorOf? (.object ((m.units, m.document) ::
        ms.map fun m => (m.1.units, m.1.document)))).map (·, rest) := by
  rw [Scan.accepts_bind, json, Scan.accepts_widen]
  by_cases hd : m.document = .null
  · rw [hd] at hvalue ⊢
    rw [text_of_spells_null hvalue, Scan.accepts_of_ok (Scan.token_null _)]
    dsimp only [Option.bind_some]
    rw [(skips_json Scan.skips_peekToken).bind.accepts_eq p.blank_after]
    cases ms with
    | nil => exact congrArg (Option.map (·, rest)) hname.symm
    | cons => rfl
  · have hstops : Stops (p.after ++ (Scan.separated (·.2.bytes) false ms ++ ascii '\x7d' :: rest)) :=
      stops_append p.blank_after (Scan.stops_separated (by decide))
    rw [operatorOf?_of_ne_null hd]
    refine Option.bind_eq_none_iff.2 fun r hr => ?_
    have hshows := shows_of_accepts hvalue hstops r hr
    obtain ⟨found, left⟩ := r
    cases found with
    | null =>
      cases hdocument : m.document with
      | null => exact absurd hdocument hd
      | bool | number | string | list | object =>
        rw [hdocument] at hshows
        cases hshows
    | bool | number | string | list | object => rfl

theorem accepts_operator_object {lead : List UInt8} {members : List (Member × Padded)}
    (hlead : Blank lead) (hvalues : ∀ m ∈ members, Spells m.1.document m.1.value)
    (htext : ∀ m ∈ members, m.2.text = m.1.text) :
    accepts operator (ascii '\x7b' ::
        (lead ++ (Scan.separated (·.2.bytes) true members ++ [ascii '\x7d'])) ++ rest) =
      (operatorOf? (.object (members.map fun m => (m.1.units, m.1.document)))).map (·, rest) := by
  unfold operator
  rw [List.cons_append, Scan.accepts_bind_of_ok (peek_cons (by decide))]
  dsimp only
  rw [if_neg (by decide), if_pos rfl, Scan.accepts_bind_of_ok Scan.skip_cons]
  cases members with
  | nil =>
    rw [Scan.accepts_bind, List.append_assoc, skips_operatorKey.accepts_eq hlead]
    rfl
  | cons m ms =>
    obtain ⟨m, p⟩ := m
    have hp : p.text = m.text := htext _ List.mem_cons_self
    let tail := p.after ++ (Scan.separated (·.2.bytes) false ms ++ ascii '\x7d' :: rest)
    have hinput : lead ++ (Scan.separated (·.2.bytes) true ((m, p) :: ms) ++ [ascii '\x7d']) ++ rest =
        lead ++ (p.before ++ (m.text ++ tail)) := by
      simp [Scan.separated, Scan.separator, Padded.bytes, hp, tail]
    rw [Scan.accepts_bind, hinput, skips_operatorKey.accepts_eq hlead,
      skips_operatorKey.accepts_eq p.blank_before, accepts_operatorKey, List.map_cons]
    cases hname : (stringOf? m.units).bind Operator.ofName? with
    | none => rw [operatorOf?_member_none hname]; rfl
    | some op =>
      dsimp only [Option.map_some, Option.bind_some]
      rw [Scan.accepts_bind, json, Scan.accepts_widen, Scan.accepts_colon]
      dsimp only [Option.bind_some]
      rw [(skips_json Scan.skips_token).bind.accepts_eq m.colon.blank_after]
      exact accepts_operator_end (hvalues _ List.mem_cons_self) hname

theorem parses_operator (h : Spells d text) : Parses operator text (operatorOf? d) := by
  intro rest hrest
  cases h with
  | null => exact accepts_operator_none (by decide) (by decide) (by decide)
  | bool b => cases b <;> exact accepts_operator_none (by decide) (by decide) (by decide)
  | number h =>
    obtain ⟨b, tail, rfl, hb⟩ := Scan.startsNumber_of_isNumeral h
    exact accepts_operator_none hb.not_blank (hb.ne (by decide)) (hb.ne (by decide))
  | string h => exact accepts_operator_string h rest
  | list => exact accepts_operator_none (by decide) (by decide) (by decide)
  | object hlead hvalues htext => exact accepts_operator_object hlead hvalues htext

/-! ### Operands -/

theorem parses_operand (h : Spells d text) : Parses operand text (operandOf? d) := by
  intro rest hrest
  unfold operand operandOf?
  rw [Scan.accepts_bind, json, Scan.accepts_widen, Scan.parses_value h rest hrest]
  cases d.value? (depthLimit - 2) with
  | none => rfl
  | some v =>
    dsimp only [Option.map_some, Option.bind_some]
    cases Operand.ofValue? v <;> rfl

theorem parses_inputs_list {lead : List UInt8} {items : List (Document × Padded)}
    (hlead : Blank lead) (hitems : ∀ item ∈ items, Spells item.1 item.2.text) :
    Parses inputs
      (ascii '[' :: (lead ++ (Scan.separated (·.2.bytes) true items ++ [ascii ']'])))
      (inputsOf? (.list (items.map (·.1)))) := by
  have hlist : Parses (Scan.list .json (fun operands => return operands.push (← operand)) #[])
      (lead ++ (Scan.separated (·.2.bytes) true items ++ [ascii ']']))
      ((items.mapM fun item : Document × Padded => operandOf? item.1).map (#[] ++ ·.toArray)) := by
    rw [← Scan.foldlM_push_option]
    exact Scan.parses_list (fun item hitem => Scan.opens_of_spells (hitems item hitem))
      (fun item hitem acc => (parses_operand (hitems item hitem)).map acc.push) hlead
  intro rest hrest
  have hread := (hlist.map Array.toList) rest hrest
  have htoken : json Scan.token
      (ascii '[' :: (lead ++ (Scan.separated (·.2.bytes) true items ++ [ascii ']'])) ++ rest) =
        .ok (.list, ascii '[' ::
          (lead ++ (Scan.separated (·.2.bytes) true items ++ [ascii ']'])) ++ rest) :=
    Scan.widen_of_ok (Scan.token_list _)
  refine (Scan.accepts_bind_of_ok htoken).trans <|
    (Scan.accepts_bind_of_ok Scan.skip_cons).trans (hread.trans ?_)
  rw [inputsOf?, List.mapM_map]
  simp [Function.comp_def]

/-- Only a list is read as operands. -/
theorem accepts_inputs_none (h : Spells d text) (hd : ¬Shows d .list) (hrest : Stops rest) :
    accepts inputs (text ++ rest) = none := by
  unfold inputs
  rw [Scan.accepts_bind, json, Scan.accepts_widen]
  refine Option.bind_eq_none_iff.2 fun r hr => ?_
  have hshows := shows_of_accepts h hrest r hr
  obtain ⟨found, left⟩ := r
  cases found with
  | list => exact absurd hshows hd
  | null | bool | number | string | object => rfl

theorem parses_inputs (h : Spells d text) : Parses inputs text (inputsOf? d) := by
  cases d with
  | list items =>
    cases h with
    | list hlead hitems => exact parses_inputs_list hlead hitems
  | null | bool | number | string | object =>
    exact fun _ hrest => accepts_inputs_none h (fun hlist => hlist) hrest

/-! ### Fields -/

/-- A colon and the value of a member. -/
theorem accepts_colon_value {α β : Type} {m : Member} {inner : Reading α} {outcome : Option α}
    (hskips : Skips inner) (h : Parses inner m.value outcome) (f : α → β) (hrest : Stops rest) :
    accepts (do
        json Scan.colon
        return f (← inner)) (m.colon.bytes ++ (m.value ++ rest)) =
      (outcome.map f).map (·, rest) := by
  rw [Scan.accepts_bind, json, Scan.accepts_widen, Scan.accepts_colon]
  dsimp only [Option.bind_some]
  rw [hskips.bind.accepts_eq m.colon.blank_after]
  exact h.map f rest hrest

theorem parses_field {m : Member} (h : Spells m.document m.value) (fields : Fields) :
    Parses (field fields) m.text (fieldOf? fields (m.units, m.document)) := by
  intro rest hrest
  unfold field
  rw [Scan.accepts_bind, json, Scan.accepts_widen, Scan.accepts_key]
  cases hname : stringOf? m.units with
  | none =>
    rw [fieldOf?, hname]
    rfl
  | some key =>
    dsimp only [Option.map_some, Option.bind_some]
    by_cases hoperator : key = Field.operator.name
    · rw [if_pos hoperator, fieldOf?_operator (hname.trans (congrArg some hoperator))]
      cases hgiven : fields.operator.isSome with
      | true => rfl
      | false =>
        exact accepts_colon_value skips_operator (parses_operator h)
          (fun op => { fields with operator := some op }) hrest
    by_cases hinputs : key = Field.inputs.name
    · rw [if_neg hoperator, if_pos hinputs, fieldOf?_inputs (hname.trans (congrArg some hinputs))]
      cases hgiven : fields.inputs.isSome with
      | true => rfl
      | false =>
        exact accepts_colon_value skips_inputs (parses_inputs h)
          (fun os => { fields with inputs := some os }) hrest
    · rw [if_neg hoperator, if_neg hinputs, fieldOf?, hname, Option.bind_eq_bind, Option.bind_some,
        if_neg hoperator, if_neg hinputs]
      rfl

theorem parses_requestObject {lead : List UInt8} {members : List (Member × Padded)}
    (hlead : Blank lead) (hvalues : ∀ m ∈ members, Spells m.1.document m.1.value)
    (htext : ∀ m ∈ members, m.2.text = m.1.text) :
    Parses requestObject (lead ++ (Scan.separated (·.2.bytes) true members ++ [ascii '\x7d']))
      (requestOf? (.object (members.map fun m => (m.1.units, m.1.document)))) := by
  have hfields : Parses (Scan.object .json field {})
      (lead ++ (Scan.separated (·.2.bytes) true members ++ [ascii '\x7d']))
      (members.foldlM (fun fields m => fieldOf? fields (m.1.units, m.1.document)) {}) := by
    refine Scan.parses_object (fun m hm => ?_) (fun m hm fields => ?_) hlead
    · rw [htext m hm]
      exact Scan.opens_member m.1
    · rw [htext m hm]
      exact parses_field (hvalues m hm) fields
  rw [requestOf?, List.foldlM_map]
  refine hfields.bind fun fields bytes => ?_
  cases fields.operator <;> rfl

theorem next_padded (first : Bool) {blanks : List UInt8} (hblanks : Blank blanks) (p : Padded)
    (h : Spells d p.text) (rest : List UInt8) :
    json (Scan.nextItem first)
        (blanks ++ (Scan.separator first ++ (p.before ++ (p.text ++ rest)))) =
      .ok (true, p.text ++ rest) :=
  Scan.widen_of_ok
    (Scan.separates_nextItem.next_padded first hblanks p (Scan.opens_of_spells h) rest)

theorem next_closed (first : Bool) {blanks : List UInt8} (hblanks : Blank blanks)
    (rest : List UInt8) :
    json (Scan.nextItem first) (blanks ++ ascii ']' :: rest) = .ok (false, ascii ']' :: rest) :=
  Scan.widen_of_ok ((Scan.skips_nextItem first _ _ hblanks).trans (Scan.closes_nextItem first rest))

/-- Nothing may follow the operands. -/
theorem accepts_endList_comma (bytes : List UInt8) :
    accepts Scan.endList (ascii ',' :: bytes) = none := by
  rw [Scan.endList, Scan.accepts_bind_of_ok (Scan.peekToken_cons (by decide))]
  dsimp only
  rw [if_neg (by decide), if_pos rfl, Scan.accepts_bind_of_ok Scan.skip_cons, Scan.accepts_bind]
  refine Option.bind_eq_none_iff.2 fun r _ => ?_
  obtain ⟨found, left⟩ := r
  cases found <;> rfl

/-- A list of an operator and what may follow it. -/
theorem accepts_requestList_end {items : List (Document × Padded)} {blanks : List UInt8}
    (hblanks : Blank blanks) (hitems : ∀ item ∈ items, Spells item.1 item.2.text)
    {op : Operator} (hop : operatorOf? d = some op) :
    accepts (do
        let operands ← if ← json (Scan.nextItem false) then inputs else pure []
        json Scan.endList
        return (⟨op, operands⟩ : Request))
      (blanks ++ (Scan.separated (·.2.bytes) false items ++ ascii ']' :: rest)) =
      (requestOf? (.list (d :: items.map (·.1)))).map (·, rest) := by
  cases items with
  | nil =>
    have hend : json Scan.endList (ascii ']' :: rest) = .ok ((), rest) :=
      Scan.widen_of_ok Scan.endList_bracket
    rw [Scan.separated, List.nil_append, Scan.accepts_bind_of_ok (next_closed false hblanks rest)]
    change accepts (do
      json Scan.endList
      return (⟨op, []⟩ : Request)) (ascii ']' :: rest) = _
    rw [Scan.accepts_bind_of_ok hend, List.map_nil, requestOf?, hop]
    rfl
  | cons item items =>
    obtain ⟨d', p⟩ := item
    have hp : Spells d' p.text := hitems _ List.mem_cons_self
    let tail := Scan.separated (·.2.bytes) false items ++ ascii ']' :: rest
    have hinput : blanks ++ (Scan.separated (·.2.bytes) false ((d', p) :: items) ++ ascii ']' :: rest) =
        blanks ++ (Scan.separator false ++ (p.before ++ (p.text ++ (p.after ++ tail)))) := by
      simp [Scan.separated, Padded.bytes, tail]
    have hstops : Stops (p.after ++ tail) :=
      stops_append p.blank_after (Scan.stops_separated (by decide))
    rw [hinput, Scan.accepts_bind_of_ok (next_padded false hblanks p hp _)]
    change accepts (do
      let operands ← inputs
      json Scan.endList
      return (⟨op, operands⟩ : Request)) (p.text ++ (p.after ++ tail)) = _
    rw [Scan.accepts_bind, parses_inputs hp _ hstops, List.map_cons]
    cases items with
    | nil =>
      rw [List.map_nil, requestOf?, hop]
      cases inputsOf? d' with
      | none => rfl
      | some operands =>
        have hend : json Scan.endList (p.after ++ tail) = .ok ((), rest) :=
          Scan.widen_of_ok ((Scan.skips_endList _ _ p.blank_after).trans Scan.endList_bracket)
        exact Scan.accepts_bind_of_ok hend
    | cons item items =>
      change _ = none
      refine Option.bind_eq_none_iff.2 fun r hr => ?_
      obtain ⟨operands, left⟩ := r
      obtain ⟨_, -, hleft⟩ := Option.map_eq_some_iff.1 hr
      cases hleft
      rw [Scan.accepts_bind, json, Scan.accepts_widen, Scan.skips_endList.accepts_eq p.blank_after]
      exact congrArg (Option.bind · _) (accepts_endList_comma _)

theorem parses_requestList {lead : List UInt8} {items : List (Document × Padded)}
    (hlead : Blank lead) (hitems : ∀ item ∈ items, Spells item.1 item.2.text) :
    Parses requestList (lead ++ (Scan.separated (·.2.bytes) true items ++ [ascii ']']))
      (requestOf? (.list (items.map (·.1)))) := by
  intro rest _
  unfold requestList
  cases items with
  | nil =>
    rw [Scan.separated, List.nil_append, List.append_assoc, List.singleton_append,
      Scan.accepts_bind_of_ok (next_closed true hlead rest)]
    rfl
  | cons item items =>
    obtain ⟨d, p⟩ := item
    have hp : Spells d p.text := hitems _ List.mem_cons_self
    let tail := Scan.separated (·.2.bytes) false items ++ ascii ']' :: rest
    have hinput : lead ++ (Scan.separated (·.2.bytes) true ((d, p) :: items) ++ [ascii ']']) ++ rest =
        lead ++ (Scan.separator true ++ (p.before ++ (p.text ++ (p.after ++ tail)))) := by
      simp [Scan.separated, Padded.bytes, tail]
    have hstops : Stops (p.after ++ tail) :=
      stops_append p.blank_after (Scan.stops_separated (by decide))
    rw [hinput, Scan.accepts_bind_of_ok (next_padded true hlead p hp _)]
    dsimp only
    rw [if_pos rfl, Scan.accepts_bind, parses_operator hp _ hstops]
    cases hop : operatorOf? d with
    | none =>
      rcases items with _ | ⟨item, _ | ⟨item', items⟩⟩
      · rw [List.map_cons, List.map_nil, requestOf?, hop]
        rfl
      · rw [List.map_cons, List.map_cons, List.map_nil, requestOf?, hop]
        rfl
      · rfl
    | some op =>
      exact accepts_requestList_end p.blank_after
        (fun item hitem => hitems item (List.mem_cons_of_mem _ hitem)) hop

/-! ### Requests -/

/-- Only an object or a list is read as a request. -/
theorem accepts_request_none (h : Spells d text) (hobject : ¬Shows d .object)
    (hlist : ¬Shows d .list) (hrest : Stops rest) : accepts request (text ++ rest) = none := by
  unfold request
  rw [Scan.accepts_bind, json, Scan.accepts_widen]
  refine Option.bind_eq_none_iff.2 fun r hr => ?_
  have hshows := shows_of_accepts h hrest r hr
  obtain ⟨found, left⟩ := r
  cases found with
  | object => exact absurd hshows hobject
  | list => exact absurd hshows hlist
  | null | bool | number | string => rfl

/-- What is left after a request may only be blanks. -/
theorem accepts_finish {step : Reading Request} {outcome : Option Request}
    (h : accepts step bytes = outcome.map (·, rest)) (hrest : Blank rest) :
    accepts (do
        let r ← step
        json Scan.endOfInput
        return r) bytes = outcome.map (·, []) := by
  have hend : json Scan.endOfInput rest = .ok ((), []) := by
    have hblanks := Scan.skips_endOfInput rest [] hrest
    rw [List.append_nil] at hblanks
    exact Scan.widen_of_ok hblanks
  rw [Scan.accepts_bind, h]
  cases outcome with
  | none => rfl
  | some r => exact Scan.accepts_bind_of_ok hend

theorem accepts_request (h : Spells d text) (hrest : Blank rest) :
    accepts request (text ++ rest) = (requestOf? d).map (·, []) := by
  have hstops : Stops rest := by simpa using stops_append hrest Stops.nil
  cases d with
  | null | bool | number | string =>
    exact accepts_request_none h (fun hno => hno) (fun hno => hno) hstops
  | object members =>
    cases h with
    | object hlead hvalues htext =>
      have hread := parses_requestObject hlead hvalues htext rest hstops
      unfold request
      refine (Scan.accepts_bind_of_ok (Scan.widen_of_ok (Scan.token_object _))).trans ?_
      exact (Scan.accepts_bind_of_ok Scan.skip_cons).trans (accepts_finish hread hrest)
  | list items =>
    cases h with
    | list hlead hitems =>
      have hread := parses_requestList hlead hitems rest hstops
      unfold request
      refine (Scan.accepts_bind_of_ok (Scan.widen_of_ok (Scan.token_list _))).trans ?_
      exact (Scan.accepts_bind_of_ok Scan.skip_cons).trans (accepts_finish hread hrest)

theorem skips_request : Skips request := (skips_json Scan.skips_token).bind

end Reading

variable {d d' : Document} {bytes bytes' : List UInt8}

/-- A text of a document is read as the request that the document describes. -/
theorem toOption_parse (h : d.HasText bytes) : (parse bytes).toOption = requestOf? d := by
  obtain ⟨p, hspells, rfl⟩ := h
  have hread : accepts Reading.request p.bytes = (requestOf? d).map (·, []) := by
    rw [Padded.bytes, Reading.skips_request.accepts_eq p.blank_before]
    exact Reading.accepts_request hspells p.blank_after
  unfold parse ofBytes
  unfold accepts at hread
  cases hrun : Reading.request p.bytes with
  | error fault =>
    rw [hrun] at hread
    exact (Option.map_eq_none_iff.1 hread.symm).symm
  | ok r =>
    rw [hrun] at hread
    obtain ⟨r', hr', heq⟩ := Option.map_eq_some_iff.1 hread.symm
    rw [hr', ← heq]
    rfl

theorem Operand.valueEq_self_of_numeric {o : Operand} (h : o.Numeric) : o.valueEq o := by
  cases o with
  | floats xs =>
    have hself : ∀ x ∈ xs, x.numericEq x := fun x hx => by
      have hnan : x.isNaN = false := h x hx
      simp [Word.numericEq, hnan]
    rw [valueEq, beq_self_eq_true, Bool.true_and]
    exact all_zip_self hself
  | input | uint | int => simp [valueEq]

/-- Texts that differ only in blanks, in escapes and in the order of members are refused both,
or are read as one request, which is equal to itself: it holds no float that is "not a number". -/
theorem parse_respelled (hd : d.Reordered d') (h : d.HasText bytes) (h' : d'.HasText bytes') :
    (∃ e e', parse bytes = .error e ∧ parse bytes' = .error e') ∨
      ∃ r, parse bytes = .ok r ∧ parse bytes' = .ok r ∧ r.valueEq r := by
  have hsame : (parse bytes).toOption = (parse bytes').toOption := by
    rw [toOption_parse h, toOption_parse h', requestOf?_eq hd]
  cases hparse : parse bytes with
  | error e =>
    cases hparse' : parse bytes' with
    | error e' => exact .inl ⟨e, e', rfl, rfl⟩
    | ok r' =>
      rw [hparse, hparse'] at hsame
      cases hsame
  | ok r =>
    cases hparse' : parse bytes' with
    | error e' =>
      rw [hparse, hparse'] at hsame
      cases hsame
    | ok r' =>
      rw [hparse, hparse'] at hsame
      obtain rfl : r = r' := Option.some.inj hsame
      refine .inr ⟨r, rfl, rfl, ?_⟩
      rw [valueEq, beq_self_eq_true, beq_self_eq_true, Bool.and_self, Bool.true_and]
      exact all_zip_self fun o ho =>
        Operand.valueEq_self_of_numeric (numeric_of_parse hparse o ho)

/-! ### Two spellings -/

def unitsOf (s : String) : List Nat := s.toList.flatMap units

theorem spellsUnits_append {us us' : List Nat} {text text' : List UInt8}
    (h : SpellsUnits us text) (h' : SpellsUnits us' text') :
    SpellsUnits (us ++ us') (text ++ text') := by
  induction h with
  | nil => exact h'
  | plain c hcontrol hquote hbackslash _ ih =>
    rw [List.append_assoc, List.append_assoc]
    exact .plain c hcontrol hquote hbackslash ih
  | simple hescape _ ih => exact .simple hescape ih
  | numeric hunit _ ih => exact .numeric hunit ih

/-- Characters that need no escape may stand for themselves. -/
theorem spellsUnits_bytesOfString (s : String)
    (h : ∀ c ∈ s.toList, 0x20 ≤ c.toNat ∧ c ≠ '"' ∧ c ≠ '\\') :
    SpellsUnits (unitsOf s) (bytesOfString s) := by
  rw [bytesOfString_eq_flatMap, unitsOf]
  generalize s.toList = cs at h ⊢
  induction cs with
  | nil => exact .nil
  | cons c cs ih =>
    obtain ⟨hcontrol, hquote, hbackslash⟩ := h c List.mem_cons_self
    rw [List.flatMap_cons, List.flatMap_cons]
    exact .plain c hcontrol hquote hbackslash (ih fun x hx => h x (List.mem_cons_of_mem c hx))

def tight (text : List UInt8) : Padded := ⟨[], text, [], by decide, by decide⟩

def spaced (text : List UInt8) : Padded := ⟨[ascii ' '], text, [ascii '\n'], by decide, by decide⟩

def operatorMember : Member where
  units := unitsOf "operator"
  key := bytesOfString "operator"
  colon := tight [ascii ':']
  document := .string (unitsOf "negate")
  value := quotedBytes (bytesOfString "negate")
  spells_key := spellsUnits_bytesOfString _ (by simp)
  colon_text := rfl

def escapedMember : Member where
  units := unitsOf "operator"
  key := bytesOfString "oper\\u0061tor"
  colon := spaced [ascii ':']
  document := .string (unitsOf "negate")
  value := quotedBytes (bytesOfString "\\u006Eegate")
  spells_key :=
    have htail : SpellsUnits (0x61 :: unitsOf "tor") (bytesOfString "\\u0061tor") :=
      .numeric (a := ascii '0') (b := ascii '0') (c := ascii '6') (d := ascii '1')
        (by decide +kernel) (spellsUnits_bytesOfString "tor" (by simp))
    spellsUnits_append (spellsUnits_bytesOfString "oper" (by simp)) htail
  colon_text := rfl

def inputsMember : Member where
  units := unitsOf "inputs"
  key := bytesOfString "inputs"
  colon := tight [ascii ':']
  document := .list []
  value := bytesOfString "[]"
  spells_key := spellsUnits_bytesOfString _ (by simp)
  colon_text := rfl

theorem spells_negate : Spells (.string (unitsOf "negate")) (quotedBytes (bytesOfString "negate")) :=
  .string (spellsUnits_bytesOfString _ (by simp))

theorem spells_negate_escaped :
    Spells (.string (unitsOf "negate")) (quotedBytes (bytesOfString "\\u006Eegate")) :=
  .string (.numeric (a := ascii '0') (b := ascii '0') (c := ascii '6') (d := ascii 'E')
    (by decide +kernel) (spellsUnits_bytesOfString "egate" (by simp)))

theorem spells_empty : Spells (.list []) (bytesOfString "[]") :=
  let items : List (Document × Padded) := []
  have hblank : Blank [] := by decide
  have hitems : ∀ item ∈ items, Spells item.1 item.2.text := by simp [items]
  Spells.list hblank hitems

theorem parse_respelled_negate :
    ∃ d d' : Document, d.Reordered d' ∧
      d.HasText (bytesOfString "\x7b\"operator\":\"negate\",\"inputs\":[]\x7d") ∧
      d'.HasText (bytesOfString
        " \x7b \"inputs\":[]\n, \"oper\\u0061tor\" :\n\"\\u006Eegate\"\n\x7d\n") ∧
    ∃ r, parse (bytesOfString "\x7b\"operator\":\"negate\",\"inputs\":[]\x7d") = .ok r ∧
      parse (bytesOfString
        " \x7b \"inputs\":[]\n, \"oper\\u0061tor\" :\n\"\\u006Eegate\"\n\x7d\n") = .ok r ∧
      r.valueEq r := by
  let operator := (unitsOf "operator", Document.string (unitsOf "negate"))
  let inputs := (unitsOf "inputs", Document.list [])
  have hd : (Document.object [operator, inputs]).Reordered (.object [inputs, operator]) :=
    .object rfl (.cons (.string _) (.cons (.list .nil) .nil)) (.swap _ _ _)
  let members := [(operatorMember, tight operatorMember.text), (inputsMember, tight inputsMember.text)]
  let members' :=
    [(inputsMember, spaced inputsMember.text), (escapedMember, spaced escapedMember.text)]
  have h : (Document.object [operator, inputs]).HasText
      (bytesOfString "\x7b\"operator\":\"negate\",\"inputs\":[]\x7d") := by
    have hblank : Blank [] := by decide
    have hvalues : ∀ m ∈ members, Spells m.1.document m.1.value := by
      simp [members, operatorMember, inputsMember, spells_negate, spells_empty]
    have htexts : ∀ m ∈ members, m.2.text = m.1.text := by simp [members, tight]
    exact ⟨tight _, .object hblank hvalues htexts, by decide +kernel⟩
  have h' : (Document.object [inputs, operator]).HasText (bytesOfString
      " \x7b \"inputs\":[]\n, \"oper\\u0061tor\" :\n\"\\u006Eegate\"\n\x7d\n") := by
    have hblank : Blank [] := by decide
    have hvalues : ∀ m ∈ members', Spells m.1.document m.1.value := by
      simp [members', escapedMember, inputsMember, spells_negate_escaped, spells_empty]
    have htexts : ∀ m ∈ members', m.2.text = m.1.text := by simp [members', spaced]
    exact ⟨spaced _, .object hblank hvalues htexts, by decide +kernel⟩
  have hread : parse (bytesOfString "\x7b\"operator\":\"negate\",\"inputs\":[]\x7d") =
      .ok ⟨.negate, []⟩ := by
    decide +kernel
  obtain ⟨e, -, he, -⟩ | hr := parse_respelled hd h h'
  · cases he.symm.trans hread
  · exact ⟨_, _, hd, h, h', hr⟩

end ShaderAlgebra.Request
