import ShaderAlgebra.Proofs.Json.Spelling

/-!
# Reading spelled documents

Every text of a document is read as the value of the document, or refused if there is
none. Steps that look for a token pass over the blanks before it, so the blanks
around the entries of a container do not matter.
-/

namespace ShaderAlgebra.Json

open Request (bytesOfString)

variable {ε α β σ : Type} {blanks bytes text rest lead : List UInt8} {b : UInt8}

/-! ### Blanks -/

theorem endsNumber_of_blank (h : isBlank b) : EndsNumber b := by
  simp only [isBlank, Bool.or_eq_true, beq_iff_eq] at h
  rcases h with ((rfl | rfl) | rfl) | rfl <;> decide

theorem stops_append (h : Blank blanks) (hrest : Stops rest) : Stops (blanks ++ rest) := by
  cases blanks with
  | nil => exact hrest
  | cons b blanks => exact Stops.cons (endsNumber_of_blank (h b List.mem_cons_self)) _

namespace Scan

variable {step : Scan ε α} {wrap : Fault → ε}

/-- The step begins with a token and passes over the blanks before it. -/
def Skips (step : Scan ε α) : Prop :=
  ∀ blanks bytes, Blank blanks → step (blanks ++ bytes) = step bytes

theorem skips_peekToken : Skips (peekToken : Scan ε _) := by
  intro blanks bytes h
  change (peek : Scan ε _) ((blanks ++ bytes).dropWhile isBlank) = peek (bytes.dropWhile isBlank)
  rw [List.dropWhile_append_of_pos h]

theorem Skips.bind {f : α → Scan ε β} (h : Skips step) : Skips (step >>= f) := by
  intro blanks bytes hblanks
  rw [bind_apply, bind_apply, h blanks bytes hblanks]

theorem Skips.widen {s : Scan Fault α} (h : Skips s) : Skips (s.widen wrap) := by
  intro blanks bytes hblanks
  rw [widen_apply, widen_apply, h blanks bytes hblanks]

theorem Skips.accepts_eq (h : Skips step) (hblanks : Blank blanks) (bytes : List UInt8) :
    accepts step (blanks ++ bytes) = accepts step bytes :=
  congrArg Except.toOption (h blanks bytes hblanks)

theorem skips_token : Skips token := skips_peekToken.bind

theorem skips_colon : Skips colon := skips_peekToken.bind

theorem skips_nextItem (first : Bool) : Skips (nextItem first) := skips_peekToken.bind

theorem skips_nextKey (first : Bool) : Skips (nextKey first) := skips_peekToken.bind

theorem skips_endList : Skips endList := skips_peekToken.bind

theorem skips_endOfInput : Skips endOfInput := skips_peekToken.bind

theorem skips_value (depth : Nat) : Skips (value depth) := by
  cases depth <;> exact skips_token.bind

/-! ### Containers -/

/-- What a step does that looks for the next entry of a container. -/
structure Separates (next : Bool → Scan Fault Bool) (close : UInt8) : Prop where
  closes : Closes next close
  skips (first : Bool) : Skips (next first)
  skips_comma {blanks : List UInt8} (bytes : List UInt8) : Blank blanks →
    next false (ascii ',' :: (blanks ++ bytes)) = next false (ascii ',' :: bytes)

theorem separates_nextItem : Separates nextItem (ascii ']') where
  closes := closes_nextItem
  skips := skips_nextItem
  skips_comma := by
    intro blanks bytes h
    rw [nextItem, bind_of_ok (peekToken_cons (by decide)), bind_of_ok (peekToken_cons (by decide))]
    simp only [show ¬(ascii ',' = ascii ']') by decide, Bool.false_eq_true, if_false, if_true]
    rw [bind_of_ok skip_cons, bind_of_ok skip_cons]
    exact skips_peekToken.bind blanks bytes h

theorem separates_nextKey : Separates nextKey (ascii '\x7d') where
  closes := closes_nextKey
  skips := skips_nextKey
  skips_comma := by
    intro blanks bytes h
    rw [nextKey, bind_of_ok (peekToken_cons (by decide)), bind_of_ok (peekToken_cons (by decide))]
    simp only [show ¬(ascii ',' = ascii '\x7d') by decide, Bool.false_eq_true, if_false, if_true]
    rw [bind_of_ok skip_cons, bind_of_ok skip_cons]
    exact skips_peekToken.bind blanks bytes h

section Entries

variable {next : Bool → Scan Fault Bool} {close : UInt8} {xs : List β} {padded : β → Padded}
  {f : σ → β → Option σ} {entry : σ → Scan ε σ}

theorem Separates.next_padded (h : Separates next close) (first : Bool) (hblanks : Blank blanks)
    (p : Padded) (hopens : Opens next p.text) (rest : List UInt8) :
    next first (blanks ++ (separator first ++ (p.before ++ (p.text ++ rest)))) =
      .ok (true, p.text ++ rest) := by
  rw [h.skips first blanks _ hblanks]
  have hopen := hopens first rest
  cases first with
  | true =>
    change next true (p.before ++ (p.text ++ rest)) = _
    rw [h.skips true p.before _ p.blank_before]
    exact hopen
  | false =>
    change next false (ascii ',' :: (p.before ++ (p.text ++ rest))) = _
    rw [h.skips_comma _ p.blank_before]
    exact hopen

/-- The entries of a container, with blanks around each of them. -/
theorem accepts_foldEntries (h : Separates next close) (hclose : EndsNumber close)
    (hopens : ∀ x ∈ xs, Opens next (padded x).text)
    (hentry : ∀ x ∈ xs, ∀ acc, Parses (entry acc) (padded x).text (f acc x))
    {bound : List UInt8} (hbound : xs.length ≤ bound.length) (first : Bool) (acc : σ)
    (hblanks : Blank blanks) :
    accepts (foldEntries next wrap entry bound first acc)
        (blanks ++ (separated (fun x => (padded x).bytes) first xs ++ close :: rest)) =
      (xs.foldlM f acc).map (·, close :: rest) := by
  induction xs generalizing first acc bound blanks with
  | nil =>
    have hnext := (h.skips first blanks (close :: rest) hblanks).trans (h.closes first rest)
    rw [foldEntries.eq_def, separated, List.nil_append, accepts_bind_of_ok (widen_of_ok hnext)]
    rfl
  | cons x xs ih =>
    cases bound with
    | nil => simp at hbound
    | cons b bound =>
      let tail := separated (fun x => (padded x).bytes) false xs ++ close :: rest
      have hx : x ∈ x :: xs := List.mem_cons_self
      have hnext := h.next_padded first hblanks (padded x) (hopens x hx)
        ((padded x).after ++ tail)
      have hstep := hentry x hx acc ((padded x).after ++ tail)
        (stops_append (padded x).blank_after (stops_separated hclose))
      have hinput : blanks ++ (separated (fun x => (padded x).bytes) first (x :: xs) ++
            close :: rest) =
          blanks ++ (separator first ++
            ((padded x).before ++ ((padded x).text ++ ((padded x).after ++ tail)))) := by
        simp only [separated, Padded.bytes, tail, List.append_assoc]
      rw [hinput, foldEntries.eq_def, accepts_bind_of_ok (widen_of_ok hnext), if_pos rfl,
        accepts_bind, hstep, List.foldlM_cons]
      cases f acc x with
      | none => rfl
      | some acc' =>
        exact ih (fun y hy => hopens y (List.mem_cons_of_mem x hy))
          (fun y hy => hentry y (List.mem_cons_of_mem x hy)) (by simpa using hbound) false acc'
          (padded x).blank_after

theorem parses_entries {finish : Scan ε Unit} {acc : σ} (h : Separates next close)
    (hclose : EndsNumber close) (hfinish : ∀ rest, finish (close :: rest) = .ok ((), rest))
    (hopens : ∀ x ∈ xs, Opens next (padded x).text)
    (hentry : ∀ x ∈ xs, ∀ acc, Parses (entry acc) (padded x).text (f acc x))
    (hlead : Blank lead) :
    Parses (do
        let acc ← foldEntries next wrap entry (← get) true acc
        finish
        return acc)
      (lead ++ (separated (fun x => (padded x).bytes) true xs ++ [close])) (xs.foldlM f acc) := by
  intro rest _
  let input := lead ++ (separated (fun x => (padded x).bytes) true xs ++ close :: rest)
  have hinput : lead ++ (separated (fun x => (padded x).bytes) true xs ++ [close]) ++ rest =
      input := by simp [input]
  have hbound : xs.length ≤ input.length := by
    have hlength := length_le_separated (fun x => (padded x).bytes) true xs
    simp only [input, List.length_append, List.length_cons]
    omega
  have hfold : accepts (foldEntries next wrap entry input true acc) input =
      (xs.foldlM f acc).map (·, close :: rest) :=
    accepts_foldEntries h hclose hopens hentry hbound true acc hlead
  rw [hinput, accepts_bind_of_ok get_apply, accepts_bind, hfold]
  cases xs.foldlM f acc with
  | none => rfl
  | some acc' => exact accepts_bind_of_ok (hfinish rest)

theorem parses_list {item : σ → Scan ε σ} {acc : σ}
    (hopens : ∀ x ∈ xs, Opens nextItem (padded x).text)
    (hitem : ∀ x ∈ xs, ∀ acc, Parses (item acc) (padded x).text (f acc x)) (hlead : Blank lead) :
    Parses (list wrap item acc)
      (lead ++ (separated (fun x => (padded x).bytes) true xs ++ [ascii ']']))
      (xs.foldlM f acc) := by
  unfold list
  rw [foldItems_eq]
  exact parses_entries separates_nextItem (by decide) (fun _ => widen_of_ok endList_bracket) hopens
    hitem hlead

theorem parses_object {member : σ → Scan ε σ} {acc : σ}
    (hopens : ∀ x ∈ xs, Opens nextKey (padded x).text)
    (hmember : ∀ x ∈ xs, ∀ acc, Parses (member acc) (padded x).text (f acc x))
    (hlead : Blank lead) :
    Parses (object wrap member acc)
      (lead ++ (separated (fun x => (padded x).bytes) true xs ++ [ascii '\x7d']))
      (xs.foldlM f acc) := by
  unfold object
  rw [foldMembers_eq]
  exact parses_entries separates_nextKey (by decide) (fun _ => skip_cons) hopens hmember hlead

end Entries

/-- Entries that are collected one after another. -/
theorem foldlM_push_option (g : β → Option α) (xs : List β) (acc : Array α) :
    xs.foldlM (fun acc x => (g x).map acc.push) acc = (xs.mapM g).map (acc ++ ·.toArray) := by
  induction xs generalizing acc with
  | nil => simp
  | cons x xs ih =>
    rw [List.foldlM_cons, List.mapM_cons]
    cases g x with
    | none => rfl
    | some a =>
      refine (ih (acc.push a)).trans ?_
      cases xs.mapM g <;> simp

/-! ### Tokens -/

section Tokens

variable {us : List Nat} {numeral : List UInt8}

theorem token_startsNumber (h : StartsNumber b) :
    token (b :: bytes) = (do return Found.number (← number)) (b :: bytes) := by
  rw [token, bind_of_ok (peekToken_cons h.not_blank)]
  simp only [if_neg (h.ne (c := ascii 'n') (by decide)),
    if_neg (h.ne (c := ascii 't') (by decide)), if_neg (h.ne (c := ascii 'f') (by decide))]
  rw [if_pos (by simpa [StartsNumber] using h)]

theorem startsNumber_of_isNumeral (h : IsNumeral numeral) :
    ∃ b tail, numeral = b :: tail ∧ StartsNumber b := by
  cases h with
  | negative => exact ⟨_, _, rfl, .inl rfl⟩
  | positive h =>
    obtain ⟨⟨hne, hdigits⟩, -, -, -⟩ := h
    rename_i whole fraction exponentText
    obtain ⟨b, more, rfl⟩ := List.exists_cons_of_ne_nil hne
    exact ⟨b, _, rfl, .inr (hdigits b List.mem_cons_self)⟩

theorem parses_token_number (h : IsNumeral numeral) :
    Parses token numeral ((numberOf? numeral).map .number) := by
  obtain ⟨b, tail, rfl, hb⟩ := startsNumber_of_isNumeral h
  intro rest hrest
  have hnumber := (parses_number h).map Found.number rest hrest
  rw [← hnumber]
  exact congrArg Except.toOption (token_startsNumber hb)

theorem accepts_token_string (h : SpellsUnits us text) (rest : List UInt8) :
    accepts token (quotedBytes text ++ rest) =
      (stringOf? us).map fun s => (.string s, rest) := by
  change accepts (do return Found.string (← string)) (quotedBytes text ++ rest) = _
  rw [accepts_bind, accepts_string h]
  cases stringOf? us <;> rfl

end Tokens

/-! ### Values -/

section Values

variable {d : Document} {depth : Nat}

/-- A document begins with a byte of its first token. -/
theorem head_of_spells (h : Spells d text) :
    ∃ b tail, text = b :: tail ∧ isBlank b = false ∧ b ≠ ascii ']' := by
  cases h with
  | null => exact ⟨_, _, rfl, by decide, by decide⟩
  | bool b => cases b <;> exact ⟨_, _, rfl, by decide, by decide⟩
  | number h =>
    obtain ⟨b, tail, rfl, hb⟩ := startsNumber_of_isNumeral h
    exact ⟨b, tail, rfl, hb.not_blank, hb.ne (by decide)⟩
  | string => exact ⟨_, _, rfl, by decide, by decide⟩
  | list => exact ⟨_, _, rfl, by decide, by decide⟩
  | object => exact ⟨_, _, rfl, by decide, by decide⟩

theorem opens_of_spells (h : Spells d text) : Opens nextItem text := by
  obtain ⟨b, tail, rfl, hblank, hend⟩ := head_of_spells h
  exact opens_nextItem hblank hend

theorem opens_member (m : Member) : Opens nextKey m.text := opens_nextKey

/-- The key of a member, up to its closing quote. -/
theorem accepts_key (m : Member) (rest : List UInt8) :
    accepts string (m.text ++ rest) =
      (stringOf? m.units).map (·, m.colon.bytes ++ (m.value ++ rest)) := by
  have htext : m.text ++ rest = quotedBytes m.key ++ (m.colon.bytes ++ (m.value ++ rest)) := by
    simp only [Member.text, List.append_assoc]
  rw [htext, accepts_string m.spells_key]

theorem accepts_colon (m : Member) (rest : List UInt8) :
    accepts colon (m.colon.bytes ++ rest) = some ((), m.colon.after ++ rest) := by
  rw [Padded.bytes, m.colon_text, List.append_assoc, List.append_assoc,
    skips_colon.accepts_eq m.colon.blank_before]
  exact accepts_of_ok colon_cons

section Steps

variable {inner : Scan Fault Value} {g : Document → Option Value}

theorem parses_member {m : Member} (hskips : Skips inner)
    (hinner : Parses inner m.value (g m.document)) (members : Array (String × Value)) :
    Parses (do
        let key ← string
        colon
        return members.push (key, ← inner)) m.text
      ((memberOf? g (m.units, m.document)).map members.push) := by
  intro rest hrest
  rw [accepts_bind, accepts_key, memberOf?]
  cases stringOf? m.units with
  | none => rfl
  | some key =>
    change accepts (do
      colon
      return members.push (key, ← inner)) (m.colon.bytes ++ (m.value ++ rest)) = _
    rw [accepts_bind, accepts_colon]
    change accepts (do return members.push (key, ← inner)) (m.colon.after ++ (m.value ++ rest)) = _
    rw [accepts_bind, hskips.accepts_eq m.colon.blank_after, hinner rest hrest]
    cases g m.document <;> rfl

theorem parses_valueOver_number (inner : Option (Scan Fault Value)) {numeral : List UInt8}
    (h : IsNumeral numeral) :
    Parses (valueOver inner) numeral ((numberOf? numeral).map .number) := by
  intro rest hrest
  rw [valueOver, accepts_bind, parses_token_number h rest hrest]
  cases numberOf? numeral <;> rfl

theorem parses_valueOver_string (inner : Option (Scan Fault Value)) {us : List Nat}
    (h : SpellsUnits us text) :
    Parses (valueOver inner) (quotedBytes text) ((stringOf? us).map .string) := by
  intro rest _
  rw [valueOver, accepts_bind, accepts_token_string h rest]
  cases stringOf? us <;> rfl

theorem parses_valueOver_list {items : List (Document × Padded)} (hlead : Blank lead)
    (hopens : ∀ item ∈ items, Opens nextItem item.2.text)
    (h : ∀ item ∈ items, Parses inner item.2.text (g item.1)) :
    Parses (valueOver (some inner))
      (ascii '[' :: (lead ++ (separated (·.2.bytes) true items ++ [ascii ']'])))
      (((items.map (·.1)).mapM g).map .list) := by
  have hlist : Parses (list id (fun items => do return items.push (← inner)) #[])
      (lead ++ (separated (·.2.bytes) true items ++ [ascii ']']))
      ((items.mapM fun item : Document × Padded => g item.1).map (#[] ++ ·.toArray)) := by
    rw [← foldlM_push_option]
    exact parses_list hopens (fun item hitem acc => (h item hitem).map acc.push) hlead
  intro rest hrest
  have hread := (hlist.map fun items => Value.list items.toList) rest hrest
  refine (accepts_bind_of_ok (token_list _)).trans <|
    (accepts_bind_of_ok skip_cons).trans (hread.trans ?_)
  rw [List.mapM_map]
  simp [Function.comp_def]

theorem parses_valueOver_object {members : List (Member × Padded)} (hlead : Blank lead)
    (htext : ∀ m ∈ members, m.2.text = m.1.text) (hskips : Skips inner)
    (h : ∀ m ∈ members, Parses inner m.1.value (g m.1.document)) :
    Parses (valueOver (some inner))
      (ascii '\x7b' :: (lead ++ (separated (·.2.bytes) true members ++ [ascii '\x7d'])))
      (((members.map fun m => (m.1.units, m.1.document)).mapM (memberOf? g)).map .object) := by
  have hobject : Parses (object id (fun read => do
        let key ← string
        colon
        return read.push (key, ← inner)) #[])
      (lead ++ (separated (·.2.bytes) true members ++ [ascii '\x7d']))
      ((members.mapM fun m : Member × Padded => memberOf? g (m.1.units, m.1.document)).map
        (#[] ++ ·.toArray)) := by
    rw [← foldlM_push_option]
    refine parses_object (fun m hm => ?_) (fun m hm acc => ?_) hlead
    · rw [htext m hm]
      exact opens_member m.1
    · rw [htext m hm]
      exact parses_member hskips (h m hm) acc
  intro rest hrest
  have hread := (hobject.map fun members => Value.object members.toList) rest hrest
  refine (accepts_bind_of_ok (token_object _)).trans <|
    (accepts_bind_of_ok skip_cons).trans (hread.trans ?_)
  rw [List.mapM_map]
  simp [Function.comp_def]

end Steps

/-- Every text of a document is read as its value. -/
theorem parses_value (h : Spells d text) : Parses (value depth) text (d.value? depth) := by
  induction depth generalizing d text with
  | zero =>
    cases h with
    | null => exact fun _ _ => rfl
    | bool b => cases b <;> exact fun _ _ => rfl
    | number h => exact parses_valueOver_number none h
    | string h => exact parses_valueOver_string none h
    | list | object => exact fun _ _ => rfl
  | succ depth ih =>
    cases h with
    | null => exact fun _ _ => rfl
    | bool b => cases b <;> exact fun _ _ => rfl
    | number h => exact parses_valueOver_number _ h
    | string h => exact parses_valueOver_string _ h
    | list hlead hitems =>
      exact parses_valueOver_list hlead (fun item hitem => opens_of_spells (hitems item hitem))
        fun item hitem => ih (hitems item hitem)
    | object hlead hmembers htext =>
      exact parses_valueOver_object hlead htext (skips_value depth) fun m hm => ih (hmembers m hm)

end Values

end Scan

end ShaderAlgebra.Json
