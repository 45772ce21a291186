import ShaderAlgebra.Expr.Text
import ShaderAlgebra.Proofs.Decimal.Distinct

/-!
# The words of shader text

A leaf is written as one word, a number or a name, unless it is a vector. No
character of a word ends it, and a point in it has a digit after it, so a longer
text shows where a word ends. Different numbers of one type are different words,
and no number is a name.
-/

namespace ShaderAlgebra

section Words

variable {u v w r s : List Char} {c : Char}

/-- The characters that stand around words. -/
def isBreak (c : Char) : Bool := c == ' ' || c == ',' || c == '(' || c == ')'

/-- A word without breaks, whose points have a digit after them. -/
structure Solid (w : List Char) : Prop where
  not_break : ∀ c ∈ w, isBreak c = false
  digit_after : ∀ u v, w = u ++ '.' :: v → ∃ d rest, v = d :: rest ∧ d.isDigit = true

/-- A text that ends the word before it: a break, or the point before a channel. -/
inductive EndsWord : List Char → Prop
  | nil : EndsWord []
  | space {c : Char} (h : isBreak c = true) (rest : List Char) : EndsWord (c :: rest)
  | channel {c : Char} (h : c.isDigit = false) (rest : List Char) : EndsWord ('.' :: c :: rest)

theorem solid_of_forall (h : ∀ c ∈ w, isBreak c = false ∧ c ≠ '.') : Solid w where
  not_break c hc := (h c hc).1
  digit_after u v hw := by
    subst hw
    exact absurd rfl (h '.' (by simp)).2

theorem solid_of_all (h : w.all (fun c => !isBreak c && c != '.') = true) : Solid w :=
  solid_of_forall fun c hc => by simpa using List.all_eq_true.1 h c hc

theorem Solid.append (hu : Solid u) (hv : Solid v) : Solid (u ++ v) where
  not_break := List.forall_mem_append.2 ⟨hu.not_break, hv.not_break⟩
  digit_after s t h := by
    rcases List.append_eq_append_iff.1 h with ⟨m, rfl, hv'⟩ | ⟨m, hu', ht⟩
    · exact hv.digit_after m t hv'
    · cases m with
      | nil =>
        rw [List.append_nil] at hu'
        exact hv.digit_after [] t ht.symm
      | cons c m =>
        obtain ⟨rfl, rfl⟩ := List.cons.inj ht
        obtain ⟨d, rest, rfl, hd⟩ := hu.digit_after s m hu'
        exact ⟨d, rest ++ v, rfl, hd⟩

theorem not_break_of_isDigit (h : c.isDigit = true) : isBreak c = false ∧ c ≠ '.' := by
  constructor
  · cases hbreak : isBreak c with
    | false => rfl
    | true =>
      simp only [isBreak, Bool.or_eq_true, beq_iff_eq] at hbreak
      rcases hbreak with ((rfl | rfl) | rfl) | rfl <;> exact absurd h (by decide)
  · intro hpoint
    subst hpoint
    exact absurd h (by decide)

theorem solid_of_digits (h : ∀ c ∈ w, c.isDigit = true) : Solid w :=
  solid_of_forall fun c hc => not_break_of_isDigit (h c hc)

/-- A point with digits after it. -/
theorem solid_point (hne : w ≠ []) (h : ∀ c ∈ w, c.isDigit = true) : Solid ('.' :: w) where
  not_break := List.forall_mem_cons.2 ⟨rfl, (solid_of_digits h).not_break⟩
  digit_after u v huv := by
    cases u with
    | nil =>
      obtain ⟨d, rest, rfl⟩ := List.exists_cons_of_ne_nil hne
      exact ⟨d, rest, (List.cons.inj huv).2.symm, h d (by simp)⟩
    | cons c u =>
      have hw : w = u ++ '.' :: v := (List.cons.inj huv).2
      exact (solid_of_digits h).digit_after u v hw

/-- A text that goes on with a part of a word does not end the word before it. -/
theorem Solid.not_endsWord (hw : Solid (u ++ c :: v)) : ¬EndsWord (c :: v ++ r) := by
  intro h
  have hbreak : isBreak c = false := hw.not_break c (by simp)
  generalize htext : c :: v ++ r = text at h
  cases h with
  | nil => cases htext
  | space hspace rest =>
    obtain ⟨rfl, -⟩ := List.cons.inj htext
    rw [hspace] at hbreak
    cases hbreak
  | @channel d hd rest =>
    obtain ⟨rfl, hrest⟩ := List.cons.inj htext
    obtain ⟨d', v, rfl, hd'⟩ := hw.digit_after u v rfl
    obtain ⟨rfl, -⟩ := List.cons.inj hrest
    rw [hd] at hd'
    cases hd'

/-- A text shows where its first word ends. -/
theorem Solid.append_inj (hu : Solid u) (hv : Solid v) (hr : EndsWord r) (hs : EndsWord s)
    (h : u ++ r = v ++ s) : u = v ∧ r = s := by
  rcases List.append_eq_append_iff.1 h with ⟨m, rfl, rfl⟩ | ⟨m, rfl, rfl⟩
  · cases m with
    | nil => simp
    | cons c m => exact absurd hr hv.not_endsWord
  · cases m with
    | nil => simp
    | cons c m => exact absurd hs hu.not_endsWord

/-- The first characters of numbers. -/
def beginsNumber (c : Char) : Bool := c == '-' || c.isDigit

def IsNumber (w : List Char) : Prop :=
  (∃ c rest, w = c :: rest ∧ beginsNumber c = true) ∨ w = "inf".toList ∨ w = "NaN".toList

theorem isNumber_append (h : ∀ c ∈ u, beginsNumber c = true) (hu : u ≠ []) :
    IsNumber (u ++ v) := by
  obtain ⟨c, rest, rfl⟩ := List.exists_cons_of_ne_nil hu
  exact .inl ⟨c, rest ++ v, rfl, h c (by simp)⟩

theorem beginsNumber_of_isDigit (h : c.isDigit = true) : beginsNumber c = true := by
  simp [beginsNumber, h]

end Words

section Integers

theorem toList_toString (n : Nat) : (toString n).toList = Nat.toDigits 10 n := by simp

theorem isDigit_of_mem_toString (n : Nat) : ∀ c ∈ (toString n).toList, c.isDigit = true := by
  rw [toList_toString]
  exact fun _ => Nat.isDigit_of_mem_toDigits (by decide) (by decide)

theorem toString_ne_nil (n : Nat) : (toString n).toList ≠ [] := by
  rw [toList_toString]
  exact Nat.toDigits_ne_nil

theorem toString_nat_injective {m n : Nat} (h : (toString m).toList = (toString n).toList) :
    m = n := by
  rw [toList_toString, toList_toString] at h
  calc m = Nat.ofDigitChars 10 (Nat.toDigits 10 m) 0 := Nat.ofDigitChars_ten_toDigits.symm
    _ = Nat.ofDigitChars 10 (Nat.toDigits 10 n) 0 := by rw [h]
    _ = n := Nat.ofDigitChars_ten_toDigits

theorem toList_toString_negSucc (n : Nat) :
    (toString (Int.negSucc n)).toList = '-' :: (toString (n + 1)).toList := by
  have hminus : toString (Int.negSucc n) = "-" ++ toString (n + 1) := rfl
  rw [hminus, String.toList_append]
  rfl

theorem solid_toString_int (z : Int) : Solid (toString z).toList := by
  cases z with
  | ofNat n => exact solid_of_digits (isDigit_of_mem_toString n)
  | negSucc n =>
    rw [toList_toString_negSucc]
    exact (solid_of_all (w := ['-']) (by decide)).append
      (solid_of_digits (isDigit_of_mem_toString (n + 1)))

theorem isNumber_toString_int (z : Int) : IsNumber (toString z).toList := by
  cases z with
  | ofNat n =>
    have h := isNumber_append (v := []) (fun c hc => beginsNumber_of_isDigit
      (isDigit_of_mem_toString n c hc)) (toString_ne_nil n)
    rwa [List.append_nil] at h
  | negSucc n =>
    rw [toList_toString_negSucc]
    exact .inl ⟨'-', _, rfl, rfl⟩

theorem toString_int_injective {y z : Int} (h : (toString y).toList = (toString z).toList) :
    y = z := by
  have hminus {m n : Nat} : (toString m).toList ≠ '-' :: (toString n).toList := by
    intro h
    have hdigit := isDigit_of_mem_toString m '-' (by rw [h]; simp)
    exact absurd hdigit (by decide)
  cases y with
  | ofNat m =>
    cases z with
    | ofNat n => exact congrArg Int.ofNat (toString_nat_injective h)
    | negSucc n =>
      rw [toList_toString_negSucc] at h
      exact absurd h hminus
  | negSucc m =>
    rw [toList_toString_negSucc] at h
    cases z with
    | ofNat n => exact absurd h.symm hminus
    | negSucc n =>
      rw [toList_toString_negSucc] at h
      have hsucc := toString_nat_injective (List.cons.inj h).2
      rw [Nat.succ.inj hsucc]

end Integers

namespace Single

variable {x y : Single}

/-- The one NaN that texts can tell apart from other floats. -/
def Canonical (x : Single) : Prop := x.isNaN = true → x = Word.nan _

instance (x : Single) : Decidable x.Canonical := inferInstanceAs (Decidable (_ → _))

def unsignedText (x : Single) : List Char :=
  if x.isInfinite then "inf".toList else (Decimal.shortest .up x).inPlaceText false

theorem toList_text (h : x.isNaN = false) :
    x.text.toList = (if x.negative then ['-'] else []) ++ x.unsignedText := by
  unfold text unsignedText
  rw [h]
  cases hinfinite : x.isInfinite with
  | true => cases x.negative <;> simp
  | false => simp [Word.finiteText, Decimal.text, shaderLayout]

theorem toList_text_of_isNaN (h : x.isNaN = true) : x.text.toList = "NaN".toList := by
  rw [text, if_pos h]

/-- Without its sign, a float that is no NaN is infinite or in digits. -/
theorem unsignedText_cases (x : Single) :
    x.isInfinite = true ∧ x.unsignedText = "inf".toList ∨
    x.isInfinite = false ∧ ∃ whole fraction,
      (Decimal.shortest .up x).Parts whole fraction ∧
        x.unsignedText = Decimal.pointed whole fraction := by
  cases hinfinite : x.isInfinite with
  | true => exact .inl ⟨rfl, if_pos hinfinite⟩
  | false =>
    obtain ⟨whole, fraction, hparts⟩ := Decimal.exists_parts (Decimal.shortest .up x)
    refine .inr ⟨rfl, whole, fraction, hparts, ?_⟩
    rw [unsignedText, hinfinite]
    exact hparts.text_eq

theorem solid_unsignedText (x : Single) : Solid x.unsignedText := by
  rcases x.unsignedText_cases with ⟨-, htext⟩ | ⟨-, whole, fraction, hparts, htext⟩
  · rw [htext]
    exact solid_of_all (by decide)
  · rw [htext, Decimal.pointed]
    refine (solid_of_digits hparts.whole_digits).append ?_
    split
    · exact solid_of_all rfl
    next hne => exact solid_point hne hparts.fraction_digits

theorem solid_text (x : Single) : Solid x.text.toList := by
  cases h : x.isNaN with
  | true =>
    rw [toList_text_of_isNaN h]
    exact solid_of_all (by decide)
  | false =>
    rw [toList_text h]
    refine Solid.append ?_ x.solid_unsignedText
    split <;> exact solid_of_all (by decide)

theorem isNumber_text (x : Single) : IsNumber x.text.toList := by
  cases h : x.isNaN with
  | true => exact .inr (.inr (toList_text_of_isNaN h))
  | false =>
    rw [toList_text h]
    cases x.negative with
    | true => exact .inl ⟨'-', _, rfl, rfl⟩
    | false =>
      change IsNumber x.unsignedText
      rcases x.unsignedText_cases with ⟨-, htext⟩ | ⟨-, whole, fraction, hparts, htext⟩
      · exact .inr (.inl htext)
      · rw [htext]
        exact isNumber_append (fun c hc => beginsNumber_of_isDigit (hparts.whole_digits c hc))
          hparts.whole_ne_nil

/-- Digits do not look like a sign or like one of the words for other floats. -/
theorem unsignedText_ne (x : Single) {c : Char} {rest : List Char} (hdigit : c.isDigit = false)
    (hinfinite : x.isInfinite = true → c ≠ 'i') : x.unsignedText ≠ c :: rest := by
  intro h
  rcases x.unsignedText_cases with ⟨hx, htext⟩ | ⟨-, whole, fraction, hparts, htext⟩
  · rw [htext] at h
    exact hinfinite hx (List.cons.inj h).1.symm
  · obtain ⟨d, more, rfl⟩ := List.exists_cons_of_ne_nil hparts.whole_ne_nil
    rw [htext] at h
    have hd : d.isDigit = true := hparts.whole_digits d (by simp)
    rw [(List.cons.inj h).1, hdigit] at hd
    cases hd

theorem magnitude_eq_of_unsignedText_eq (h : x.unsignedText = y.unsignedText) :
    x.magnitude = y.magnitude := by
  have hinfinity {z : Single} (hz : z.isInfinite = true) :
      z.magnitude = Binary.Format.single.infinity := beq_iff_eq.1 hz
  have hinf {z : Single} (hz : z.isInfinite = false) : z.unsignedText ≠ "inf".toList :=
    z.unsignedText_ne (by decide) (by simp [hz])
  rcases x.unsignedText_cases with ⟨hx, htext⟩ | ⟨hx, whole, fraction, hparts, htext⟩
  · cases hy : y.isInfinite with
    | true => rw [hinfinity hx, hinfinity hy]
    | false => exact absurd (h.symm.trans htext) (hinf hy)
  · rcases y.unsignedText_cases with ⟨hy, htext'⟩ | ⟨hy, whole', fraction', hparts', htext'⟩
    · exact absurd (h.trans htext') (hinf hx)
    · have hvalue : (Decimal.shortest .up x).value = (Decimal.shortest .up y).value := by
        refine Decimal.value_eq_of_inPlaceText_eq ?_
        rw [hparts.text_eq, hparts'.text_eq, ← htext, ← htext', h]
      exact Decimal.magnitude_eq_of_value_eq (by decide) hvalue

/-- Floats of one text are equal, if there is only one NaN among them. -/
theorem text_injective (hx : x.Canonical) (hy : y.Canonical)
    (h : x.text.toList = y.text.toList) : x = y := by
  have hnan {z : Single} (hz : z.isNaN = false) : z.text.toList ≠ "NaN".toList := by
    rw [toList_text hz]
    cases z.negative with
    | true => exact fun h => absurd (List.cons.inj h).1 (by decide)
    | false => exact z.unsignedText_ne (by decide) (fun _ => by decide)
  cases hxnan : x.isNaN with
  | true =>
    cases hynan : y.isNaN with
    | true => rw [hx hxnan, hy hynan]
    | false => exact absurd (h.symm.trans (toList_text_of_isNaN hxnan)) (hnan hynan)
  | false =>
    cases hynan : y.isNaN with
    | true => exact absurd (h.trans (toList_text_of_isNaN hynan)) (hnan hxnan)
    | false =>
      rw [toList_text hxnan, toList_text hynan] at h
      have hminus (z : Single) {rest : List Char} : z.unsignedText ≠ '-' :: rest :=
        z.unsignedText_ne (by decide) (fun _ => by decide)
      cases hxsign : x.negative <;> cases hysign : y.negative <;> rw [hxsign, hysign] at h
      · exact Word.eq_of_magnitude_eq (hxsign.trans hysign.symm) (magnitude_eq_of_unsignedText_eq h)
      · exact absurd h (hminus x)
      · exact absurd h.symm (hminus y)
      · exact Word.eq_of_magnitude_eq (hxsign.trans hysign.symm)
          (magnitude_eq_of_unsignedText_eq (List.cons.inj h).2)

end Single

section Names

variable {name : String} {c : Char}

/-- Letters, digits and underscores; all characters past ASCII count as letters. -/
def isNameChar (c : Char) : Bool := c.isAlphanum || c == '_' || 127 < c.toNat

/-- A name that is no number and no word of the language. -/
def IsName (name : String) : Prop :=
  name.toList.head?.any (!·.isDigit) = true ∧ name.toList.all isNameChar = true ∧
    name ∉ ["systemSeed", "inf", "NaN"]

instance (name : String) : Decidable (IsName name) := inferInstanceAs (Decidable (_ ∧ _ ∧ _))

theorem isNameChar_false_of_isBreak (h : isBreak c = true) : isNameChar c = false := by
  simp only [isBreak, Bool.or_eq_true, beq_iff_eq] at h
  rcases h with ((rfl | rfl) | rfl) | rfl <;> decide

theorem solid_of_isNameChar {w : List Char} (h : w.all isNameChar = true) : Solid w := by
  apply solid_of_forall
  intro c hc
  constructor
  · cases hbreak : isBreak c with
    | false => rfl
    | true =>
      have hname := List.all_eq_true.1 h c hc
      rw [isNameChar_false_of_isBreak hbreak] at hname
      cases hname
  · intro hpoint
    subst hpoint
    exact absurd (List.all_eq_true.1 h '.' hc) (by decide)

theorem IsName.not_isNumber (h : IsName name) : ¬IsNumber name.toList := by
  obtain ⟨hhead, hchars, hreserved⟩ := h
  intro hnumber
  rcases hnumber with ⟨c, rest, htext, hc⟩ | hinf | hnan
  · rw [htext] at hhead hchars
    simp only [beginsNumber, Bool.or_eq_true, beq_iff_eq] at hc
    rcases hc with rfl | hdigit
    · exact absurd (List.all_eq_true.1 hchars '-' (by simp)) (by decide)
    · simp [hdigit] at hhead
  · exact hreserved (by simp [String.toList_injective hinf])
  · exact hreserved (by simp [String.toList_injective hnan])

end Names

namespace Constant

variable {c d : Constant}

theorem solid_text (hword : c.type.components = 1) : Solid c.text.toList := by
  cases c with
  | float x => exact x.solid_text
  | int n => exact solid_toString_int n.toInt
  | uint n =>
    rw [text, String.toList_append]
    exact (solid_of_digits (isDigit_of_mem_toString n.toNat)).append (solid_of_all (by decide))
  | float2 | float3 | float4 => exact absurd hword (Nat.succ_succ_ne_one _)

theorem isNumber_text (hword : c.type.components = 1) : IsNumber c.text.toList := by
  cases c with
  | float x => exact x.isNumber_text
  | int n => exact isNumber_toString_int n.toInt
  | uint n =>
    rw [text, String.toList_append]
    exact isNumber_append
      (fun c hc => beginsNumber_of_isDigit (isDigit_of_mem_toString n.toNat c hc))
      (toString_ne_nil n.toNat)
  | float2 | float3 | float4 => exact absurd hword (Nat.succ_succ_ne_one _)

theorem eq_of_text_eq (hc : ∀ x ∈ c.floats, x.Canonical) (hd : ∀ x ∈ d.floats, x.Canonical)
    (hword : c.type.components = 1) (htype : c.type = d.type) (h : c.text = d.text) : c = d := by
  cases c with
  | float x =>
    cases d with
    | float y =>
      exact congrArg float
        (Single.text_injective (hc x (by simp [floats])) (hd y (by simp [floats]))
          (congrArg String.toList h))
    | _ => cases htype
  | int m =>
    cases d with
    | int n =>
      exact congrArg int
        (Int32.toInt_inj.1 (toString_int_injective (congrArg String.toList h)))
    | _ => cases htype
  | uint m =>
    cases d with
    | uint n =>
      have hdigits := congrArg String.toList h
      simp only [text, String.toList_append] at hdigits
      exact congrArg uint
        (UInt32.toNat_inj.1 (toString_nat_injective (List.append_cancel_right hdigits)))
    | _ => cases htype
  | float2 | float3 | float4 => exact absurd hword (Nat.succ_succ_ne_one _)

end Constant

namespace Leaf

variable {types : String → ValueType} {l l' : Leaf}

/-- What the text of a leaf relies on: there is one NaN, and names have types. -/
def Legible (types : String → ValueType) : Leaf → Prop
  | constant c => ∀ x ∈ c.floats, x.Canonical
  | input t name => IsName name ∧ t = types name
  | systemSeed => True

instance (types : String → ValueType) : (l : Leaf) → Decidable (l.Legible types)
  | constant c => inferInstanceAs (Decidable (∀ x ∈ c.floats, x.Canonical))
  | input t name => inferInstanceAs (Decidable (IsName name ∧ t = types name))
  | systemSeed => .isTrue trivial

/-- Leaves that are written as one word. -/
def IsWord : Leaf → Prop
  | constant c => c.type.components = 1
  | input .. | systemSeed => True

theorem Legible.solid_text (h : l.Legible types) (hword : l.IsWord) : Solid l.text.toList := by
  cases l with
  | constant c => exact c.solid_text hword
  | input t name => exact solid_of_isNameChar h.1.2.1
  | systemSeed => exact solid_of_all (by decide)

/-- No named value is written as a number. -/
theorem Legible.not_isNumber (h : l.Legible types) (hl : ∀ c, l ≠ constant c) :
    ¬IsNumber l.text.toList := by
  cases l with
  | constant c => exact absurd rfl (hl c)
  | input t name => exact h.1.not_isNumber
  | systemSeed =>
    intro hnumber
    rcases hnumber with ⟨c, rest, hcons, hc⟩ | hword | hword
    · obtain ⟨rfl, -⟩ := List.cons.inj hcons
      exact absurd hc (by decide)
    all_goals exact absurd hword (by decide)

/-- Leaves of one type and one text are equal. -/
theorem Legible.eq_of_text_eq (h : l.Legible types) (h' : l'.Legible types) (hword : l.IsWord)
    (hword' : l'.IsWord) (htype : l.type = l'.type) (htext : l.text = l'.text) : l = l' := by
  have hne {c : Constant} {l : Leaf} (hword : c.type.components = 1) (h : l.Legible types)
      (hl : ∀ d, l ≠ constant d) : c.text ≠ l.text := by
    intro htext
    exact h.not_isNumber hl (htext ▸ c.isNumber_text hword)
  cases l with
  | constant c =>
    cases l' with
    | constant d => exact congrArg constant (Constant.eq_of_text_eq h h' hword htype htext)
    | input | systemSeed => exact absurd htext (hne hword h' nofun)
  | input t name =>
    cases l' with
    | constant d => exact absurd htext.symm (hne hword' h nofun)
    | input t' name' => exact congr (congrArg input htype) htext
    | systemSeed => exact absurd (List.mem_cons.2 (.inl htext)) h.1.2.2
  | systemSeed =>
    cases l' with
    | constant d => exact absurd htext.symm (hne hword' h nofun)
    | input t' name' => exact absurd (List.mem_cons.2 (.inl htext.symm)) h'.1.2.2
    | systemSeed => rfl

end Leaf

end ShaderAlgebra
