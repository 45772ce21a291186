import ShaderAlgebra.Proofs.Json.Document

/-!
# Spelled strings and numbers

Reading a string gives the characters of its units, however these are written, and
is refused if a surrogate stands alone. Reading a number takes all of it. Which fault is
reported depends on the spelling, so faults are left out: `accepts` keeps what a scan
gives, and `Parses step text outcome` says that a step takes exactly `text` and gives
`outcome`, whatever follows.
-/

namespace ShaderAlgebra.Json

open Request (bytesOfString)

/-! ### Characters -/

section Characters

variable {c : Char} {u v : Nat} {us : List Nat}

theorem not_surrogate (c : Char) : ¬IsLeading c.toNat ∧ ¬IsTrailing c.toNat := by
  have hvalid : c.toNat < 0xD800 ∨ 0xDFFF < c.toNat ∧ c.toNat < 0x110000 := c.valid
  unfold IsLeading IsTrailing
  omega

theorem toNat_lt_codePoints (c : Char) : c.toNat < 0x110000 := by
  have hvalid : c.toNat < 0xD800 ∨ 0xDFFF < c.toNat ∧ c.toNat < 0x110000 := c.valid
  omega

theorem IsLeading.not_trailing (h : IsLeading u) : ¬IsTrailing u := by
  unfold IsLeading at h
  unfold IsTrailing
  omega

theorem characters?_plain (hleading : ¬IsLeading u) (htrailing : ¬IsTrailing u) :
    characters? (u :: us) = (characters? us).map (Char.ofNat u :: ·) := by
  rw [characters?.eq_def]
  exact (if_neg htrailing).trans (if_neg hleading)

theorem characters?_pair (hu : IsLeading u) (hv : IsTrailing v) :
    characters? (u :: v :: us) = (characters? us).map (Char.ofNat (pairValue u v) :: ·) := by
  rw [characters?, if_neg hu.not_trailing, if_pos hu]
  exact if_pos hv

theorem characters?_trailing (hu : IsTrailing u) : characters? (u :: us) = none := by
  rw [characters?.eq_def]
  exact if_pos hu

theorem characters?_leading (hu : IsLeading u) (h : ∀ v ∈ us.head?, ¬IsTrailing v) :
    characters? (u :: us) = none := by
  cases us with
  | nil => rw [characters?, if_neg hu.not_trailing, if_pos hu]
  | cons v us =>
    rw [characters?, if_neg hu.not_trailing, if_pos hu]
    exact if_neg (h v rfl)

/-- The units of a character stand for it. -/
theorem characters?_units (c : Char) (us : List Nat) :
    characters? (units c ++ us) = (characters? us).map (c :: ·) := by
  have hvalid := toNat_lt_codePoints c
  unfold units
  split
  next hsmall =>
    obtain ⟨hleading, htrailing⟩ := not_surrogate c
    rw [List.singleton_append, characters?_plain hleading htrailing, Char.ofNat_toNat]
  next hlarge =>
    have hleading : IsLeading (0xD800 + (c.toNat - 0x10000) / 0x400) := by
      unfold IsLeading
      omega
    have htrailing : IsTrailing (0xDC00 + (c.toNat - 0x10000) % 0x400) := by
      unfold IsTrailing
      omega
    have hvalue : pairValue (0xD800 + (c.toNat - 0x10000) / 0x400)
        (0xDC00 + (c.toNat - 0x10000) % 0x400) = c.toNat := by
      unfold pairValue
      omega
    rw [List.cons_append, List.singleton_append, characters?_pair hleading htrailing, hvalue,
      Char.ofNat_toNat]

theorem not_trailing_of_mem_head?_units (c : Char) : ∀ v ∈ (units c ++ us).head?, ¬IsTrailing v := by
  have hvalid := toNat_lt_codePoints c
  unfold units
  split
  next hsmall =>
    rintro v ⟨⟩
    exact (not_surrogate c).2
  next hlarge =>
    rintro v ⟨⟩
    unfold IsTrailing
    omega

end Characters

/-! ### Strings -/

section Strings

variable {us : List Nat} {text piece bytes rest bound : List UInt8} {a b c d letter byte : UInt8}
  {u v : Nat} {x : Char}

/-- Between quotes the text stands for the characters of the units, or is refused. -/
def Closed (us : List Nat) (text : List UInt8) : Prop :=
  ∀ rest bound, (text ++ ascii '"' :: rest).length ≤ bound.length →
    (stringBytes bound (text ++ ascii '"' :: rest)).toOption =
      (characters? us).map fun cs => (cs.flatMap String.utf8EncodeChar, rest)

theorem Closed.nil : Closed [] [] := by
  intro rest bound hbound
  rw [List.nil_append, stringBytes_closed bound rest (Nat.lt_of_lt_of_le (by simp) hbound)]
  rfl

/-- A piece of text that stands for a character. -/
theorem Closed.append {us' : List Nat} (h : Closed us text)
    (hpiece : Yields piece (String.utf8EncodeChar x))
    (hunits : characters? us' = (characters? us).map (x :: ·)) : Closed us' (piece ++ text) := by
  intro rest bound hbound
  rw [List.append_assoc] at hbound ⊢
  obtain ⟨bound', hbound', hstep⟩ := hpiece (text ++ ascii '"' :: rest) bound hbound
  have hread := h rest bound' hbound'
  rw [hstep, hunits]
  cases hrun : stringBytes bound' (text ++ ascii '"' :: rest) with
  | error fault =>
    rw [hrun] at hread
    change none = _ at hread
    rw [eq_comm, Option.map_eq_none_iff] at hread
    rw [hread]
    rfl
  | ok r =>
    rw [hrun] at hread
    obtain ⟨cs, hcs, rfl⟩ := Option.map_eq_some_iff.1 hread.symm
    rw [hcs]
    rfl

/-- A text that is refused whatever follows. -/
theorem Closed.refused (hunits : characters? us = none)
    (h : ∀ rest bound, (stringBytes bound (text ++ ascii '"' :: rest)).toOption = none) :
    Closed us text := by
  intro rest bound _
  rw [h, hunits]
  rfl

theorem toNat_simpleEscape? (h : simpleEscape? letter = some byte) : byte.toNat < 128 := by
  unfold simpleEscape? at h
  split at h
  next hself =>
    cases h
    rcases hself with rfl | rfl | rfl <;> decide
  · repeat' split at h
    all_goals cases h
    all_goals decide

theorem stringBytes_numeric :
    stringBytes (b :: bound) (ascii '\\' :: ascii 'u' :: rest) = (do
      let (bytes, rest) ← numericEscape rest
      let (more, rest) ← stringBytes bound rest
      return (bytes ++ more, rest)) := by
  rw [stringBytes.eq_def]
  rfl

theorem numericEscape_plain (h : hexUnit a b c d = .ok u) (hleading : ¬IsLeading u)
    (htrailing : ¬IsTrailing u) :
    numericEscape (a :: b :: c :: d :: rest) = .ok (codePointBytes u, rest) := by
  unfold IsLeading at hleading
  unfold IsTrailing at htrailing
  simp only [numericEscape, h, bind, Except.bind, if_neg hleading, if_neg htrailing]
  rfl

theorem numericEscape_trailing (h : hexUnit a b c d = .ok u) (htrailing : IsTrailing u) :
    numericEscape (a :: b :: c :: d :: rest) = .error .loneSurrogate := by
  unfold IsTrailing at htrailing
  simp only [numericEscape, h, bind, Except.bind, if_pos htrailing]
  rfl

/-! After a leading surrogate only the escape of a trailing one is accepted. -/

section Leading

variable (h : hexUnit a b c d = .ok u) (hu : IsLeading u)

include h hu

theorem numericEscape_leading_plain (hrest : rest.head? ≠ some (ascii '\\')) :
    (numericEscape (a :: b :: c :: d :: rest)).toOption = none := by
  have htrailing : ¬(0xDC00 ≤ u ∧ u ≤ 0xDFFF) := hu.not_trailing
  unfold IsLeading at hu
  simp only [numericEscape, h, bind, Except.bind, if_neg htrailing, if_pos hu]
  cases rest with
  | nil => rfl
  | cons backslash rest =>
    have hne : backslash ≠ ascii '\\' := by simpa using hrest
    simp only [ne_eq, hne, not_false_eq_true, if_true]
    rfl

theorem numericEscape_leading_simple (hletter : letter ≠ ascii 'u') :
    (numericEscape (a :: b :: c :: d :: ascii '\\' :: letter :: rest)).toOption = none := by
  have htrailing : ¬(0xDC00 ≤ u ∧ u ≤ 0xDFFF) := hu.not_trailing
  unfold IsLeading at hu
  simp only [numericEscape, h, bind, Except.bind, if_neg htrailing, if_pos hu]
  simp only [ne_eq, hletter, not_true, not_false_eq_true, if_false, if_true]
  rfl

variable {a' b' c' d' : UInt8}

theorem numericEscape_leading_trailing (h' : hexUnit a' b' c' d' = .ok v) (hv : IsTrailing v) :
    numericEscape (a :: b :: c :: d ::
      ascii '\\' :: ascii 'u' :: a' :: b' :: c' :: d' :: rest) =
      .ok (codePointBytes (pairValue u v), rest) := by
  have htrailing : ¬(0xDC00 ≤ u ∧ u ≤ 0xDFFF) := hu.not_trailing
  unfold IsLeading at hu
  unfold IsTrailing at hv
  simp only [numericEscape, h, h', bind, Except.bind, if_neg htrailing, if_pos hu, if_pos hv,
    ne_eq, not_true, if_false]
  rfl

theorem numericEscape_leading_numeric (h' : hexUnit a' b' c' d' = .ok v) (hv : ¬IsTrailing v) :
    (numericEscape (a :: b :: c :: d ::
      ascii '\\' :: ascii 'u' :: a' :: b' :: c' :: d' :: rest)).toOption = none := by
  have htrailing : ¬(0xDC00 ≤ u ∧ u ≤ 0xDFFF) := hu.not_trailing
  unfold IsLeading at hu
  unfold IsTrailing at hv
  simp only [numericEscape, h, h', bind, Except.bind, if_neg htrailing, if_pos hu, if_neg hv,
    ne_eq, not_true, if_false]
  rfl

end Leading

/-- An escape that stands for the bytes of a character. -/
theorem yields_numeric (escape : List UInt8) (x : Char)
    (hescape : ∀ rest, numericEscape (escape ++ rest) = .ok (String.utf8EncodeChar x, rest)) :
    Yields (ascii '\\' :: ascii 'u' :: escape) (String.utf8EncodeChar x) := by
  intro rest bound hbound
  cases bound with
  | nil => simp at hbound
  | cons b bound =>
    refine ⟨bound, by simp at hbound; omega, ?_⟩
    rw [List.cons_append, List.cons_append, stringBytes_numeric, hescape]
    cases hrun : stringBytes bound rest <;> simp [bind, Except.bind, hrun] <;> rfl

theorem stringBytes_numeric_refused (h : (numericEscape rest).toOption = none) :
    (stringBytes bound (ascii '\\' :: ascii 'u' :: rest)).toOption = none := by
  cases bound with
  | nil => rfl
  | cons b bound =>
    rw [stringBytes_numeric]
    cases hescape : numericEscape rest with
    | error fault => rfl
    | ok r =>
      rw [hescape] at h
      cases h

theorem utf8EncodeChar_ofNat_toNat (h : byte.toNat < 128) :
    String.utf8EncodeChar (Char.ofNat byte.toNat) = [byte] := by
  have hvalid : byte.toNat.isValidChar := .inl (by omega)
  have hvalue : (Char.ofNat byte.toNat).toNat = byte.toNat := by
    rw [Char.ofNat, dif_pos hvalid]
    exact UInt32.toNat_ofNatLT ..
  have hbyte : ascii (Char.ofNat byte.toNat) = byte := by
    rw [← UInt8.toNat_inj, toNat_ascii (by omega), hvalue]
  rw [utf8EncodeChar_of_ascii (by omega), hbyte]

theorem head?_utf8EncodeChar_ne (hcontrol : 0x20 ≤ x.toNat) (hquote : x ≠ '"')
    (hbackslash : x ≠ '\\') :
    (String.utf8EncodeChar x ++ rest).head? ≠ some (ascii '\\') := by
  intro hhead
  have hsome : String.utf8EncodeChar x ≠ [] := String.utf8EncodeChar_ne_nil
  obtain ⟨b, more, hbytes⟩ := List.exists_cons_of_ne_nil hsome
  have hplain := plain_utf8EncodeChar hcontrol hquote hbackslash b (by simp [hbytes])
  rw [hbytes] at hhead
  exact hplain.2.2 (Option.some.inj hhead)

/-- The second part is about a leading surrogate before the text: only what follows it tells
whether it is accepted. -/
theorem closed_of_spells (h : SpellsUnits us text) : Closed us text ∧
    ∀ a b c d u, hexUnit a b c d = .ok u → IsLeading u →
      Closed (u :: us) (ascii '\\' :: ascii 'u' :: a :: b :: c :: d :: text) := by
  induction h with
  | nil =>
    refine ⟨Closed.nil, fun a b c d u hunit hu => ?_⟩
    refine Closed.refused (characters?_leading hu (by simp)) fun rest bound => ?_
    exact stringBytes_numeric_refused
      (numericEscape_leading_plain hunit hu (by rintro ⟨⟩))
  | @plain us text x hcontrol hquote hbackslash _ ih =>
    refine ⟨?_, fun a b c d u hunit hu => ?_⟩
    · exact ih.1.append (Yields.plains (plain_utf8EncodeChar hcontrol hquote hbackslash))
        (characters?_units x us)
    · refine Closed.refused (characters?_leading hu (not_trailing_of_mem_head?_units x)) ?_
      intro rest bound
      refine stringBytes_numeric_refused (numericEscape_leading_plain hunit hu ?_)
      change ((String.utf8EncodeChar x ++ text) ++ ascii '"' :: rest).head? ≠ _
      rw [List.append_assoc]
      exact head?_utf8EncodeChar_ne hcontrol hquote hbackslash
  | @simple us text letter byte hescape _ ih =>
    have hsmall : byte.toNat < 128 := toNat_simpleEscape? hescape
    have htrailing : ¬IsTrailing byte.toNat := by
      unfold IsTrailing
      omega
    refine ⟨?_, fun a b c d u hunit hu => ?_⟩
    · have hleading : ¬IsLeading byte.toNat := by
        unfold IsLeading
        omega
      have hyields := Yields.simple hescape
      rw [← utf8EncodeChar_ofNat_toNat hsmall] at hyields
      exact ih.1.append hyields (characters?_plain hleading htrailing)
    · have hletter : letter ≠ ascii 'u' := by
        rintro rfl
        cases hescape
      refine Closed.refused (characters?_leading hu ?_) fun rest bound => ?_
      · rintro v ⟨⟩
        exact htrailing
      · exact stringBytes_numeric_refused (numericEscape_leading_simple hunit hu hletter)
  | @numeric us text a b c d u hunit _ ih =>
    refine ⟨?_, fun a₀ b₀ c₀ d₀ u₀ hunit₀ hu₀ => ?_⟩
    · by_cases hleading : IsLeading u
      · exact ih.2 a b c d u hunit hleading
      by_cases htrailing : IsTrailing u
      · refine Closed.refused (characters?_trailing htrailing) fun rest bound => ?_
        refine stringBytes_numeric_refused ?_
        exact congrArg Except.toOption (numericEscape_trailing hunit htrailing)
      · have hyields := yields_numeric [a, b, c, d] (Char.ofNat u) fun _ =>
          numericEscape_plain hunit hleading htrailing
        exact ih.1.append hyields (characters?_plain hleading htrailing)
    · by_cases htrailing : IsTrailing u
      · have hyields := yields_numeric [a₀, b₀, c₀, d₀, ascii '\\', ascii 'u', a, b, c, d]
          (Char.ofNat (pairValue u₀ u)) fun _ =>
            numericEscape_leading_trailing hunit₀ hu₀ hunit htrailing
        exact ih.1.append hyields (characters?_pair hu₀ htrailing)
      · refine Closed.refused (characters?_leading hu₀ ?_) fun rest bound => ?_
        · rintro v ⟨⟩
          exact htrailing
        · exact stringBytes_numeric_refused
            (numericEscape_leading_numeric hunit₀ hu₀ hunit htrailing)

end Strings

namespace Scan

variable {ε α β σ : Type} {step : Scan ε α} {text bytes rest blanks : List UInt8} {b : UInt8}
  {wrap : Fault → ε}

/-! ### Steps without their faults -/

/-- What a step gives, if it does not stop with a fault. -/
def accepts (step : Scan ε α) (bytes : List UInt8) : Option (α × List UInt8) :=
  (step bytes).toOption

theorem accepts_of_ok {r : α × List UInt8} (h : step bytes = .ok r) :
    accepts step bytes = some r := by
  rw [accepts, h]
  rfl

theorem accepts_bind (step : Scan ε α) (f : α → Scan ε β) (bytes : List UInt8) :
    accepts (step >>= f) bytes = (accepts step bytes).bind fun r => accepts (f r.1) r.2 := by
  unfold accepts
  rw [bind_apply]
  cases step bytes <;> rfl

theorem accepts_bind_of_ok {f : α → Scan ε β} {a : α} (h : step bytes = .ok (a, rest)) :
    accepts (step >>= f) bytes = accepts (f a) rest := by
  rw [accepts, bind_of_ok h]
  rfl

theorem accepts_widen (s : Scan Fault α) : accepts (s.widen wrap) bytes = accepts s bytes := by
  unfold accepts
  rw [widen_apply]
  cases s bytes <;> rfl

/-- The step takes the text and gives the outcome, whatever follows the text. -/
def Parses (step : Scan ε α) (text : List UInt8) (outcome : Option α) : Prop :=
  ∀ rest, Stops rest → accepts step (text ++ rest) = outcome.map (·, rest)

variable {outcome : Option α}

theorem Takes.parses {outcome : Except ε α} (h : Takes step text outcome) :
    Parses step text outcome.toOption := by
  intro rest hrest
  rw [accepts, h rest hrest]
  cases outcome <;> rfl

theorem Parses.bind {f : α → Scan ε β} {g : α → Option β} (h : Parses step text outcome)
    (hf : ∀ a bytes, accepts (f a) bytes = (g a).map (·, bytes)) :
    Parses (step >>= f) text (outcome.bind g) := by
  intro rest hrest
  rw [accepts_bind, h rest hrest]
  cases outcome with
  | none => rfl
  | some a => exact hf a rest

theorem Parses.map (h : Parses step text outcome) (f : α → β) :
    Parses (do return f (← step)) text (outcome.map f) := by
  rw [Option.map_eq_bind]
  exact h.bind fun _ _ => rfl

/-- A string is taken up to its closing quote, so it does not matter what follows. -/
theorem accepts_string {us : List Nat} (h : SpellsUnits us text) (rest : List UInt8) :
    accepts string (quotedBytes text ++ rest) = (stringOf? us).map (·, rest) := by
  let input := text ++ ascii '"' :: rest
  have hread := (closed_of_spells h).1 rest input (Nat.le_refl _)
  have hinput : quotedBytes text ++ rest = ascii '"' :: input := by simp [quotedBytes, input]
  rw [hinput]
  unfold stringOf?
  cases hcs : characters? us with
  | some cs =>
    rw [hcs] at hread
    have hbytes : stringBytes input input = .ok (bytesOfString (String.ofList cs), rest) := by
      rw [bytesOfString_ofList]
      cases hrun : stringBytes input input with
      | error fault =>
        rw [hrun] at hread
        cases hread
      | ok r =>
        rw [hrun] at hread
        exact congrArg Except.ok (Option.some.inj hread)
    exact accepts_of_ok (string_of_bytes hbytes)
  | none =>
    rw [hcs] at hread
    cases hrun : stringBytes input input with
    | ok r =>
      rw [hrun] at hread
      cases hread
    | error fault =>
      have hlift : (liftM (stringBytes input input) : Scan Fault _) input = .error fault := by
        rw [hrun]
        rfl
      rw [string, accepts_bind_of_ok skip_cons, accepts_bind_of_ok get_apply, accepts,
        bind_of_error hlift]
      rfl

/-! ### Numbers -/

section Numbers

variable {whole fraction tail run : List UInt8} {negative : Bool} {letter sign : UInt8}

theorem exponent_unsigned (hrun : IsRun run) (hrest : Stops rest) :
    exponent (run ++ rest) = .ok ((runValue 0 run : Int), rest) := by
  obtain ⟨hne, hdigits⟩ := hrun
  have hsign : ¬((run ++ rest).head? = some (ascii '+') ∨ (run ++ rest).head? = some (ascii '-')) := by
    obtain ⟨b, more, rfl⟩ := List.exists_cons_of_ne_nil hne
    have hb : isDigit b := hdigits b List.mem_cons_self
    rw [List.cons_append, List.head?_cons, Option.some.injEq, Option.some.injEq]
    rintro (rfl | rfl) <;> exact absurd hb (by decide)
  have hvalue := foldl_eq_runValue 0 run
  have hsome : run.isEmpty = false := by simpa using hne
  obtain ⟨-, hminus⟩ := not_or.1 hsign
  rw [exponent, bind_of_ok peek_apply, if_neg hsign]
  refine (bind_of_ok (digits_apply hdigits (endsRun_of_stops hrest))).trans ?_
  simp only [hsome, Bool.false_eq_true, if_false, if_neg hminus, hvalue]
  rfl

theorem exponent_signed (hsign : sign = ascii '+' ∨ sign = ascii '-') (hrun : IsRun run)
    (hrest : Stops rest) :
    exponent (sign :: (run ++ rest)) =
      .ok (if sign = ascii '-' then -(runValue 0 run) else runValue 0 run, rest) := by
  obtain ⟨hne, hdigits⟩ := hrun
  have hvalue := foldl_eq_runValue 0 run
  have hsome : run.isEmpty = false := by simpa using hne
  have hsign' : some sign = some (ascii '+') ∨ some sign = some (ascii '-') := by simpa using hsign
  rw [exponent, bind_of_ok peek_apply, List.head?_cons, if_pos hsign', bind_of_ok skip_cons]
  refine (bind_of_ok (digits_apply hdigits (endsRun_of_stops hrest))).trans ?_
  simp only [hsome, Bool.false_eq_true, if_false, Option.some.injEq, hvalue]
  rfl

theorem exponent?_letter {e : Int} (hletter : letter = ascii 'e' ∨ letter = ascii 'E')
    (h : exponent bytes = .ok (e, rest)) : exponent? (letter :: bytes) = .ok (some e, rest) := by
  have hhead : some letter = some (ascii 'e') ∨ some letter = some (ascii 'E') := by
    simpa using hletter
  rw [exponent?, bind_of_ok peek_apply, List.head?_cons, if_pos hhead, bind_of_ok skip_cons]
  exact map_of_ok h

/-- An exponent, or none, is taken as a whole. -/
theorem exists_exponent? (h : IsExponent text) :
    ∃ e, ∀ rest, Stops rest → exponent? (text ++ rest) = .ok (e, rest) := by
  cases h with
  | none => exact ⟨none, fun _ => exponent?_none⟩
  | unsigned hletter hrun =>
    exact ⟨_, fun _ hrest => exponent?_letter hletter (exponent_unsigned hrun hrest)⟩
  | signed hletter hsign hrun =>
    exact ⟨_, fun _ hrest => exponent?_letter hletter (exponent_signed hsign hrun hrest)⟩

/-- Neither a digit nor a point follows the digits before an exponent. -/
theorem not_digit_of_isExponent (h : IsExponent text) (hrest : Stops rest) :
    EndsRun (text ++ rest) ∧ (text ++ rest).head? ≠ some (ascii '.') := by
  cases h with
  | none => exact ⟨endsRun_of_stops hrest, fun hpoint => (hrest _ hpoint).2.1 rfl⟩
  | unsigned hletter | signed hletter =>
    rcases hletter with rfl | rfl
    all_goals
      refine ⟨?_, by simp; decide⟩
      rintro b ⟨⟩
      decide

theorem exists_real (negative : Bool) (significand : Nat) (e : Int) :
    ∃ outcome : Except Fault Number,
      ∀ bytes, real negative significand e bytes = outcome.map (·, bytes) := by
  unfold real
  cases realOfParts? significand e with
  | some x => exact ⟨.ok _, fun _ => rfl⟩
  | none => exact ⟨.error _, fun _ => rfl⟩

theorem unsigned_whole (hrun : IsRun whole) (hzero : NoLeadingZero whole) (htail : EndsRun tail) :
    unsigned negative (whole ++ tail) =
      (do
        if (← peek) = some (ascii '.') then
          skip
          let fraction ← digits
          if fraction.isEmpty then noDigit
          let (significand, dropped) := absorb (absorb 0 whole).1 fraction
          let scale : Int :=
            (absorb 0 whole).2.length - (fraction.length - dropped.length : Nat)
          real negative significand (scale + (← exponent?).getD 0)
        else
          match ← exponent? with
          | some e => real negative (absorb 0 whole).1 ((absorb 0 whole).2.length + e)
          | none =>
            if (absorb 0 whole).2.isEmpty then return integer negative (absorb 0 whole).1
            else real negative (absorb 0 whole).1 (absorb 0 whole).2.length) tail := by
  obtain ⟨hne, hdigits⟩ := hrun
  have hsome : ¬whole.isEmpty = true := by simpa using hne
  rw [unsigned, bind_of_ok (digits_apply hdigits htail)]
  exact congrFun ((if_neg hsome).trans (if_neg hzero)) tail

/-- A number without a sign is taken as a whole. -/
theorem exists_takes_unsigned (negative : Bool) (h : IsUnsigned text) :
    ∃ outcome, Takes (unsigned negative) text outcome := by
  obtain ⟨hwhole, hzero, hfraction, hexponent⟩ := h
  rename_i whole fraction exponentText
  obtain ⟨e, he⟩ := exists_exponent? hexponent
  cases hfraction with
  | none =>
    obtain ⟨outcome, houtcome⟩ : ∃ outcome : Except Fault Number, ∀ bytes,
        (match e with
          | some e => real negative (absorb 0 whole).1 ((absorb 0 whole).2.length + e)
          | none =>
            if (absorb 0 whole).2.isEmpty then return integer negative (absorb 0 whole).1
            else real negative (absorb 0 whole).1 (absorb 0 whole).2.length) bytes =
          outcome.map (·, bytes) := by
      cases e with
      | some e => exact exists_real ..
      | none =>
        split
        · exact ⟨.ok _, fun _ => rfl⟩
        · exact exists_real ..
    refine ⟨outcome, fun rest hrest => ?_⟩
    obtain ⟨htail, hpoint⟩ := not_digit_of_isExponent hexponent hrest
    rw [List.nil_append, List.append_assoc, unsigned_whole hwhole hzero htail,
      bind_of_ok peek_apply, if_neg hpoint, bind_of_ok (he rest hrest)]
    exact houtcome rest
  | @point run hrun =>
    obtain ⟨outcome, houtcome⟩ := exists_real negative (absorb (absorb 0 whole).1 run).1
      (((absorb 0 whole).2.length : Int) -
        (run.length - (absorb (absorb 0 whole).1 run).2.length : Nat) + e.getD 0)
    refine ⟨outcome, fun rest hrest => ?_⟩
    have hsome : run.isEmpty = false := by simpa using hrun.1
    have htail := (not_digit_of_isExponent hexponent hrest).1
    have hpoint : EndsRun (ascii '.' :: (run ++ (exponentText ++ rest))) := by
      rintro b ⟨⟩
      decide
    rw [List.append_assoc, List.cons_append, List.cons_append, List.append_assoc,
      unsigned_whole hwhole hzero hpoint, bind_of_ok peek_apply]
    rw [List.head?_cons, if_pos rfl]
    refine (bind_of_ok skip_cons).trans ((bind_of_ok (digits_apply hrun.2 htail)).trans ?_)
    simp only [hsome, Bool.false_eq_true, if_false]
    exact (bind_of_ok (he rest hrest)).trans (houtcome rest)

/-- A number is taken as a whole. -/
theorem parses_number (h : IsNumeral text) : Parses number text (numberOf? text) := by
  obtain ⟨outcome, htakes⟩ : ∃ outcome, Takes number text outcome := by
    cases h with
    | negative htext =>
      obtain ⟨outcome, htakes⟩ := exists_takes_unsigned true htext
      exact ⟨outcome, htakes⟩
    | positive htext =>
      obtain ⟨outcome, htakes⟩ := exists_takes_unsigned false htext
      refine ⟨outcome, fun rest hrest => ?_⟩
      obtain ⟨⟨hne, hdigits⟩, -, -, -⟩ := htext
      rename_i whole fraction exponentText
      have hsign : ((whole ++ (fraction ++ exponentText)) ++ rest).head? ≠ some (ascii '-') := by
        obtain ⟨b, more, rfl⟩ := List.exists_cons_of_ne_nil hne
        have hb : isDigit b := hdigits b List.mem_cons_self
        rintro ⟨⟩
        exact absurd hb (by decide)
      rw [number, bind_of_ok peek_apply, if_neg hsign]
      exact htakes rest hrest
  have hvalue : numberOf? text = outcome.toOption := by
    have hnone := htakes [] Stops.nil
    rw [List.append_nil] at hnone
    rw [numberOf?, hnone]
    cases outcome <;> rfl
  rw [hvalue]
  exact htakes.parses

end Numbers

end Scan

end ShaderAlgebra.Json
