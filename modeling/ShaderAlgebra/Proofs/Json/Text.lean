import ShaderAlgebra.Request.Read
import ShaderAlgebra.Proofs.Json.Scan

/-!
# Written strings

Reading a written string gives the string back. Its characters are treated one
by one: a plain character is a run of bytes that stand for themselves, and each
escape is undone.
-/

namespace ShaderAlgebra.Json

open Request (bytesOfString)

/-! ### Bytes of strings -/

theorem bytesOfString_append (s t : String) :
    bytesOfString (s ++ t) = bytesOfString s ++ bytesOfString t := by
  simp only [bytesOfString, String.toUTF8, String.toByteArray_append, ByteArray.data_append,
    Array.toList_append]

theorem bytesOfString_ofList (l : List Char) :
    bytesOfString (String.ofList l) = l.flatMap String.utf8EncodeChar := by
  simp only [bytesOfString, String.toUTF8, String.toByteArray_ofList, List.utf8Encode,
    List.data_toByteArray]

theorem bytesOfString_eq_flatMap (s : String) :
    bytesOfString s = s.toList.flatMap String.utf8EncodeChar := by
  rw [← bytesOfString_ofList, String.ofList_toList]

theorem fromUTF8?_bytesOfString (s : String) :
    String.fromUTF8? ⟨(bytesOfString s).toArray⟩ = some s := by
  simp only [bytesOfString, Array.toArray_toList, String.toUTF8]
  rw [String.fromUTF8?, dif_pos s.isValidUTF8]
  rfl

theorem utf8EncodeChar_of_ascii {c : Char} (h : c.toNat < 128) :
    String.utf8EncodeChar c = [ascii c] := by
  have hval : c.val.toNat ≤ 127 := Nat.le_of_lt_succ h
  rw [String.utf8EncodeChar, if_pos hval]
  rfl

theorem flatMap_utf8EncodeChar_of_ascii {l : List Char} (h : ∀ c ∈ l, c.toNat < 128) :
    l.flatMap String.utf8EncodeChar = l.map ascii := by
  induction l with
  | nil => rfl
  | cons c l ih =>
    rw [List.flatMap_cons, utf8EncodeChar_of_ascii (h c List.mem_cons_self),
      ih fun d hd => h d (List.mem_cons_of_mem c hd)]
    rfl

/-! ### Characters -/

variable {bytes rest bound : List UInt8} {c : Char}

/-- Bytes that stand for themselves between quotes. -/
def Plain (b : UInt8) : Prop := 0x20 ≤ b ∧ b ≠ ascii '"' ∧ b ≠ ascii '\\'

instance (b : UInt8) : Decidable (Plain b) := inferInstanceAs (Decidable (_ ∧ _))

theorem plain_ofNat {n : Nat} (hcontrol : 0x20 ≤ n) (hbyte : n < 256) (hquote : n ≠ '"'.toNat)
    (hbackslash : n ≠ '\\'.toNat) : Plain (UInt8.ofNat n) := by
  have hn : (UInt8.ofNat n).toNat = n := by rw [UInt8.toNat_ofNat', Nat.mod_eq_of_lt hbyte]
  refine ⟨?_, ?_, ?_⟩
  · rw [UInt8.le_iff_toNat_le, hn]
    exact hcontrol
  · intro h
    rw [h] at hn
    exact hquote hn.symm
  · intro h
    rw [h] at hn
    exact hbackslash hn.symm

theorem plain_of_high {n : Nat} (hhigh : 128 ≤ n) (hbyte : n < 256) : Plain (UInt8.ofNat n) := by
  have hquote : '"'.toNat = 34 := rfl
  have hbackslash : '\\'.toNat = 92 := rfl
  exact plain_ofNat (by omega) hbyte (by omega) (by omega)

theorem plain_utf8EncodeChar (hcontrol : 0x20 ≤ c.toNat) (hquote : c ≠ '"')
    (hbackslash : c ≠ '\\') : ∀ b ∈ String.utf8EncodeChar c, Plain b := by
  have hquote' : c.toNat ≠ '"'.toNat := fun h => hquote (Char.toNat_inj.mp h)
  have hbackslash' : c.toNat ≠ '\\'.toNat := fun h => hbackslash (Char.toNat_inj.mp h)
  -- a character of several bytes has none below 128
  unfold String.utf8EncodeChar
  change ∀ b ∈ (if c.toNat ≤ 127 then _ else _), Plain b
  split
  · simpa using plain_ofNat hcontrol (by omega) hquote' hbackslash'
  split
  · simp only [List.forall_mem_cons]
    exact ⟨plain_of_high (by omega) (by omega), plain_of_high (by omega) (by omega), by simp⟩
  split
  · simp only [List.forall_mem_cons]
    exact ⟨plain_of_high (by omega) (by omega), plain_of_high (by omega) (by omega),
      plain_of_high (by omega) (by omega), by simp⟩
  · simp only [List.forall_mem_cons]
    exact ⟨plain_of_high (by omega) (by omega), plain_of_high (by omega) (by omega),
      plain_of_high (by omega) (by omega), plain_of_high (by omega) (by omega), by simp⟩

/-- Between quotes, `text` stands for `bytes`. -/
def Yields (text bytes : List UInt8) : Prop :=
  ∀ rest bound, (text ++ rest).length ≤ bound.length →
    ∃ bound', rest.length ≤ bound'.length ∧
      stringBytes bound (text ++ rest) =
        (stringBytes bound' rest).map fun (more, after) => (bytes ++ more, after)

namespace Yields

variable {text text' bytes bytes' : List UInt8}

theorem nil : Yields [] [] := by
  intro rest bound hbound
  refine ⟨bound, hbound, ?_⟩
  rw [List.nil_append]
  cases stringBytes bound rest <;> rfl

theorem append (h : Yields text bytes) (h' : Yields text' bytes') :
    Yields (text ++ text') (bytes ++ bytes') := by
  intro rest bound hbound
  rw [List.append_assoc] at hbound ⊢
  obtain ⟨middle, hmiddle, hfirst⟩ := h (text' ++ rest) bound hbound
  obtain ⟨bound', hbound', hsecond⟩ := h' rest middle hmiddle
  refine ⟨bound', hbound', ?_⟩
  rw [hfirst, hsecond]
  cases stringBytes bound' rest with
  | ok r => exact congrArg (fun l => Except.ok (l, r.2)) (List.append_assoc _ _ _).symm
  | error fault => rfl

theorem plain {b : UInt8} (h : Plain b) : Yields [b] [b] := by
  intro rest bound hbound
  obtain ⟨hcontrol, hquote, hbackslash⟩ := h
  cases bound with
  | nil => simp at hbound
  | cons _ bound =>
    refine ⟨bound, by simpa using hbound, ?_⟩
    rw [List.singleton_append, stringBytes.eq_def]
    simp only [if_neg hquote, if_neg hbackslash, if_neg (UInt8.not_lt.mpr hcontrol)]
    cases stringBytes bound rest <;> rfl

theorem plains (h : ∀ b ∈ bytes, Plain b) : Yields bytes bytes := by
  induction bytes with
  | nil => exact nil
  | cons b bytes ih =>
    exact append (plain (h b List.mem_cons_self)) (ih fun d hd => h d (List.mem_cons_of_mem b hd))

theorem simple {letter byte : UInt8} (h : simpleEscape? letter = some byte) :
    Yields [ascii '\\', letter] [byte] := by
  intro rest bound hbound
  cases bound with
  | nil => simp at hbound
  | cons _ bound =>
    refine ⟨bound, by simp at hbound; omega, ?_⟩
    rw [List.cons_append, List.singleton_append, stringBytes.eq_def]
    simp only [show ¬(ascii '\\' = ascii '"') by decide, if_true, if_false, h, pure_bind]
    cases stringBytes bound rest <;> rfl

theorem hexDigits_of_control : ∀ n < 0x20,
    ((Nat.digitChar (n / 16)).toNat < 128 ∧ (Nat.digitChar (n % 16)).toNat < 128) ∧
      hexValue? (ascii (Nat.digitChar (n / 16))) = some (n / 16) ∧
      hexValue? (ascii (Nat.digitChar (n % 16))) = some (n % 16) := by
  decide

theorem control (h : c.toNat < 0x20) :
    Yields [ascii '\\', ascii 'u', ascii '0', ascii '0', ascii (Nat.digitChar (c.toNat / 16)),
      ascii (Nat.digitChar (c.toNat % 16))] (String.utf8EncodeChar c) := by
  intro rest bound hbound
  have hescape : numericEscape (ascii '0' :: ascii '0' :: ascii (Nat.digitChar (c.toNat / 16)) ::
      ascii (Nat.digitChar (c.toNat % 16)) :: rest) = .ok (String.utf8EncodeChar c, rest) := by
    have hcode : codePointBytes c.toNat = String.utf8EncodeChar c := by
      rw [codePointBytes, Char.ofNat_toNat]
    have hsurrogate : ¬(0xDC00 ≤ c.toNat ∧ c.toNat ≤ 0xDFFF) := by omega
    have hleading : ¬(0xD800 ≤ c.toNat ∧ c.toNat ≤ 0xDBFF) := by omega
    have hunit : hexUnit (ascii '0') (ascii '0') (ascii (Nat.digitChar (c.toNat / 16)))
        (ascii (Nat.digitChar (c.toNat % 16))) = .ok c.toNat := by
      obtain ⟨-, hhigh, hlow⟩ := hexDigits_of_control c.toNat h
      rw [hexUnit, hhigh, hlow, show hexValue? (ascii '0') = some 0 by decide]
      exact congrArg Except.ok (by omega)
    simp only [numericEscape, hunit, bind, Except.bind, if_neg hsurrogate, if_neg hleading, hcode]
    rfl
  cases bound with
  | nil => simp at hbound
  | cons _ bound =>
    refine ⟨bound, by simp at hbound; omega, ?_⟩
    simp only [List.cons_append, List.nil_append]
    rw [stringBytes.eq_def]
    simp only [show ¬(ascii '\\' = ascii '"') by decide, if_true, if_false,
      show simpleEscape? (ascii 'u') = none by decide, hescape, bind, Except.bind]
    cases stringBytes bound rest <;> rfl

theorem escapeChar (c : Char) :
    Yields ((Json.escapeChar c).flatMap String.utf8EncodeChar) (String.utf8EncodeChar c) := by
  unfold Json.escapeChar
  split
  · exact simple (by decide)
  · exact simple (by decide)
  · exact simple (by decide)
  · exact simple (by decide)
  · exact simple (by decide)
  · exact simple (by decide)
  · exact simple (by decide)
  · rename_i hquote hbackslash _ _ _ _ _
    split
    case isTrue hcontrol =>
      obtain ⟨⟨hhigh, hlow⟩, -⟩ := hexDigits_of_control c.toNat hcontrol
      rw [flatMap_utf8EncodeChar_of_ascii]
      · exact control hcontrol
      · simp [hhigh, hlow]
    case isFalse hcontrol =>
      rw [List.flatMap_singleton]
      exact plains (plain_utf8EncodeChar (by omega) hquote hbackslash)

theorem escapeChars (l : List Char) :
    Yields ((l.flatMap Json.escapeChar).flatMap String.utf8EncodeChar)
      (l.flatMap String.utf8EncodeChar) := by
  induction l with
  | nil => exact nil
  | cons c l ih =>
    rw [List.flatMap_cons, List.flatMap_append, List.flatMap_cons]
    exact append (escapeChar c) ih

end Yields

/-! ### Strings -/

theorem stringBytes_closed (bound rest : List UInt8) (h : 0 < bound.length) :
    stringBytes bound (ascii '"' :: rest) = .ok ([], rest) := by
  cases bound with
  | nil => simp at h
  | cons _ bound => rw [stringBytes.eq_def]; rfl

theorem string_of_bytes {s : String} {input rest : List UInt8}
    (h : stringBytes input input = .ok (bytesOfString s, rest)) :
    Scan.string (ascii '"' :: input) = .ok (s, rest) := by
  have hlift : (liftM (stringBytes input input) : Scan Fault _) input =
      .ok ((bytesOfString s, rest), input) := by
    rw [h]
    rfl
  rw [Scan.string, Scan.bind_of_ok Scan.skip_cons, Scan.bind_of_ok Scan.get_apply,
    Scan.bind_of_ok hlift]
  simp only [fromUTF8?_bytesOfString]
  rfl

theorem bytesOfString_stringText (s : String) :
    bytesOfString (stringText s) =
      ascii '"' :: ((s.toList.flatMap escapeChar).flatMap String.utf8EncodeChar ++ [ascii '"']) := by
  rw [stringText, bytesOfString_ofList, List.flatMap_append, List.flatMap_cons,
    List.flatMap_singleton, utf8EncodeChar_of_ascii (by decide)]
  rfl

theorem string_stringText (s : String) (rest : List UInt8) :
    Scan.string (bytesOfString (stringText s) ++ rest) = .ok (s, rest) := by
  obtain ⟨bound, hbound, hbytes⟩ := Yields.escapeChars s.toList (ascii '"' :: rest) _ (Nat.le_refl _)
  have hpositive : 0 < bound.length := Nat.lt_of_lt_of_le (by simp) hbound
  rw [stringBytes_closed bound rest hpositive, ← bytesOfString_eq_flatMap] at hbytes
  simp only [Except.map, List.append_nil] at hbytes
  rw [bytesOfString_stringText, List.cons_append, List.append_assoc, List.singleton_append]
  exact string_of_bytes hbytes

end ShaderAlgebra.Json
