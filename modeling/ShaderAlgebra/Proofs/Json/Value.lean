import ShaderAlgebra.Request.Write
import ShaderAlgebra.Proofs.Json.Number

/-!
# Written values

`Writes depth v text` says that the text is read as the value `v`, wherever a
value may stand and while `depth` more containers may be open. Strings and
numbers are written so at every depth; lists and objects need one more than
what they hold.
-/

namespace ShaderAlgebra.Json

open Request (bytesOfString listText objectText)

variable {α β : Type} {depth : Nat} {rest text : List UInt8} {b : UInt8}

namespace Scan

/-! ### Tokens -/

theorem token_string (s : String) (rest : List UInt8) :
    token (bytesOfString (stringText s) ++ rest) = .ok (.string s, rest) := by
  have hstring := string_stringText s rest
  rw [bytesOfString_stringText] at hstring ⊢
  change (do return Found.string (← string)) _ = _
  exact bind_of_ok hstring

theorem token_null (rest : List UInt8) :
    token (bytesOfString "null" ++ rest) = .ok (.null, rest) := rfl

theorem token_list (rest : List UInt8) :
    token (ascii '[' :: rest) = .ok (.list, ascii '[' :: rest) := rfl

theorem token_object (rest : List UInt8) :
    token (ascii '\x7b' :: rest) = .ok (.object, ascii '\x7b' :: rest) := rfl

theorem colon_cons : colon (ascii ':' :: rest) = .ok ((), rest) := rfl

def StartsNumber (b : UInt8) : Prop := b = ascii '-' ∨ isDigit b

instance (b : UInt8) : Decidable (StartsNumber b) := inferInstanceAs (Decidable (_ ∨ _))

theorem StartsNumber.ne {c : UInt8} (h : StartsNumber b) (hc : ¬StartsNumber c) : b ≠ c :=
  fun hbc => hc (hbc ▸ h)

theorem StartsNumber.not_blank (h : StartsNumber b) : isBlank b = false := by
  simp only [isBlank, Bool.or_eq_false_iff, beq_eq_false_iff_ne]
  exact ⟨⟨⟨h.ne (by decide), h.ne (by decide)⟩, h.ne (by decide)⟩, h.ne (by decide)⟩

theorem startsNumber_of_number {input : List UInt8} {r : Number × List UInt8}
    (h : number input = .ok r) : ∃ b tail, input = b :: tail ∧ StartsNumber b := by
  cases input with
  | nil => cases h
  | cons b tail =>
    refine ⟨b, tail, rfl, ?_⟩
    by_contra hb
    rw [StartsNumber, not_or, Bool.not_eq_true] at hb
    have hnone : digits ([] ++ b :: tail) = .ok ([], b :: tail) :=
      digits_apply (by simp) (by rintro b ⟨⟩; exact hb.2)
    have hsign : (b :: tail).head? ≠ some (ascii '-') := by simpa using hb.1
    have hfault : number (b :: tail) = .error .badNumber := by
      rw [number, bind_of_ok peek_apply, if_neg hsign, unsigned]
      refine (bind_of_ok hnone).trans ?_
      rfl
    rw [hfault] at h
    cases h

theorem token_number {n : Number} {input : List UInt8} (h : number input = .ok (n, rest)) :
    token input = .ok (.number n, rest) := by
  obtain ⟨b, tail, rfl, hb⟩ := startsNumber_of_number h
  rw [token, bind_of_ok (peekToken_cons hb.not_blank)]
  simp only [if_neg (hb.ne (c := ascii 'n') (by decide)),
    if_neg (hb.ne (c := ascii 't') (by decide)), if_neg (hb.ne (c := ascii 'f') (by decide))]
  rw [if_pos (by simpa [StartsNumber] using hb)]
  exact bind_of_ok h

end Scan

/-! ### Values -/

structure Writes (depth : Nat) (v : Value) (text : String) : Prop where
  takes : Scan.Takes (Scan.value depth) (bytesOfString text) (.ok v)
  opens : Scan.Opens Scan.nextItem (bytesOfString text)

theorem writes_string (depth : Nat) (s : String) : Writes depth (.string s) (stringText s) where
  takes := by
    intro rest _
    have htoken := Scan.token_string s rest
    cases depth <;> exact Scan.bind_of_ok htoken
  opens := by
    rw [bytesOfString_stringText]
    exact Scan.opens_nextItem (by decide) (by decide)

theorem writes_null (depth : Nat) : Writes depth .null "null" where
  takes := by
    intro rest _
    have htoken := Scan.token_null rest
    cases depth <;> exact Scan.bind_of_ok htoken
  opens := Scan.opens_nextItem (by decide) (by decide)

theorem writes_number (depth : Nat) {n : Number} {text : String}
    (h : Scan.Takes Scan.number (bytesOfString text) (.ok n)) : Writes depth (.number n) text where
  takes := by
    intro rest hrest
    have htoken := Scan.token_number (h rest hrest)
    cases depth <;> exact Scan.bind_of_ok htoken
  opens := by
    obtain ⟨b, tail, htext, hb⟩ := Scan.startsNumber_of_number (h [] Stops.nil)
    rw [List.append_nil] at htext
    rw [htext]
    exact Scan.opens_nextItem hb.not_blank (hb.ne (by decide))

/-! ### Containers -/

theorem bytesOfString_intercalate (textOf : β → String) (xs : List β) :
    bytesOfString (",".intercalate (xs.map textOf)) =
      Scan.separated (fun x => bytesOfString (textOf x)) true xs := by
  cases xs with
  | nil => rfl
  | cons x xs =>
    induction xs generalizing x with
    | nil => simp [Scan.separated, Scan.separator]
    | cons y xs ih =>
      rw [List.map_cons, List.map_cons, String.intercalate_cons_cons, bytesOfString_append,
        bytesOfString_append, ← List.map_cons, ih y]
      simp [Scan.separated, Scan.separator]
      rfl

theorem foldlM_push (valueOf : β → α) (xs : List β) (acc : Array α) :
    xs.foldlM (fun acc x => (.ok (acc.push (valueOf x)) : Except Fault _)) acc =
      .ok (acc ++ (xs.map valueOf).toArray) := by
  induction xs generalizing acc with
  | nil => simp [pure, Except.pure]
  | cons x xs ih =>
    rw [List.foldlM_cons]
    refine (ih (acc.push (valueOf x))).trans ?_
    simp

theorem bytesOfString_listText (textOf : β → String) (xs : List β) :
    bytesOfString (listText (xs.map textOf)) = ascii '[' ::
      (Scan.separated (fun x => bytesOfString (textOf x)) true xs ++ [ascii ']']) := by
  rw [listText, bytesOfString_append, bytesOfString_append, bytesOfString_intercalate]
  rfl

theorem writes_list {xs : List β} {valueOf : β → Value} {textOf : β → String}
    (h : ∀ x ∈ xs, Writes depth (valueOf x) (textOf x)) :
    Writes (depth + 1) (.list (xs.map valueOf)) (listText (xs.map textOf)) where
  takes := by
    have hitem (x : β) (hx : x ∈ xs) (items : Array Value) :
        Scan.Takes (do return items.push (← Scan.value depth)) (bytesOfString (textOf x))
          (.ok (items.push (valueOf x))) := (h x hx).takes.map items.push
    have hlist : Scan.Takes
        (Scan.list id (fun items => do return items.push (← Scan.value depth)) #[])
        (Scan.separated (fun x => bytesOfString (textOf x)) true xs ++ [ascii ']'])
        (.ok (xs.map valueOf).toArray) := by
      have hfold := foldlM_push valueOf xs #[]
      rw [Array.empty_append] at hfold
      rw [← hfold]
      exact Scan.takes_list (fun x hx => (h x hx).opens) hitem
    intro rest hrest
    rw [bytesOfString_listText, List.cons_append]
    exact (Scan.bind_of_ok (Scan.token_list _)).trans <|
      (Scan.bind_of_ok Scan.skip_cons).trans (Scan.bind_of_ok (hlist rest hrest))
  opens := by
    rw [bytesOfString_listText]
    exact Scan.opens_nextItem (by decide) (by decide)

def memberBytes (member : String × String) : List UInt8 :=
  bytesOfString (stringText member.1) ++ ascii ':' :: bytesOfString member.2

theorem bytesOfString_objectText (memberOf : β → String × String) (xs : List β) :
    bytesOfString (objectText (xs.map memberOf)) = ascii '\x7b' ::
      (Scan.separated (fun x => memberBytes (memberOf x)) true xs ++ [ascii '\x7d']) := by
  have hmember (member : String × String) :
      bytesOfString (stringText member.1 ++ ":" ++ member.2) = memberBytes member := by
    rw [bytesOfString_append, bytesOfString_append, List.append_assoc]
    rfl
  rw [objectText, List.map_map, bytesOfString_append, bytesOfString_append,
    bytesOfString_intercalate]
  simp only [Function.comp_apply, hmember]
  rfl

theorem opens_memberBytes (member : String × String) :
    Scan.Opens Scan.nextKey (memberBytes member) := by
  rw [memberBytes, bytesOfString_stringText]
  exact Scan.opens_nextKey

/-- An object of members that are given by key, text and value. -/
theorem writes_object (members : List (String × String × Value))
    (h : ∀ m ∈ members, Writes depth m.2.2 m.2.1) :
    Writes (depth + 1) (.object (members.map fun m => (m.1, m.2.2)))
      (objectText (members.map fun m => (m.1, m.2.1))) where
  takes := by
    have hmember (m : String × String × Value) (hm : m ∈ members)
        (read : Array (String × Value)) :
        Scan.Takes
          (do
            let key ← Scan.string
            Scan.colon
            return read.push (key, ← Scan.value depth))
          (memberBytes (m.1, m.2.1)) (.ok (read.push (m.1, m.2.2))) := by
      intro rest hrest
      rw [memberBytes, List.append_assoc, Scan.bind_of_ok (string_stringText _ _), List.cons_append]
      refine (Scan.bind_of_ok Scan.colon_cons).trans ?_
      exact Scan.bind_of_ok ((h m hm).takes rest hrest)
    have hobject : Scan.Takes
        (Scan.object id (fun read => do
          let key ← Scan.string
          Scan.colon
          return read.push (key, ← Scan.value depth)) #[])
        (Scan.separated (fun m => memberBytes (m.1, m.2.1)) true members ++ [ascii '\x7d'])
        (.ok (members.map fun m => (m.1, m.2.2)).toArray) := by
      have hfold := foldlM_push (fun m : String × String × Value => (m.1, m.2.2)) members #[]
      rw [Array.empty_append] at hfold
      rw [← hfold]
      exact Scan.takes_object (fun m _ => opens_memberBytes _) hmember
    intro rest hrest
    rw [bytesOfString_objectText, List.cons_append]
    exact (Scan.bind_of_ok (Scan.token_object _)).trans <|
      (Scan.bind_of_ok Scan.skip_cons).trans (Scan.bind_of_ok (hobject rest hrest))
  opens := by
    rw [bytesOfString_objectText]
    exact Scan.opens_nextItem (by decide) (by decide)

end ShaderAlgebra.Json
