import ShaderAlgebra.Proofs.Fingerprint.Encoding

/-!
# The text of a digest

The digits of a digest are read back by their places in the alphabet of lowercase
hexadecimal digits. The width of the text is just enough for every digest, so that
the number that is read is its value and nothing of it is cut off.
-/

namespace ShaderAlgebra.Digest

def hexAlphabet : List Char := "0123456789abcdef".toList

def hexValue (digits : List Char) : Nat :=
  digits.foldl (fun value c => 16 * value + hexAlphabet.idxOf c) 0

/-- The text consists of lowercase hexadecimal digits, `width` in number, that stand for a
value. -/
structure WritesHex (text : String) (width value : Nat) : Prop where
  length_eq : text.length = width
  mem_alphabet : ∀ c ∈ text.toList, c ∈ hexAlphabet
  value_eq : hexValue text.toList = value

theorem digitChar_mem_hexAlphabet : ∀ n < 16, n.digitChar ∈ hexAlphabet := by decide

theorem idxOf_digitChar : ∀ n < 16, hexAlphabet.idxOf n.digitChar = n := by decide

theorem hexValue_concat (digits : List Char) (c : Char) :
    hexValue (digits ++ [c]) = 16 * hexValue digits + hexAlphabet.idxOf c := by
  rw [hexValue, List.foldl_append]
  rfl

theorem mem_hexAlphabet_of_mem_hexDigits {c : Char} {width value : Nat}
    (h : c ∈ hexDigits width value) : c ∈ hexAlphabet := by
  induction width generalizing value with
  | zero => cases h
  | succ width ih =>
    rcases List.mem_append.1 h with h | h
    · exact ih h
    · rw [List.mem_singleton.1 h]
      exact digitChar_mem_hexAlphabet _ (Nat.mod_lt _ (by decide))

/-- The digits are the last ones of the number, as many as the width has room for. -/
theorem hexValue_hexDigits (width value : Nat) :
    hexValue (hexDigits width value) = value % 16 ^ width := by
  induction width generalizing value with
  | zero =>
    rw [Nat.pow_zero, Nat.mod_one]
    rfl
  | succ width ih =>
    rw [hexDigits, hexValue_concat, ih, idxOf_digitChar _ (Nat.mod_lt _ (by decide)),
      Nat.pow_succ', Nat.mod_mul, Nat.add_comm]

theorem writesHex_text (d : Digest) :
    WritesHex d.text 32 (d.hi.toNat * 2 ^ 64 + d.lo.toNat) where
  length_eq := by rw [text, String.length_ofList, length_hexDigits]
  mem_alphabet c hc := by
    rw [text, String.toList_ofList] at hc
    exact mem_hexAlphabet_of_mem_hexDigits hc
  value_eq := by
    rw [text, String.toList_ofList, hexValue_hexDigits]
    exact Nat.mod_eq_of_lt d.toNat_lt

end ShaderAlgebra.Digest
