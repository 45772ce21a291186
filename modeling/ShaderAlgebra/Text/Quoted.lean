import ShaderAlgebra.Text.Printable

/-!
# Quoted text

The form in which a diagnostic quotes a string: between double quotes, with
quotes, backslashes and unprintable characters escaped.
-/

namespace ShaderAlgebra.Text

/-- A character inside quotes. -/
def escapeChar (c : Char) : List Char :=
  match c with
  | '\x00' => ['\\', '0']
  | '\t' => ['\\', 't']
  | '\n' => ['\\', 'n']
  | '\r' => ['\\', 'r']
  | '"' => ['\\', '"']
  | '\\' => ['\\', '\\']
  | c =>
    if isPrintable c then [c]
    else ['\\', 'u', '\x7b'] ++ Nat.toDigits 16 c.toNat ++ ['\x7d']

def quoted (s : String) : String :=
  String.ofList ('"' :: s.toList.flatMap escapeChar ++ ['"'])

end ShaderAlgebra.Text
