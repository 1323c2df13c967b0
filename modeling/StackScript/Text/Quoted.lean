import StackScript.Text.Padding
import StackScript.Text.Printable

/-!
# Quoted text

Text between double quotes in which every character can be told apart: the
usual escapes for the six characters that have one, the code point in
hexadecimal for what is not printable, and all else as it stands.
-/

namespace StackScript
namespace Text

def quotedChar (c : Char) : List Char :=
  match c with
  | '\x00' => ['\\', '0']
  | '\t' => ['\\', 't']
  | '\r' => ['\\', 'r']
  | '\n' => ['\\', 'n']
  | '"' => ['\\', '"']
  | '\\' => ['\\', '\\']
  | _ =>
      if isPrintable c then
        [c]
      else
        ['\\', 'u', '\x7b'] ++ Nat.toDigits 16 c.toNat ++ ['\x7d']

def quoted (text : String) : String :=
  String.ofList ('"' :: text.toList.flatMap quotedChar ++ ['"'])

example : quoted "it's \"a\tb\"" = "\"it's \\\"a\\tb\\\"\"" := by
  cbv

end Text
end StackScript
