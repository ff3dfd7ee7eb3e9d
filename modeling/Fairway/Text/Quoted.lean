import Fairway.Text.Decimal
import Fairway.Text.Printable

namespace Fairway

/-- One character as it stands between double quotes. -/
def quotedChar (c : Char) : List Char :=
  match c with
  | '\x00' => ['\\', '0']
  | '\t' => ['\\', 't']
  | '\n' => ['\\', 'n']
  | '\r' => ['\\', 'r']
  | '"' => ['\\', '"']
  | '\\' => ['\\', '\\']
  | c => if isHidden c then "\\u\x7b".toList ++ hexadecimal c.toNat ++ ['\x7d'] else [c]

/-- The text between double quotes, with every character that could be misread escaped. -/
def quoted (s : String) : String :=
  String.ofList ('"' :: s.toList.flatMap quotedChar ++ ['"'])

end Fairway
