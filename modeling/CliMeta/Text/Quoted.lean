import CliMeta.Text.Hex
import CliMeta.Text.Unprintable

/-!
Quoted text: a text between double quotes in which quotes, backslashes and characters that show
nothing are spelled by escapes.
-/

namespace CliMeta

/-- The spelling of a character between double quotes. -/
def quotedChar (c : Char) : String :=
  match c with
  | '"' => "\\\""
  | '\\' => "\\\\"
  | '\t' => "\\t"
  | '\r' => "\\r"
  | '\n' => "\\n"
  | '\x00' => "\\0"
  | _ => if isUnprintable c then "\\u\x7b" ++ hexLower 1 c.toNat ++ "\x7d" else c.toString

def quoted (text : String) : String :=
  "\"" ++ String.join (text.toList.map quotedChar) ++ "\""

end CliMeta
