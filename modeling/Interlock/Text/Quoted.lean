import Interlock.Text.Number
import Interlock.Text.Unprintable

/-!
# Quoted text

A quoted text stands between double quotes. Quotes and backslashes in it follow a backslash, four
controls have a letter, and every other character that is not written as itself is given by its
number.
-/

namespace Interlock.Text

/-- How one character is written between quotes. -/
def quotedChar (c : Char) : String :=
  match c with
  | '\x00' => "\\0"
  | '\t' => "\\t"
  | '\n' => "\\n"
  | '\r' => "\\r"
  | '"' => "\\\""
  | '\\' => "\\\\"
  | c => if isPrintable c then c.toString else "\\u\x7b" ++ hexDigits c.toNat ++ "\x7d"

/-- A text between quotes. -/
def quoted (s : String) : String :=
  "\"" ++ String.join (s.toList.map quotedChar) ++ "\""

end Interlock.Text
