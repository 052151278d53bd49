import BlockSketch.Text.Number
import BlockSketch.Text.Shapeless

/-!
Names quoted in messages.  A slot name comes from outside and can hold
anything, so a message shows it between double quotes with every character
spelled out that would end the quotation, break the line or leave no mark.
-/

namespace BlockSketch.Text

def quotedChar (c : Char) : String :=
  match c with
  | '"' => "\\\""
  | '\\' => "\\\\"
  | '\n' => "\\n"
  | '\r' => "\\r"
  | '\t' => "\\t"
  | '\x00' => "\\0"
  | c => if isShapeless c then "\\u\x7b" ++ hex c.toNat ++ "\x7d" else c.toString

/-- `quoted s` shows the name `s` between double quotes. -/
def quoted (s : String) : String :=
  "\"" ++ String.join (s.toList.map quotedChar) ++ "\""

end BlockSketch.Text
