import Frontend.Unicode.Printable

/-!
Text in double quotes. What could be taken for the end of the text, for an escape, or for nothing
at all is escaped, so that a quoted text stays on one line and shows every character it has.
-/
namespace Frontend.Text

/-- A character by its code point. -/
def codePoint (c : Char) : String :=
  "\\u\x7b" ++ String.ofList (Nat.toDigits 16 c.toNat) ++ "\x7d"

/-- A character inside quotes. -/
def quotedChar (c : Char) : String :=
  match c with
  | '\x00' => "\\0"
  | '\t' => "\\t"
  | '\n' => "\\n"
  | '\r' => "\\r"
  | '"' => "\\\""
  | '\\' => "\\\\"
  | c => if Unicode.isPrintable c then c.toString else codePoint c

/-- A text in quotes. -/
def quoted (text : String) : String := "\"" ++ String.join (text.toList.map quotedChar) ++ "\""

end Frontend.Text
