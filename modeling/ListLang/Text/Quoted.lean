import ListLang.Text.Visible

/-!
# Quoted text

A text in double quotes, with an escape for every character that would not show: the
usual letters for the end of a line and its like, and the code in hexadecimal for other
characters that are not visible.
-/

namespace ListLang.Text.Quoted

/-- A character between double quotes. -/
def escape (c : Char) : String :=
  match c with
  | '\x00' => "\\0"
  | '\t' => "\\t"
  | '\r' => "\\r"
  | '\n' => "\\n"
  | '\\' => "\\\\"
  | '"' => "\\\""
  | c =>
    if Visible.isVisible c then String.singleton c
    else "\\u\x7b" ++ String.ofList (Nat.toDigits 16 c.toNat) ++ "\x7d"

/-- The text in double quotes. -/
def quoted (s : String) : String :=
  "\"" ++ s.toList.foldl (fun out c => out ++ escape c) "" ++ "\""

end ListLang.Text.Quoted
