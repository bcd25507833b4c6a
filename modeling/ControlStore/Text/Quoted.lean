import ControlStore.Text.Hidden

/-!
Texts in double quotes, with escapes for the quote, the backslash and characters that do not show.
-/

namespace ControlStore.Text

/-- A quote or backslash after a backslash, a character that does not show by its escape, and any
other character as it is. -/
def escaped (c : Char) : List Char :=
  if c == '"' || c == '\\' then ['\\', c]
  else if c == '\n' then ['\\', 'n']
  else if c == '\r' then ['\\', 'r']
  else if c == '\t' then ['\\', 't']
  else if c.toNat == 0 then ['\\', '0']
  else if isHidden c then
    "\\u\x7b".toList ++ Nat.toDigits 16 c.toNat ++ "\x7d".toList
  else [c]

def quoted (s : String) : String :=
  String.ofList ('"' :: s.toList.flatMap escaped ++ ['"'])

end ControlStore.Text
