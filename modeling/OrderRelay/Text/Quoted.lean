import OrderRelay.Text.Visible

/-!
# Quoted text

How a message shows a text that it complains about: between double quotes, with quotes and
backslashes escaped and every character that cannot be seen given by its number.

* `quoted`: the text as it is shown.
-/

namespace OrderRelay

/-- A number in small hexadecimal digits. -/
def hexDigits (n : Nat) : List Char := Nat.toDigits 16 n

namespace Quoted

/-- One character between the quotes. -/
def escape (c : Char) : List Char :=
  if c = '\"' then ['\\', '\"']
  else if c = '\\' then ['\\', '\\']
  else if c = '\n' then ['\\', 'n']
  else if c = '\r' then ['\\', 'r']
  else if c = '\t' then ['\\', 't']
  else if c.toNat = 0 then ['\\', '0']
  else if isVisible c then [c]
  else ['\\', 'u', '\x7b'] ++ hexDigits c.toNat ++ ['\x7d']

end Quoted

/-- A text between double quotes, on one line and in visible characters. -/
def quoted (s : String) : String :=
  String.ofList (['\"'] ++ s.toList.flatMap Quoted.escape ++ ['\"'])

end OrderRelay
