import ResourceAgent.Text.Printable

/-!
# Quoted text

A text between double quotes, as messages show a name that may hold anything. The quote and the
backslash are escaped by a backslash; NUL, tab, line feed and carriage return have the letters
`0 t n r`; any other character that would not stand on its own is written by its number, in lower
case hexadecimal between braces. A single quote stays as it is.
-/
namespace ResourceAgent.Text

/-- The lower-case hexadecimal digits of a number, without leading zeros. -/
def hexDigits (n : Nat) : List Char := Nat.toDigits 16 n

/-- One character of quoted text. -/
def quotedChar (c : Char) : List Char :=
  if c = '\x00' then ['\\', '0']
  else if c = '\t' then ['\\', 't']
  else if c = '\r' then ['\\', 'r']
  else if c = '\n' then ['\\', 'n']
  else if c = '"' || c = '\\' then ['\\', c]
  else if extendsGrapheme c || !isPrintable c then
    ['\\', 'u', '\x7b'] ++ hexDigits c.toNat ++ ['\x7d']
  else [c]

/-- The text between double quotes. -/
def quoted (s : String) : String :=
  String.ofList ('"' :: s.toList.flatMap quotedChar ++ ['"'])

end ResourceAgent.Text
