import ResourceAgent.Json.Value
import ResourceAgent.Text.Search

/-!
# Writing JSON

The compact form has no white space between tokens. The pretty form puts each element and each
member on a line of its own, two blanks deeper than the bracket it is in, and one blank after a
colon; an empty array or object stays on one line.

In a string the quote, the backslash and the characters below U+0020 are escaped, five of them by
a letter and the others as `\u00` with two lower-case hexadecimal digits. Everything else stands
for itself.
-/
namespace ResourceAgent.Json

/-- The lower-case hexadecimal digit of a number below sixteen. -/
def hexDigit (n : Nat) : Char := if n < 10 then Char.ofNat (48 + n) else Char.ofNat (87 + n)

/-- A character inside a string. -/
def escapeChar (c : Char) : List Char :=
  if c = '"' then ['\\', '"']
  else if c = '\\' then ['\\', '\\']
  else if c = '\x08' then ['\\', 'b']
  else if c = '\t' then ['\\', 't']
  else if c = '\n' then ['\\', 'n']
  else if c = '\x0c' then ['\\', 'f']
  else if c = '\r' then ['\\', 'r']
  else if c.toNat < 0x20 then
    ['\\', 'u', '0', '0', hexDigit (c.toNat / 16), hexDigit (c.toNat % 16)]
  else [c]

/-- A string between quotes. -/
def writeString (s : String) : List Char := '"' :: s.toList.flatMap escapeChar ++ ['"']

def Number.write : Number → List Char
  | .integer n => (toString n).toList
  | .decimal literal => literal.toList

mutual

/-- The compact form of a value. -/
def Value.compactChars : Value → List Char
  | .null => "null".toList
  | .bool b => (if b then "true" else "false").toList
  | .number n => n.write
  | .string s => writeString s
  | .array items => '[' :: compactItems items ++ [']']
  | .object members => '\x7b' :: compactMembers members ++ ['\x7d']

/-- The elements of an array, separated by commas. -/
def compactItems : List Value → List Char
  | [] => []
  | [v] => v.compactChars
  | v :: w :: rest => v.compactChars ++ ',' :: compactItems (w :: rest)

/-- The members of an object, separated by commas. -/
def compactMembers : List (String × Value) → List Char
  | [] => []
  | [(name, v)] => writeString name ++ ':' :: v.compactChars
  | (name, v) :: m :: rest =>
      writeString name ++ ':' :: v.compactChars ++ ',' :: compactMembers (m :: rest)

end

/-- The start of a line at the given depth. -/
def newLine (depth : Nat) : List Char := '\n' :: List.replicate (2 * depth) ' '

mutual

/-- The pretty form of a value whose brackets close at the given depth. -/
def Value.prettyChars (depth : Nat) : Value → List Char
  | .null => "null".toList
  | .bool b => (if b then "true" else "false").toList
  | .number n => n.write
  | .string s => writeString s
  | .array [] => ['[', ']']
  | .array (v :: rest) =>
      '[' :: newLine (depth + 1) ++ prettyItems (depth + 1) (v :: rest) ++ newLine depth ++ [']']
  | .object [] => ['\x7b', '\x7d']
  | .object (m :: rest) =>
      '\x7b' :: newLine (depth + 1) ++ prettyMembers (depth + 1) (m :: rest) ++
        newLine depth ++ ['\x7d']

/-- The elements of an array, each but the first after a comma and a line break. -/
def prettyItems (depth : Nat) : List Value → List Char
  | [] => []
  | [v] => v.prettyChars depth
  | v :: w :: rest =>
      v.prettyChars depth ++ ',' :: newLine depth ++ prettyItems depth (w :: rest)

/-- The members of an object, each but the first after a comma and a line break. -/
def prettyMembers (depth : Nat) : List (String × Value) → List Char
  | [] => []
  | [(name, v)] => writeString name ++ ':' :: ' ' :: v.prettyChars depth
  | (name, v) :: m :: rest =>
      writeString name ++ ':' :: ' ' :: v.prettyChars depth ++
        ',' :: newLine depth ++ prettyMembers depth (m :: rest)

end

def Value.compact (v : Value) : String := String.ofList v.compactChars

def Value.pretty (v : Value) : String := String.ofList (v.prettyChars 0)

end ResourceAgent.Json
