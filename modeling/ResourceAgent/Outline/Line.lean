import ResourceAgent.Text.Lines

/-!
# The lines of an outline

A line reads `name:` or `name:value`. The first colon divides it; the parts around the colon are
trimmed. Blank lines are no part of an outline, but they count when lines are numbered.
-/
namespace ResourceAgent.Outline

/-- A line that is not blank: its number, its indentation and all its characters. -/
structure Line where
  number : Nat
  indent : Nat
  text : List Char
deriving Repr, DecidableEq

/-- The two sides of the first colon, trimmed; none without a colon or without a name. -/
def splitLine (text : List Char) : Option (String × String) :=
  match text.dropWhile (· != ':') with
  | [] => none
  | _ :: rest =>
      let name := Text.trim (text.takeWhile (· != ':'))
      if name.isEmpty then none
      else some (String.ofList name, String.ofList (Text.trim rest))

/-- Name and value of the line. -/
def Line.split (line : Line) : Option (String × String) := splitLine line.text

/-- Number the lines from `first` on and keep those that are not blank. -/
def numberLines (first : Nat) : List (List Char) → List Line
  | [] => []
  | text :: rest =>
      if (Text.trim text).isEmpty then numberLines (first + 1) rest
      else ⟨first, Text.indent text, text⟩ :: numberLines (first + 1) rest

/-- The lines of a text that are not blank. -/
def linesOf (text : String) : List Line := numberLines 1 (Text.lines text.toList)

end ResourceAgent.Outline
