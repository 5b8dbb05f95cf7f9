/-!
# Characters of a YAML text

Five characters break a line, and a carriage return with a line feed after it breaks it once. A
break is kept as a line feed, except that the line separator and the paragraph separator stand
for themselves. Blanks within a line are the space and the tab.
-/
namespace ResourceAgent.Yaml

/-- May occur in a YAML text at all. -/
def isAllowed (c : Char) : Bool :=
  let n := c.toNat
  n == 0x09 || n == 0x0A || n == 0x0D || (0x20 ≤ n && n ≤ 0x7E) || n == 0x85 ||
    (0xA0 ≤ n && n ≤ 0xFFFD) || 0x10000 ≤ n

/-- A space or a tab. -/
def isWhite (c : Char) : Bool := c = ' ' || c = '\t'

def isBreak (c : Char) : Bool :=
  c = '\n' || c = '\r' || c = '\u0085' || c = '\u2028' || c = '\u2029'

/-- What a scalar keeps of a line break. -/
def breakText (c : Char) : Char := if c = '\u2028' || c = '\u2029' then c else '\n'

/-- A letter or digit of ASCII, a hyphen or an underscore. -/
def isWordChar (c : Char) : Bool := c.isAlphanum || c = '-' || c = '_'

/-- The end of the text, a blank or a line break is next. -/
def atGap : List Char → Bool
  | [] => true
  | c :: _ => isWhite c || isBreak c

/-- A line break is next. -/
def atBreak : List Char → Bool
  | [] => false
  | c :: _ => isBreak c

/-- One of the given characters is next. -/
def atAny (choices : List Char) : List Char → Bool
  | [] => false
  | c :: _ => choices.contains c

/-- Three equal characters and a gap: what separates documents when it starts a line. -/
def atMarker (mark : Char) : List Char → Bool
  | a :: b :: c :: rest => a = mark && b = mark && c = mark && atGap rest
  | _ => false

/-- A place in the text: how many characters lie before it, and its line and column. -/
structure Mark where
  index : Nat := 0
  line : Nat := 0
  column : Nat := 0
deriving Repr, DecidableEq

namespace Mark

/-- The place after one character within a line. -/
def next (m : Mark) : Mark := ⟨m.index + 1, m.line, m.column + 1⟩

def advance (m : Mark) (n : Nat) : Mark := ⟨m.index + n, m.line, m.column + n⟩

/-- The place after a line break of `n` characters. -/
def newLine (m : Mark) (n : Nat) : Mark := ⟨m.index + n, m.line + 1, 0⟩

end Mark

/-- A separator of documents stands here. -/
def atDocumentMarker (mark : Mark) (cs : List Char) : Bool :=
  mark.column == 0 && (atMarker '-' cs || atMarker '.' cs)

/-- What is left to read, and where that is. -/
structure Cursor where
  mark : Mark
  rest : List Char
deriving Repr, DecidableEq

namespace Cursor

/-- Pass over `n` characters within a line. -/
def advance (c : Cursor) (n : Nat) : Cursor := ⟨c.mark.advance n, c.rest.drop n⟩

/-- Pass over the characters with the property, none of them a line break. -/
def skipWhile (p : Char → Bool) (c : Cursor) : Cursor := c.advance (c.rest.takeWhile p).length

/-- Pass over one line break, if there is one. -/
def skipBreak (c : Cursor) : Cursor :=
  match c.rest with
  | '\r' :: '\n' :: r => ⟨c.mark.newLine 2, r⟩
  | b :: r => if isBreak b then ⟨c.mark.newLine 1, r⟩ else c
  | [] => c

end Cursor

end ResourceAgent.Yaml
