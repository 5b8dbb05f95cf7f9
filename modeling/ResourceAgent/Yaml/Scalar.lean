import ResourceAgent.Text.Numeral
import ResourceAgent.Yaml.Character
import ResourceAgent.Yaml.Token

/-!
# Scalars of a YAML text

Plain and quoted scalars may go on over several lines. The blanks around a line break are dropped;
a single break is folded into a space, and of several the first is dropped. Block scalars take
whole lines: the literal style keeps their breaks, the folded style folds those between lines that
do not start with a blank.
-/
namespace ResourceAgent.Yaml

/-- The white space between two parts of a scalar. -/
structure Gap where
  /-- The blanks before the first line break, reversed. -/
  blanks : List Char := []
  /-- There is a line break, or an escaped one. -/
  broken : Bool := false
  /-- The first line break, unless it is escaped. -/
  first : Option Char := none
  /-- The further line breaks, reversed. -/
  more : List Char := []
deriving Repr, DecidableEq

namespace Gap

/-- Blanks count only while the line goes on. -/
def pushBlank (g : Gap) (c : Char) : Gap :=
  if g.broken then g else { g with blanks := c :: g.blanks }

def pushBreak (g : Gap) (c : Char) : Gap :=
  if g.broken then { g with more := breakText c :: g.more }
  else { g with broken := true, first := some (breakText c) }

/-- What the scalar has in place of the white space. -/
def text (g : Gap) : List Char :=
  if !g.broken then g.blanks.reverse
  else
    match g.first with
    | some '\n' => if g.more.isEmpty then [' '] else g.more.reverse
    | some c => c :: g.more.reverse
    | none => g.more.reverse

end Gap

/-- Read white space. A tab left of the margin cannot indent a further line. -/
def readGap (margin : Nat) (gap : Gap) (mark : Mark) : List Char → Except Error (Gap × Cursor)
  | [] => .ok (gap, ⟨mark, []⟩)
  | '\r' :: '\n' :: rest => readGap margin (gap.pushBreak '\n') (mark.newLine 2) rest
  | c :: rest =>
      if isWhite c then
        if gap.broken && mark.column < margin && c = '\t' then .error .badIndentation
        else readGap margin (gap.pushBlank c) mark.next rest
      else if isBreak c then readGap margin (gap.pushBreak c) (mark.newLine 1) rest
      else .ok (gap, ⟨mark, c :: rest⟩)

structure Scanned where
  text : List Char
  /-- The white space after it goes over a line break. -/
  broken : Bool := false
  cursor : Cursor

/-- The characters of a plain scalar up to the next white space; `acc` is reversed. -/
def plainPart (inFlow : Bool) (acc : List Char) (mark : Mark) :
    List Char → Except Error (List Char × Cursor)
  | [] => .ok (acc, ⟨mark, []⟩)
  | c :: rest =>
      if isWhite c || isBreak c then .ok (acc, ⟨mark, c :: rest⟩)
      else if inFlow && c = ':' && atAny [',', '?', '[', ']', '\x7b', '\x7d'] rest then
        .error .unexpectedColon
      else if (c = ':' && atGap rest) ||
          (inFlow && [',', '[', ']', '\x7b', '\x7d'].contains c) then
        .ok (acc, ⟨mark, c :: rest⟩)
      else plainPart inFlow (c :: acc) mark.next rest

/-- A plain scalar from here on; `acc` is what was read of it, reversed, and `gap` the white space
since then. -/
def plainRest (fuel : Nat) (inFlow : Bool) (margin : Nat) (acc : List Char) (gap : Gap)
    (c : Cursor) : Except Error Scanned :=
  let stop : Scanned := ⟨acc.reverse, gap.broken, c⟩
  match fuel with
  | 0 => .ok stop
  | fuel + 1 =>
      if atDocumentMarker c.mark c.rest || atAny ['#'] c.rest then .ok stop
      else
        match plainPart inFlow (gap.text.reverse ++ acc) c.mark c.rest with
        | .error e => .error e
        | .ok (acc', c') =>
            if c'.mark.index = c.mark.index then .ok stop
            else if !(atGap c'.rest) || c'.rest.isEmpty then .ok ⟨acc'.reverse, false, c'⟩
            else
              match readGap margin { } c'.mark c'.rest with
              | .error e => .error e
              | .ok (gap', c'') =>
                  if !inFlow && c''.mark.column < margin then
                    .ok ⟨acc'.reverse, gap'.broken, c''⟩
                  else plainRest fuel inFlow margin acc' gap' c''

def readPlain (inFlow : Bool) (margin : Nat) (c : Cursor) : Except Error Scanned :=
  plainRest (c.rest.length + 1) inFlow margin [] { } c

/-- A character that one letter stands for after a backslash. -/
def escapedChar (c : Char) : Option Char :=
  match c with
  | '0' => some '\x00'
  | 'a' => some '\x07'
  | 'b' => some '\x08'
  | 't' => some '\t'
  | '\t' => some '\t'
  | 'n' => some '\n'
  | 'v' => some '\x0b'
  | 'f' => some '\x0c'
  | 'r' => some '\r'
  | 'e' => some '\x1b'
  | ' ' => some ' '
  | '"' => some '"'
  | '/' => some '/'
  | '\\' => some '\\'
  | 'N' => some '\u0085'
  | '_' => some '\u00a0'
  | 'L' => some '\u2028'
  | 'P' => some '\u2029'
  | _ => none

def escapeDigits (c : Char) : Option Nat :=
  match c with
  | 'x' => some 2
  | 'u' => some 4
  | 'U' => some 8
  | _ => none

/-- The character that is escaped, and how many characters after the backslash say so. -/
def readEscape : List Char → Except Error (Char × Nat)
  | [] => .error .badEscape
  | c :: rest =>
      match escapedChar c, escapeDigits c with
      | some e, _ => .ok (e, 1)
      | none, none => .error .badEscape
      | none, some n =>
          if rest.length < n then .error .badEscape
          else
            match Text.readNatural 16 (rest.take n) with
            | none => .error .badEscape
            | some code =>
                if h : code.isValidChar then .ok (Char.ofNatAux code h, n + 1)
                else .error .badEscape

structure QuotedPart where
  /-- Reversed. -/
  text : List Char
  /-- It ends with an escaped line break. -/
  escapedBreak : Bool := false
  cursor : Cursor

/-- The characters of a single-quoted scalar up to the quote or the next white space; `skip`
characters belong to one already read. -/
def singlePart (skip : Nat) (acc : List Char) (mark : Mark) : List Char → QuotedPart
  | [] => ⟨acc, false, ⟨mark, []⟩⟩
  | c :: rest =>
      match skip with
      | skip + 1 => singlePart skip acc mark.next rest
      | 0 =>
          if isWhite c || isBreak c then ⟨acc, false, ⟨mark, c :: rest⟩⟩
          else if c = '\'' then
            if atAny ['\''] rest then singlePart 1 ('\'' :: acc) mark.next rest
            else ⟨acc, false, ⟨mark, c :: rest⟩⟩
          else singlePart 0 (c :: acc) mark.next rest

/-- The characters of a double-quoted scalar up to the quote or the next white space; `skip`
characters belong to one already read. -/
def doublePart (skip : Nat) (acc : List Char) (mark : Mark) :
    List Char → Except Error QuotedPart
  | [] => .ok ⟨acc, false, ⟨mark, []⟩⟩
  | c :: rest =>
      match skip with
      | skip + 1 => doublePart skip acc mark.next rest
      | 0 =>
          if isWhite c || isBreak c || c = '"' then .ok ⟨acc, false, ⟨mark, c :: rest⟩⟩
          else if c = '\\' then
            if atBreak rest then
              .ok ⟨acc, true, Cursor.skipBreak ⟨mark.next, rest⟩⟩
            else
              match readEscape rest with
              | .error e => .error e
              | .ok (e, n) => doublePart n (e :: acc) mark.next rest
          else doublePart 0 (c :: acc) mark.next rest

/-- One part of a quoted scalar. -/
def quotedPart (quote : Char) (acc : List Char) (c : Cursor) : Except Error QuotedPart :=
  if quote = '"' then doublePart 0 acc c.mark c.rest else .ok (singlePart 0 acc c.mark c.rest)

/-- A quoted scalar from here on; `acc` is what was read of it, reversed. -/
def quotedRest (fuel : Nat) (quote : Char) (acc : List Char) (c : Cursor) :
    Except Error Scanned :=
  match fuel with
  | 0 => .error .unclosedScalar
  | fuel + 1 =>
      if atDocumentMarker c.mark c.rest || c.rest.isEmpty then .error .unclosedScalar
      else
        match quotedPart quote acc c with
        | .error e => .error e
        | .ok part =>
            if atAny [quote] part.cursor.rest then
              .ok ⟨part.text.reverse, false, part.cursor.advance 1⟩
            else
              match readGap 0 { broken := part.escapedBreak } part.cursor.mark part.cursor.rest with
              | .error e => .error e
              | .ok (gap, c') => quotedRest fuel quote (gap.text.reverse ++ part.text) c'

/-- A scalar between quotes; the opening quote is next. -/
def readQuoted (quote : Char) (c : Cursor) : Except Error Scanned :=
  quotedRest (c.rest.length + 1) quote [] (c.advance 1)

/-- What becomes of the line breaks at the end of a block scalar. -/
inductive Chomping where
  /-- None is kept. -/
  | strip
  /-- The one after the last line is kept. -/
  | clip
  /-- All are kept. -/
  | keep
deriving Repr, DecidableEq

/-- The chomping indicator, if it is next. -/
def readChomping (c : Cursor) : Option (Chomping × Cursor) :=
  match c.rest with
  | '+' :: _ => some (.keep, c.advance 1)
  | '-' :: _ => some (.strip, c.advance 1)
  | _ => none

/-- The indentation indicator, if it is next. -/
def readIncrement (c : Cursor) : Except Error (Option (Nat × Cursor)) :=
  match c.rest with
  | '0' :: _ => .error .badBlockHeader
  | d :: _ => if d.isDigit then .ok (some (d.toNat - 48, c.advance 1)) else .ok none
  | [] => .ok none

/-- The indicators of a block scalar, in either order. An increment of zero means none is given. -/
def readIndicators (c : Cursor) : Except Error (Chomping × Nat × Cursor) :=
  match readChomping c with
  | some (chomping, c) =>
      match readIncrement c with
      | .error e => .error e
      | .ok none => .ok (chomping, 0, c)
      | .ok (some (n, c)) => .ok (chomping, n, c)
  | none =>
      match readIncrement c with
      | .error e => .error e
      | .ok none => .ok (.clip, 0, c)
      | .ok (some (n, c)) =>
          match readChomping c with
          | some (chomping, c) => .ok (chomping, n, c)
          | none => .ok (.clip, n, c)

/-- Pass over blanks and a comment up to the end of the line, and over the line break. -/
def finishLine (fault : Error) (c : Cursor) : Except Error Cursor :=
  let c := c.skipWhile isWhite
  let c := if atAny ['#'] c.rest then c.skipWhile (!isBreak ·) else c
  match c.rest with
  | [] => .ok c
  | b :: _ => if isBreak b then .ok c.skipBreak else .error fault

/-- Indentation and empty lines before a line of a block scalar. With indentation zero it is yet
unknown; the deepest column is told. The line breaks are reversed. -/
def blockBreaks (indent deepest : Nat) (breaks : List Char) (mark : Mark) :
    List Char → Except Error (List Char × Nat × Cursor)
  | [] => .ok (breaks, max deepest mark.column, ⟨mark, []⟩)
  | '\r' :: '\n' :: rest =>
      blockBreaks indent (max deepest mark.column) ('\n' :: breaks) (mark.newLine 2) rest
  | c :: rest =>
      let left := indent = 0 || mark.column < indent
      if c = ' ' && left then blockBreaks indent deepest breaks mark.next rest
      else if c = '\t' && left then .error .badIndentation
      else if isBreak c then
        blockBreaks indent (max deepest mark.column) (breakText c :: breaks) (mark.newLine 1) rest
      else .ok (breaks, max deepest mark.column, ⟨mark, c :: rest⟩)

/-- The lines of a block scalar that have been read, and the breaks after them. -/
structure BlockText where
  /-- Reversed. -/
  text : List Char := []
  /-- The break after the last line. -/
  last : List Char := []
  /-- The breaks of the empty lines after it, reversed. -/
  empty : List Char := []
  /-- The last line starts with a blank. -/
  blankStart : Bool := false

namespace BlockText

/-- Append a line; the folded style joins it to the line before where neither starts with a
blank. -/
def pushLine (folded : Bool) (b : BlockText) (line last empty : List Char) : BlockText :=
  let blank := atAny [' ', '\t'] line
  let joint :=
    if folded && b.last == ['\n'] && !b.blankStart && !blank then
      if b.empty.isEmpty then [' '] else []
    else b.last
  ⟨line.reverse ++ (b.empty ++ (joint ++ b.text)), last, empty, blank⟩

def finish (chomping : Chomping) (b : BlockText) : List Char :=
  match chomping with
  | .strip => b.text.reverse
  | .clip => (b.last ++ b.text).reverse
  | .keep => (b.empty ++ (b.last ++ b.text)).reverse

end BlockText

/-- The lines of a block scalar from here on. -/
def blockRest (fuel : Nat) (folded : Bool) (chomping : Chomping) (indent : Nat) (b : BlockText)
    (c : Cursor) : Except Error Scanned :=
  match fuel with
  | 0 => .ok ⟨b.finish chomping, false, c⟩
  | fuel + 1 =>
      if c.mark.column ≠ indent || c.rest.isEmpty then .ok ⟨b.finish chomping, false, c⟩
      else
        let line := c.rest.takeWhile (!isBreak ·)
        let c' := c.skipWhile (!isBreak ·)
        let last := (c'.rest.take 1).map breakText
        let c'' := c'.skipBreak
        match blockBreaks indent 0 [] c''.mark c''.rest with
        | .error e => .error e
        | .ok (empty, _, c''') =>
            blockRest fuel folded chomping indent (b.pushLine folded line last empty) c'''

/-- A block scalar; its indicator is next, and `margin` is one more than the column of the block
collection around it. -/
def readBlock (folded : Bool) (margin : Nat) (c : Cursor) : Except Error Scanned :=
  match readIndicators (c.advance 1) with
  | .error e => .error e
  | .ok (chomping, increment, c) =>
      match finishLine .badBlockHeader c with
      | .error e => .error e
      | .ok c =>
          let given := if increment = 0 then 0 else (margin - 1) + increment
          match blockBreaks given 0 [] c.mark c.rest with
          | .error e => .error e
          | .ok (empty, deepest, c) =>
              let indent := if given = 0 then max (max deepest margin) 1 else given
              blockRest (c.rest.length + 1) folded chomping indent { empty } c

end ResourceAgent.Yaml
