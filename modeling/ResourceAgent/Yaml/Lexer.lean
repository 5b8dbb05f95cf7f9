import ResourceAgent.Yaml.Scalar
import ResourceAgent.Yaml.Tag

/-!
# Dividing a YAML text into tokens

Outside of brackets the indentation decides: a deeper entry opens a block collection, a shallower
line closes those that are deeper. Inside brackets it has no meaning.

A mapping key is recognised only by the colon after it, when the tokens of the key are already
there. So a slot is left in front of whatever may turn out to be a key, and filled when the colon
comes. What may be a key has to be followed by its colon on the same line and within 1024
characters. There is one candidate for each level of brackets.
-/
namespace ResourceAgent.Yaml

/-- A token, or a slot that may come to be filled. -/
inductive Item where
  | token (t : Token)
  | slot (id : Nat)
deriving Repr, DecidableEq

/-- Something that may turn out to be a key. -/
structure Candidate where
  slot : Nat
  /-- It stands where the block mapping has to go on with a key. -/
  required : Bool
  mark : Mark
deriving Repr, DecidableEq

/-- How far the text has been divided. -/
structure Lexer where
  cursor : Cursor
  /-- The columns of the open block collections, each plus one, innermost first. -/
  margins : List Nat := []
  /-- The candidate of each level of brackets, innermost first; the last entry is the one outside
  of all brackets. -/
  candidates : List (Option Candidate) := [none]
  /-- A key may start here. -/
  keyAllowed : Bool := true
  /-- The tokens so far, reversed. -/
  items : List Item := []
  slots : Nat := 0
deriving Repr, DecidableEq

namespace Lexer

def inFlow (l : Lexer) : Bool := l.candidates.length > 1

/-- One more than the column of the innermost block collection, zero outside of all. -/
def margin (l : Lexer) : Nat := l.margins.headD 0

def emit (t : Token) (l : Lexer) : Lexer := { l with items := .token t :: l.items }

def allowKey (allowed : Bool) (l : Lexer) : Lexer := { l with keyAllowed := allowed }

/-- Append a token that takes `n` characters. -/
def take (n : Nat) (t : Token) (l : Lexer) : Lexer :=
  { l.emit t with cursor := l.cursor.advance n }

/-- Close the block collections that start right of the column. -/
def unroll (limit : Nat) (l : Lexer) : Lexer :=
  if l.inFlow then l
  else
    let closed := l.margins.takeWhile (limit < ·)
    { l with
      margins := l.margins.drop closed.length
      items := closed.map (fun _ => Item.token .blockEnd) ++ l.items }

/-- A block collection starts at the column: it is deeper than those that are open. -/
def opensAt (column : Nat) (l : Lexer) : Bool := !l.inFlow && l.margin ≤ column

/-- Open a block collection at the column if it is deeper than those that are open. -/
def roll (column : Nat) (start : Token) (l : Lexer) : Lexer :=
  if l.opensAt column then { l.emit start with margins := (column + 1) :: l.margins } else l

/-- Give up the candidate of this level. -/
def dropCandidate (l : Lexer) : Except Error Lexer :=
  match l.candidates with
  | some k :: outer =>
      if k.required then .error .keyWithoutValue else .ok { l with candidates := none :: outer }
  | _ => .ok l

/-- Leave a slot: what comes next may be a key. -/
def saveCandidate (l : Lexer) : Except Error Lexer :=
  if !l.keyAllowed then .ok l
  else
    let required := !l.inFlow && l.margin = l.cursor.mark.column + 1
    match l.dropCandidate with
    | .error e => .error e
    | .ok l =>
        .ok { l with
          candidates := some ⟨l.slots, required, l.cursor.mark⟩ :: l.candidates.tail
          items := .slot l.slots :: l.items
          slots := l.slots + 1 }

/-- The candidate is too far back to become a key. -/
def isStale (mark : Mark) (k : Candidate) : Bool :=
  k.mark.line < mark.line || k.mark.index + 1024 < mark.index

/-- Give up the candidates that are too far back. -/
def dropStale (l : Lexer) : Except Error Lexer :=
  let stale := l.candidates.map fun k => k.filter (isStale l.cursor.mark)
  if stale.any (fun k => k.any Candidate.required) then .error .keyWithoutValue
  else
    .ok { l with
      candidates := l.candidates.map fun k => k.filter fun k => !isStale l.cursor.mark k }

/-- Replace a slot by tokens; both lists are reversed. -/
def fillSlot (id : Nat) (tokens : List Item) (items : List Item) : List Item :=
  match items with
  | [] => []
  | item :: rest => if item = .slot id then tokens ++ rest else item :: fillSlot id tokens rest

/-- Pass over white space, comments and line breaks. In a block a key may start on a new line, and
tabs may not stand where one may start. The byte order mark may come first. -/
def skipToToken (inFlow keyAllowed inComment : Bool) (mark : Mark) :
    List Char → Bool × Cursor
  | [] => (keyAllowed, ⟨mark, []⟩)
  | '\r' :: '\n' :: rest =>
      skipToToken inFlow (keyAllowed || !inFlow) false (mark.newLine 2) rest
  | c :: rest =>
      if isBreak c then skipToToken inFlow (keyAllowed || !inFlow) false (mark.newLine 1) rest
      else if inComment then skipToToken inFlow keyAllowed true mark.next rest
      else if c = '\uFEFF' && mark.index = 0 then
        skipToToken inFlow keyAllowed false mark.next rest
      else if c = ' ' || (c = '\t' && (inFlow || !keyAllowed)) then
        skipToToken inFlow keyAllowed false mark.next rest
      else if c = '#' then skipToToken inFlow keyAllowed true mark.next rest
      else (keyAllowed, ⟨mark, c :: rest⟩)

/-- Go to the next token, closing what the way there closes. -/
def approach (l : Lexer) : Except Error Lexer :=
  let (keyAllowed, cursor) :=
    skipToToken l.inFlow l.keyAllowed false l.cursor.mark l.cursor.rest
  match { l with keyAllowed, cursor }.dropStale with
  | .error e => .error e
  | .ok l => .ok (l.unroll (l.cursor.mark.column + 1))

def finish (l : Lexer) : Except Error Lexer := (l.unroll 0).dropCandidate

def lexDirective (l : Lexer) : Except Error Lexer := do
  let l ← (l.unroll 0).dropCandidate
  let (token, cursor) ← readDirective l.cursor
  pure { (l.allowKey false).emit token with cursor }

/-- A separator of documents. -/
def lexMarker (t : Token) (l : Lexer) : Except Error Lexer := do
  let l ← (l.unroll 0).dropCandidate
  pure ((l.allowKey false).take 3 t)

def lexOpen (t : Token) (l : Lexer) : Except Error Lexer := do
  let l ← l.saveCandidate
  pure (({ l with candidates := none :: l.candidates }.allowKey true).take 1 t)

def lexClose (t : Token) (l : Lexer) : Except Error Lexer := do
  let l ← l.dropCandidate
  let l := if l.inFlow then { l with candidates := l.candidates.tail } else l
  pure ((l.allowKey false).take 1 t)

def lexComma (l : Lexer) : Except Error Lexer := do
  let l ← l.dropCandidate
  pure ((l.allowKey true).take 1 .flowEntry)

def lexHyphen (l : Lexer) : Except Error Lexer := do
  if !l.inFlow && !l.keyAllowed then throw .misplacedIndicator
  let l ← (l.roll l.cursor.mark.column .blockSequenceStart).dropCandidate
  pure ((l.allowKey true).take 1 .blockEntry)

def lexQuestion (l : Lexer) : Except Error Lexer := do
  if !l.inFlow && !l.keyAllowed then throw .misplacedIndicator
  let l ← (l.roll l.cursor.mark.column .blockMappingStart).dropCandidate
  pure ((l.allowKey (!l.inFlow)).take 1 .key)

/-- The colon before a value: the candidate, if there is one, is a key. -/
def lexColon (l : Lexer) : Except Error Lexer :=
  match l.candidates with
  | some k :: outer =>
      let opens := l.opensAt k.mark.column
      let tokens : List Item :=
        if opens then [.token .key, .token .blockMappingStart] else [.token .key]
      let l := { l with
        candidates := none :: outer
        items := fillSlot k.slot tokens l.items
        margins := if opens then (k.mark.column + 1) :: l.margins else l.margins }
      .ok ((l.allowKey false).take 1 .value)
  | _ =>
      if !l.inFlow && !l.keyAllowed then .error .misplacedIndicator
      else
        .ok (((l.roll l.cursor.mark.column .blockMappingStart).allowKey (!l.inFlow)).take 1 .value)

def lexAnchor (token : String → Token) (l : Lexer) : Except Error Lexer := do
  let l ← l.saveCandidate
  let (name, cursor) ← readAnchorName l.cursor
  pure { (l.allowKey false).emit (token name) with cursor }

def lexTag (l : Lexer) : Except Error Lexer := do
  let l ← l.saveCandidate
  let (token, cursor) ← readTag l.inFlow l.cursor
  pure { (l.allowKey false).emit token with cursor }

def lexBlockScalar (style : Style) (l : Lexer) : Except Error Lexer := do
  let l ← l.dropCandidate
  let s ← readBlock (style = .folded) l.margin l.cursor
  pure { (l.allowKey true).emit (.scalar style (String.ofList s.text)) with cursor := s.cursor }

def lexQuoted (style : Style) (quote : Char) (l : Lexer) : Except Error Lexer := do
  let l ← l.saveCandidate
  let s ← readQuoted quote l.cursor
  pure { (l.allowKey false).emit (.scalar style (String.ofList s.text)) with cursor := s.cursor }

def lexPlain (l : Lexer) : Except Error Lexer := do
  let l ← l.saveCandidate
  let s ← readPlain l.inFlow l.margin l.cursor
  pure { (l.allowKey s.broken).emit (.scalar .plain (String.ofList s.text)) with
    cursor := s.cursor }

/-- Starts no plain scalar, or only in some places. -/
def isIndicator (c : Char) : Bool :=
  ['-', '?', ':', ',', '[', ']', '\x7b', '\x7d', '#', '&', '*', '!', '|', '>', '\'', '"', '%', '@',
    '`'].contains c

/-- A plain scalar can start here. -/
def startsPlain (inFlow : Bool) (c : Char) (rest : List Char) : Bool :=
  !(isWhite c || isBreak c || isIndicator c) || (c = '-' && !atAny [' ', '\t'] rest) ||
    (!inFlow && (c = '?' || c = ':') && !atGap rest)

/-- The token that starts with the character `c`. -/
def lexFrom (c : Char) (rest : List Char) (l : Lexer) : Except Error Lexer :=
  let first := l.cursor.mark.column = 0
  if first && c = '%' then l.lexDirective
  else if first && atMarker '-' (c :: rest) then l.lexMarker .documentStart
  else if first && atMarker '.' (c :: rest) then l.lexMarker .documentEnd
  else if c = '[' then l.lexOpen .flowSequenceStart
  else if c = '\x7b' then l.lexOpen .flowMappingStart
  else if c = ']' then l.lexClose .flowSequenceEnd
  else if c = '\x7d' then l.lexClose .flowMappingEnd
  else if c = ',' then l.lexComma
  else if c = '-' && atGap rest then l.lexHyphen
  else if c = '?' && (l.inFlow || atGap rest) then l.lexQuestion
  else if c = ':' && (l.inFlow || atGap rest) then l.lexColon
  else if c = '*' then l.lexAnchor .alias
  else if c = '&' then l.lexAnchor .anchor
  else if c = '!' then l.lexTag
  else if c = '|' && !l.inFlow then l.lexBlockScalar .literal
  else if c = '>' && !l.inFlow then l.lexBlockScalar .folded
  else if c = '\'' then l.lexQuoted .singleQuoted '\''
  else if c = '"' then l.lexQuoted .doubleQuoted '"'
  else if startsPlain l.inFlow c rest then l.lexPlain
  else .error .noToken

/-- Divide what is left; every token takes at least one character, so the length of the text is
fuel enough. -/
def run (fuel : Nat) (l : Lexer) : Except Error Lexer :=
  match l.approach with
  | .error e => .error e
  | .ok l =>
      match fuel, l.cursor.rest with
      | _, [] => l.finish
      | 0, _ => .error .noToken
      | fuel + 1, c :: rest =>
          match l.lexFrom c rest with
          | .error e => .error e
          | .ok l => l.run fuel

end Lexer

def Item.token? : Item → Option Token
  | .token t => some t
  | .slot _ => none

def tokenize (text : String) : Except Error (List Token) :=
  let cs := text.toList
  if !cs.all isAllowed then .error .forbiddenCharacter
  else (Lexer.run cs.length { cursor := ⟨{ }, cs⟩ }).map (·.items.reverse.filterMap Item.token?)

end ResourceAgent.Yaml
