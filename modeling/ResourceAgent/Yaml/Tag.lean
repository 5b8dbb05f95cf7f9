import ResourceAgent.Text.Utf8
import ResourceAgent.Yaml.Character
import ResourceAgent.Yaml.Scalar

/-!
# Anchors, tags and directives

A tag is `!<uri>` in full, `!handle!suffix` with a handle that a directive may define, `!suffix`,
or the bare `!`. A directive stands on a line of its own that starts with a percent sign.
-/
namespace ResourceAgent.Yaml

/-- The name after `&` or `*`, which is next. -/
def readAnchorName (c : Cursor) : Except Error (String × Cursor) :=
  let name := (c.rest.drop 1).takeWhile isWordChar
  let c := c.advance (1 + name.length)
  if name.isEmpty || !(atGap c.rest || atAny ['?', ':', ',', ']', '\x7d', '%', '@', '`'] c.rest) then
    .error .badAnchor
  else .ok (String.ofList name, c)

/-- May stand in the address of a tag; three more characters may between angle brackets. -/
def isTagChar (verbatim : Bool) (c : Char) : Bool :=
  isWordChar c ||
    [';', '/', '?', ':', '@', '&', '=', '+', '$', '.', '%', '!', '~', '*', '\'', '(', ')'].contains c ||
    (verbatim && [',', '[', ']'].contains c)

/-- One octet that is written as a percent sign and two hexadecimal digits. -/
def readOctet : List Char → Option UInt8
  | '%' :: a :: b :: _ => (Text.readNatural 16 [a, b]).map UInt8.ofNat
  | _ => none

/-- The number of octets in the sequence that an octet leads. -/
def octetCount (b : UInt8) : Option Nat :=
  let n := b.toNat
  if n < 0x80 then some 1
  else if 0xC0 ≤ n && n < 0xE0 then some 2
  else if 0xE0 ≤ n && n < 0xF0 then some 3
  else if 0xF0 ≤ n && n < 0xF8 then some 4
  else none

/-- The octets of one escaped character. -/
def readOctets (count : Nat) (cs : List Char) : Option (List UInt8) :=
  match count with
  | 0 => some []
  | count + 1 => do
      let b ← readOctet cs
      let rest ← readOctets count (cs.drop 3)
      pure (b :: rest)

/-- A character given by escaped octets, which are next, and how many characters that takes. -/
def readEscapedChar (cs : List Char) : Option (Char × Nat) := do
  let count ← octetCount (← readOctet cs)
  let octets ← readOctets count cs
  if octets.tail.all (Text.within 0x80 0xBF) then
    match Text.decodeLenientFrom 0 octets with
    | c :: _ => some (c, 3 * count)
    | [] => none
  else none

/-- The address of a tag; `skip` characters belong to an escaped one already read. -/
def tagAddress (verbatim : Bool) (skip : Nat) (acc : List Char) (mark : Mark) :
    List Char → Except Error (List Char × Cursor)
  | [] => .ok (acc.reverse, ⟨mark, []⟩)
  | c :: rest =>
      match skip with
      | skip + 1 => tagAddress verbatim skip acc mark.next rest
      | 0 =>
          if !isTagChar verbatim c then .ok (acc.reverse, ⟨mark, c :: rest⟩)
          else if c = '%' then
            match readEscapedChar (c :: rest) with
            | none => .error .badTag
            | some (e, n) => tagAddress verbatim (n - 1) (e :: acc) mark.next rest
          else tagAddress verbatim 0 (c :: acc) mark.next rest

def readTagAddress (verbatim : Bool) (c : Cursor) : Except Error (String × Cursor) :=
  match tagAddress verbatim 0 [] c.mark c.rest with
  | .error e => .error e
  | .ok ([], _) => .error .badTag
  | .ok (address, c) => .ok (String.ofList address, c)

/-- Exclamation mark, word characters, and a second exclamation mark if there is one. -/
def readHandle (c : Cursor) : Except Error (List Char × Bool × Cursor) :=
  match c.rest with
  | '!' :: rest =>
      let word := rest.takeWhile isWordChar
      let c := c.advance (1 + word.length)
      if atAny ['!'] c.rest then .ok (word, true, c.advance 1) else .ok (word, false, c)
  | _ => .error .badTag

/-- The handle and the suffix of a tag that is not verbatim; the exclamation mark is next. -/
def readShortTag (c : Cursor) : Except Error (Token × Cursor) :=
  match readHandle c with
  | .error e => .error e
  | .ok (word, true, c) =>
      (readTagAddress false c).map fun (suffix, c) =>
        (.tag (String.ofList ('!' :: word ++ ['!'])) suffix, c)
  | .ok (word, false, c) =>
      match tagAddress false 0 [] c.mark c.rest with
      | .error e => .error e
      | .ok (address, c) =>
          match word ++ address with
          | [] => .ok (.tag "" "!", c)
          | suffix => .ok (.tag "!" (String.ofList suffix), c)

/-- A tag between angle brackets; the exclamation mark is next. -/
def readVerbatimTag (c : Cursor) : Except Error (Token × Cursor) :=
  match readTagAddress true (c.advance 2) with
  | .error e => .error e
  | .ok (address, c) =>
      if atAny ['>'] c.rest then .ok (.tag "" address, c.advance 1) else .error .badTag

/-- A tag and what has to follow it: white space, or a comma inside a flow collection. -/
def readTag (inFlow : Bool) (c : Cursor) : Except Error (Token × Cursor) :=
  let read := if atAny ['<'] (c.rest.drop 1) then readVerbatimTag c else readShortTag c
  match read with
  | .error e => .error e
  | .ok (tag, c) =>
      if atGap c.rest || (inFlow && atAny [','] c.rest) then .ok (tag, c) else .error .badTag

def readVersionNumber (c : Cursor) : Except Error (Nat × Cursor) :=
  let digits := c.rest.takeWhile Char.isDigit
  if digits.length > 9 then .error .badDirective
  else
    match Text.readNatural 10 digits with
    | none => .error .badDirective
    | some n => .ok (n, c.advance digits.length)

def readVersion (c : Cursor) : Except Error (Token × Cursor) := do
  let (major, c) ← readVersionNumber (c.skipWhile isWhite)
  if !atAny ['.'] c.rest then throw .badDirective
  let (minor, c) ← readVersionNumber (c.advance 1)
  pure (.versionDirective major minor, c)

/-- The handle and the expansion of a tag directive. -/
def readTagDefinition (c : Cursor) : Except Error (Token × Cursor) := do
  let (word, closed, c) ← readHandle (c.skipWhile isWhite)
  if !closed && !word.isEmpty then throw .badDirective
  if !atAny [' ', '\t'] c.rest then throw .badDirective
  let (expansion, c) ← readTagAddress true (c.skipWhile isWhite)
  if !atGap c.rest then throw .badDirective
  let handle := if closed then '!' :: word ++ ['!'] else ['!']
  pure (.tagDirective (String.ofList handle) expansion, c)

/-- A directive with the rest of its line; the percent sign is next. -/
def readDirective (c : Cursor) : Except Error (Token × Cursor) := do
  let name := (c.rest.drop 1).takeWhile isWordChar
  let c := c.advance (1 + name.length)
  if name.isEmpty || !atGap c.rest then throw .badDirective
  let (token, c) ←
    if name = "YAML".toList then readVersion c
    else if name = "TAG".toList then readTagDefinition c
    else throw .badDirective
  pure (token, ← finishLine .badDirective c)

end ResourceAgent.Yaml
