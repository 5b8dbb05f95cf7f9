import ResourceAgent.Json.Value
import ResourceAgent.Text.Numeral
import ResourceAgent.Text.Utf8

/-!
# Reading JSON

Every function reads one thing from the front of the text and returns what follows it. Of a faulty
text the first fault is reported, in one of two classes: the text ends where more has to come, or
it goes on in a way that no value can.

Arrays and objects may be nested 127 deep. A number has to lie within the range of a double: one
that would round to an infinity is a fault. A string may name a character beyond U+FFFF by a pair
of surrogates; a surrogate without its partner is a fault.

The depth of nesting is bounded by the budget that each bracket takes one from; the number of
steps is bounded by fuel, of which the length of the text is always enough.
-/
namespace ResourceAgent.Json

/-- Why a text was refused. -/
inductive Error where
  | unexpectedEnd
  | malformed
  /-- The text is JSON, but not of the shape that was asked for. -/
  | mismatch
deriving Repr, DecidableEq

/-- How deep arrays and objects may be nested, plus one. -/
def depthLimit : Nat := 128

/-- White space between tokens. -/
def isSpace (c : Char) : Bool := c = ' ' || c = '\n' || c = '\t' || c = '\r'

def skipSpace (cs : List Char) : List Char := cs.dropWhile isSpace

def isDigit (c : Char) : Bool := '0' ≤ c && c ≤ '9'

/-- Read the rest of a word whose first letter has been read. -/
def readWordRest (value : Value) : List Char → List Char → Except Error (Value × List Char)
  | [], cs => .ok (value, cs)
  | _ :: _, [] => .error .unexpectedEnd
  | w :: ws, c :: cs => if c = w then readWordRest value ws cs else .error .malformed

/-- Four hexadecimal digits. Too few bytes for them is an early end. -/
def readHex4 (cs : List Char) : Except Error (Nat × List Char) :=
  match cs with
  | a :: b :: c :: d :: rest =>
      match Text.readNatural 16 [a, b, c, d] with
      | some n => .ok (n, rest)
      | none => .error .malformed
  | _ =>
      if (cs.flatMap Text.encodeChar).length < 4 then .error .unexpectedEnd else .error .malformed

def readUnicodeEscape (cs : List Char) : Except Error (Char × List Char) := do
  let (n, rest) ← readHex4 cs
  if 0xDC00 ≤ n && n ≤ 0xDFFF then throw .malformed
  else if n < 0xD800 || 0xDBFF < n then pure (Char.ofNat n, rest)
  else
    match rest with
    | [] => throw .unexpectedEnd
    | '\\' :: [] => throw .unexpectedEnd
    | '\\' :: 'u' :: rest =>
        let (m, rest) ← readHex4 rest
        if m < 0xDC00 || 0xDFFF < m then throw .malformed
        else pure (Char.ofNat ((n - 0xD800) * 1024 + (m - 0xDC00) + 0x10000), rest)
    | _ => throw .malformed

def readEscape : List Char → Except Error (Char × List Char)
  | [] => .error .unexpectedEnd
  | '"' :: cs => .ok ('"', cs)
  | '\\' :: cs => .ok ('\\', cs)
  | '/' :: cs => .ok ('/', cs)
  | 'b' :: cs => .ok ('\x08', cs)
  | 'f' :: cs => .ok ('\x0c', cs)
  | 'n' :: cs => .ok ('\n', cs)
  | 'r' :: cs => .ok ('\r', cs)
  | 't' :: cs => .ok ('\t', cs)
  | 'u' :: cs => readUnicodeEscape cs
  | _ => .error .malformed

/-- The rest of a string whose quote has been read; `acc` is what was read of it, reversed. -/
def readStringRest (fuel : Nat) (acc : List Char) (cs : List Char) :
    Except Error (String × List Char) :=
  match fuel, cs with
  | _, [] => .error .unexpectedEnd
  | 0, _ => .error .unexpectedEnd
  | fuel + 1, c :: cs =>
      if c = '"' then .ok (String.ofList acc.reverse, cs)
      else if c = '\\' then
        match readEscape cs with
        | .ok (e, cs) => readStringRest fuel (e :: acc) cs
        | .error e => .error e
      else if c.toNat < 0x20 then .error .malformed
      else readStringRest fuel (c :: acc) cs

/-- `m · 10 ^ e` is too large to round to a finite double. -/
def overflows (digits : List Char) (e : Int) : Bool :=
  let digits := digits.dropWhile (· = '0')
  if digits.isEmpty then false
  else if (digits.length : Int) + e > 310 then true
  else if (digits.length : Int) + e < 300 then false
  else
    let m := (Text.readNatural 10 digits).getD 0
    let bound := Nat.pow 2 1024 - Nat.pow 2 970
    if 0 ≤ e then bound ≤ m * Nat.pow 10 e.toNat else bound * Nat.pow 10 (-e).toNat ≤ m

/-- A non-empty row of digits. -/
def readDigits (cs : List Char) : Except Error (List Char × List Char) :=
  match cs with
  | [] => .error .unexpectedEnd
  | c :: _ =>
      if isDigit c then .ok (cs.takeWhile isDigit, cs.dropWhile isDigit) else .error .malformed

/-- The digits before the point: a lone zero, or digits that start with none. -/
def readWhole (cs : List Char) : Except Error (List Char × List Char) := do
  let (digits, rest) ← readDigits cs
  match digits with
  | '0' :: _ :: _ => throw .malformed
  | _ => pure (digits, rest)

/-- The digits after the point, empty when there is no point. -/
def readFraction (cs : List Char) : Except Error (List Char × List Char) :=
  match cs with
  | '.' :: cs => readDigits cs
  | _ => .ok ([], cs)

/-- The exponent with its sign, none when there is none. -/
def readExponent (cs : List Char) : Except Error (Option (Bool × List Char) × List Char) :=
  match cs with
  | c :: cs' =>
      if c = 'e' || c = 'E' then
        match cs' with
        | '+' :: r => (readDigits r).map fun (d, r) => (some (false, d), r)
        | '-' :: r => (readDigits r).map fun (d, r) => (some (true, d), r)
        | _ => (readDigits cs').map fun (d, r) => (some (false, d), r)
      else .ok (none, cs)
  | [] => .ok (none, cs)

/-- The value of an exponent, cut off where it no longer matters. -/
def exponentValue : Option (Bool × List Char) → Int
  | none => 0
  | some (negative, digits) =>
      let digits := digits.dropWhile (· = '0')
      let n := if digits.length > 9 then 1000000000 else (Text.readNatural 10 digits).getD 0
      if negative then -(n : Int) else n

/-- A number without its sign. -/
def readUnsigned (negative : Bool) (cs : List Char) : Except Error (Value × List Char) := do
  let (whole, r₁) ← readWhole cs
  let (fraction, r₂) ← readFraction r₁
  let (exponent, r₃) ← readExponent r₂
  let n := (Text.readNatural 10 whole).getD 0
  if overflows (whole ++ fraction) (exponentValue exponent - fraction.length) then throw .malformed
  else if fraction.isEmpty && exponent.isNone && !(negative && n = 0) then
    pure (.int (if negative then -(n : Int) else n), r₃)
  else
    let sign := if negative then ['-'] else []
    pure (.number (.decimal (String.ofList (sign ++ cs.take (cs.length - r₃.length)))), r₃)

/-- A value that is neither an array nor an object. -/
def readScalar (fuel : Nat) (cs : List Char) : Except Error (Value × List Char) :=
  match cs with
  | [] => .error .unexpectedEnd
  | c :: rest =>
      if c = 'n' then readWordRest .null ['u', 'l', 'l'] rest
      else if c = 't' then readWordRest (.bool true) ['r', 'u', 'e'] rest
      else if c = 'f' then readWordRest (.bool false) ['a', 'l', 's', 'e'] rest
      else if c = '"' then
        (readStringRest fuel [] rest).map fun (s, rest) => (.string s, rest)
      else if c = '-' then readUnsigned true rest
      else if isDigit c then readUnsigned false cs
      else .error .malformed

/-- The name of a member and the colon after it. -/
def readName (fuel : Nat) (cs : List Char) : Except Error (String × List Char) :=
  match cs with
  | [] => .error .unexpectedEnd
  | '"' :: rest => do
      let (name, rest) ← readStringRest fuel [] rest
      match skipSpace rest with
      | [] => throw .unexpectedEnd
      | ':' :: rest => pure (name, rest)
      | _ => throw .malformed
  | _ => .error .malformed

mutual

/-- A value; `budget` is how many brackets may still be opened, plus one. -/
def readValue (fuel budget : Nat) (cs : List Char) : Except Error (Value × List Char) :=
  match fuel with
  | 0 => .error .unexpectedEnd
  | fuel + 1 =>
      match skipSpace cs with
      | '[' :: rest =>
          if budget ≤ 1 then .error .malformed
          else
            match skipSpace rest with
            | ']' :: rest => .ok (.array [], rest)
            | rest => readItems fuel (budget - 1) [] rest
      | '\x7b' :: rest =>
          if budget ≤ 1 then .error .malformed
          else
            match skipSpace rest with
            | '\x7d' :: rest => .ok (.object [], rest)
            | rest => readMembers fuel (budget - 1) [] rest
      | rest => readScalar (fuel + 1) rest

/-- The elements of an array from the next one on; `acc` holds the earlier ones, reversed. -/
def readItems (fuel budget : Nat) (acc : List Value) (cs : List Char) :
    Except Error (Value × List Char) :=
  match fuel with
  | 0 => .error .unexpectedEnd
  | fuel + 1 =>
      match readValue fuel budget cs with
      | .error e => .error e
      | .ok (v, rest) =>
          match skipSpace rest with
          | [] => .error .unexpectedEnd
          | ']' :: rest => .ok (.array (v :: acc).reverse, rest)
          | ',' :: rest =>
              match skipSpace rest with
              | ']' :: _ => .error .malformed
              | rest => readItems fuel budget (v :: acc) rest
          | _ => .error .malformed

/-- The members of an object from the next one on; `acc` holds the earlier ones, reversed. -/
def readMembers (fuel budget : Nat) (acc : List (String × Value)) (cs : List Char) :
    Except Error (Value × List Char) :=
  match fuel with
  | 0 => .error .unexpectedEnd
  | fuel + 1 =>
      match readName (fuel + 1) cs with
      | .error e => .error e
      | .ok (name, rest) =>
          match readValue fuel budget rest with
          | .error e => .error e
          | .ok (v, rest) =>
              match skipSpace rest with
              | [] => .error .unexpectedEnd
              | '\x7d' :: rest => .ok (.object ((name, v) :: acc).reverse, rest)
              | ',' :: rest => readMembers fuel budget ((name, v) :: acc) (skipSpace rest)
              | _ => .error .malformed

end

/-- Only white space is left. -/
def expectEnd (cs : List Char) : Except Error Unit :=
  if (skipSpace cs).isEmpty then .ok () else .error .malformed

/-- Fuel that suffices to read the text. -/
def fuelFor (cs : List Char) : Nat := 2 * cs.length + 2

def Value.parse (text : String) : Except Error Value := do
  let cs := text.toList
  let (v, rest) ← readValue (fuelFor cs) depthLimit cs
  expectEnd rest
  pure v

end ResourceAgent.Json
