/-!
# Numbers in text

Unsigned numbers in a radix up to sixteen, and words: numbers that fit 64 bits. A plus
sign may stand before the digits of a word; nothing else may, neither blanks nor a minus sign.
-/
namespace ResourceAgent.Text

/-- The value of a digit, of either case. -/
def digitValue (c : Char) : Option Nat :=
  if '0' ≤ c && c ≤ '9' then some (c.toNat - 48)
  else if 'a' ≤ c && c ≤ 'f' then some (c.toNat - 87)
  else if 'A' ≤ c && c ≤ 'F' then some (c.toNat - 55)
  else none

/-- Append one digit to a number. -/
def pushDigit (radix n : Nat) (c : Char) : Option Nat := do
  let d ← digitValue c
  if d < radix then some (n * radix + d) else none

/-- A non-empty row of digits. -/
def readNatural (radix : Nat) (cs : List Char) : Option Nat :=
  if cs.isEmpty then none else cs.foldlM (pushDigit radix) 0

/-- The first number that does not fit 64 bits. -/
def wordLimit : Nat := 18446744073709551616

def toWord (n : Nat) : Option UInt64 :=
  if n < wordLimit then some (UInt64.ofNat n) else none

/-- Digits of a number that fits 64 bits. -/
def readWordDigits (radix : Nat) (cs : List Char) : Option UInt64 := readNatural radix cs >>= toWord

/-- A decimal number that fits 64 bits, with or without a plus sign. -/
def readWord (cs : List Char) : Option UInt64 :=
  match cs with
  | '+' :: r => readWordDigits 10 r
  | _ => readWordDigits 10 cs

end ResourceAgent.Text
