/-!
# Bytes as text

UTF-8 is read in two ways. The strict reader stops at the first fault and tells where it is; the
lenient reader puts one replacement character for each maximal part that could still have become
a character.

A sequence of two, three or four bytes starts with a leading byte; the range of the second byte
depends on it, so that overlong forms, surrogates and numbers past U+10FFFF are faults already at
the second byte. All later bytes are continuations `80`–`BF`.
-/
namespace ResourceAgent.Text

/-- What the first bytes of a sequence say about the character they start. -/
inductive Utf8Step where
  /-- A whole character, and the number of bytes it takes. -/
  | char (c : Char) (size : Nat)
  /-- `size` bytes that no continuation can complete. -/
  | invalid (size : Nat)
  /-- The bytes end before the character does. -/
  | unfinished
deriving Repr, DecidableEq

/-- A continuation byte within the given range. -/
def within (low high : Nat) (b : UInt8) : Bool := low ≤ b.toNat && b.toNat ≤ high

/-- The six low bits of a continuation byte. -/
def payload (b : UInt8) : Nat := b.toNat % 64

/-- The number of bytes in a sequence with this leading byte, and the range of the second byte. -/
def leadingByte (b : UInt8) : Option (Nat × Nat × Nat) :=
  let n := b.toNat
  if 0xC2 ≤ n && n ≤ 0xDF then some (2, 0x80, 0xBF)
  else if n = 0xE0 then some (3, 0xA0, 0xBF)
  else if n = 0xED then some (3, 0x80, 0x9F)
  else if 0xE1 ≤ n && n ≤ 0xEF then some (3, 0x80, 0xBF)
  else if n = 0xF0 then some (4, 0x90, 0xBF)
  else if 0xF1 ≤ n && n ≤ 0xF3 then some (4, 0x80, 0xBF)
  else if n = 0xF4 then some (4, 0x80, 0x8F)
  else none

/-- Read one character; the bytes are `first` and then `rest`. -/
def utf8Step (first : UInt8) (rest : List UInt8) : Utf8Step :=
  if first.toNat < 0x80 then .char (Char.ofNat first.toNat) 1
  else
    match leadingByte first with
    | none => .invalid 1
    | some (size, low, high) =>
        match rest with
        | [] => .unfinished
        | b₂ :: r₂ =>
            if !within low high b₂ then .invalid 1
            else if size = 2 then
              .char (Char.ofNat ((first.toNat % 32) * 64 + payload b₂)) 2
            else
              match r₂ with
              | [] => .unfinished
              | b₃ :: r₃ =>
                  if !within 0x80 0xBF b₃ then .invalid 2
                  else if size = 3 then
                    .char (Char.ofNat ((first.toNat % 16) * 4096 + payload b₂ * 64 + payload b₃)) 3
                  else
                    match r₃ with
                    | [] => .unfinished
                    | b₄ :: _ =>
                        if !within 0x80 0xBF b₄ then .invalid 3
                        else
                          .char (Char.ofNat ((first.toNat % 8) * 262144 + payload b₂ * 4096 +
                            payload b₃ * 64 + payload b₄)) 4

/-- Where and how a byte string stops being UTF-8. -/
inductive Utf8Fault where
  | invalid (size index : Nat)
  | unfinished (index : Nat)
deriving Repr, DecidableEq

def Utf8Fault.message : Utf8Fault → String
  | .invalid size index =>
      "invalid utf-8 sequence of " ++ toString size ++ " bytes from index " ++ toString index
  | .unfinished index => "incomplete utf-8 byte sequence from index " ++ toString index

/-- The strict reader; `skip` bytes belong to a character already read. -/
def decodeFrom (index skip : Nat) : List UInt8 → Except Utf8Fault (List Char)
  | [] => .ok []
  | b :: r =>
      match skip with
      | skip + 1 => decodeFrom (index + 1) skip r
      | 0 =>
          match utf8Step b r with
          | .char c size => (decodeFrom (index + 1) (size - 1) r).map (c :: ·)
          | .invalid size => .error (.invalid size index)
          | .unfinished => .error (.unfinished index)

/-- The text that the bytes spell, or the first fault. -/
def decodeUtf8 (bytes : List UInt8) : Except Utf8Fault String :=
  (decodeFrom 0 0 bytes).map String.ofList

/-- The lenient reader; `skip` bytes belong to something already read. -/
def decodeLenientFrom (skip : Nat) : List UInt8 → List Char
  | [] => []
  | b :: r =>
      match skip with
      | skip + 1 => decodeLenientFrom skip r
      | 0 =>
          match utf8Step b r with
          | .char c size => c :: decodeLenientFrom (size - 1) r
          | .invalid size => '\uFFFD' :: decodeLenientFrom (size - 1) r
          | .unfinished => ['\uFFFD']

/-- The text that the bytes spell, faults replaced by U+FFFD. -/
def decodeUtf8Lenient (bytes : List UInt8) : String :=
  String.ofList (decodeLenientFrom 0 bytes)

def encodeChar (c : Char) : List UInt8 :=
  let n := c.toNat
  if n < 0x80 then [UInt8.ofNat n]
  else if n < 0x800 then [UInt8.ofNat (0xC0 + n / 64), UInt8.ofNat (0x80 + n % 64)]
  else if n < 0x10000 then
    [UInt8.ofNat (0xE0 + n / 4096), UInt8.ofNat (0x80 + n / 64 % 64), UInt8.ofNat (0x80 + n % 64)]
  else
    [UInt8.ofNat (0xF0 + n / 262144), UInt8.ofNat (0x80 + n / 4096 % 64),
      UInt8.ofNat (0x80 + n / 64 % 64), UInt8.ofNat (0x80 + n % 64)]

def encodeUtf8 (s : String) : List UInt8 := s.toList.flatMap encodeChar

end ResourceAgent.Text
