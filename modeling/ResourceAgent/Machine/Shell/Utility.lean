import ResourceAgent.Machine.Disk
import ResourceAgent.Machine.Shell.Arithmetic

/-!
# Utilities

The small programs that shell scripts use. A utility is told its arguments and what it can read,
the files and its input, and tells what it writes, its exit code and how long it takes.
-/
namespace ResourceAgent.Shell

structure Deed where
  status : Nat := 0
  stdout : List UInt8 := []
  stderr : List UInt8 := []
  /-- The nanoseconds it takes. -/
  time : Nat := 0
deriving Repr

def Deed.write (stdout : List UInt8) : Deed := { stdout }

def Deed.fail (status : Nat) (message : String) : Deed :=
  { status, stderr := Text.encodeUtf8 (message ++ "\n") }

def isOctal (c : Char) : Bool := '0' ≤ c && c ≤ '7'

/-- The byte of the leading octal digits, at most so many, and the text after them. -/
def octalByte (count : Nat) (cs : List Char) : UInt8 × List Char :=
  let digits := (cs.take count).takeWhile isOctal
  (UInt8.ofNat ((Text.readNatural 8 digits).getD 0), cs.drop digits.length)

/-- The byte of an escape with a letter. -/
def letterEscape : Char → Option UInt8
  | '\\' => some 0x5C
  | 'a' => some 7
  | 'b' => some 8
  | 'f' => some 12
  | 'n' => some 10
  | 'r' => some 13
  | 't' => some 9
  | 'v' => some 11
  | _ => none

/-- The bytes of a text with escapes; `leadingZero` tells whether octal numbers start with an extra
zero. The text ends at `\c`. -/
def unescape (leadingZero : Bool) (fuel : Nat) (cs : List Char) : List UInt8 :=
  match fuel, cs with
  | 0, _ | _, [] => []
  | fuel + 1, '\\' :: c :: rest =>
      match letterEscape c with
      | some b => b :: unescape leadingZero fuel rest
      | none =>
          if c = 'c' then []
          else if isOctal c && (!leadingZero || c = '0') then
            let (b, rest) := octalByte 3 (if leadingZero then rest else c :: rest)
            b :: unescape leadingZero fuel rest
          else 0x5C :: Text.encodeChar c ++ unescape leadingZero fuel rest
  | fuel + 1, c :: rest => Text.encodeChar c ++ unescape leadingZero fuel rest

/-- The bytes of a text with escapes. -/
def unescaped (leadingZero : Bool) (s : String) : List UInt8 :=
  unescape leadingZero s.length s.toList

/-- The arguments between single blanks. -/
def echo (args : List String) : Deed :=
  let text := fun args : List String =>
    (args.map (unescaped true)).intersperse [0x20] |>.flatten
  match args with
  | "-n" :: rest => .write (text rest)
  | _ => .write (text args ++ [10])

/-- A conversion of a format: its flags, its width and precision, and its letter. -/
structure Conversion where
  left : Bool := false
  zeros : Bool := false
  width : Nat := 0
  precision : Option Nat := none
  letter : Char
deriving Repr

/-- The conversion after a percent sign. -/
def readConversion (cs : List Char) : Option (Conversion × List Char) :=
  let isFlag := fun c => c = '-' || c = '0'
  let flags := cs.takeWhile isFlag
  let afterFlags := cs.dropWhile isFlag
  let width := (Text.readNatural 10 (afterFlags.takeWhile Char.isDigit)).getD 0
  let afterWidth := afterFlags.dropWhile Char.isDigit
  let (precision, rest) : Option Nat × List Char :=
    match afterWidth with
    | '.' :: rest =>
        (some ((Text.readNatural 10 (rest.takeWhile Char.isDigit)).getD 0),
          rest.dropWhile Char.isDigit)
    | rest => (none, rest)
  match rest with
  | [] => none
  | letter :: rest =>
      some ({ left := flags.contains '-', zeros := flags.contains '0', width, precision, letter },
        rest)

/-- Fill up to the width. -/
def Conversion.pad (c : Conversion) (bytes : List UInt8) : List UInt8 :=
  let missing := c.width - bytes.length
  if c.left then bytes ++ List.replicate missing 0x20
  else if c.zeros && c.letter ≠ 's' then List.replicate missing 0x30 ++ bytes
  else List.replicate missing 0x20 ++ bytes

def digitsOf (radix : Nat) (n : Int) : List UInt8 :=
  let sign := if n < 0 then [0x2D] else []
  sign ++ (Nat.toDigits radix n.natAbs).flatMap Text.encodeChar

/-- An argument as a conversion shows it; none for an unknown conversion. -/
def Conversion.show (c : Conversion) (arg : String) : Option (List UInt8) :=
  let number := (readInt arg.toList).getD 0
  match c.letter with
  | 's' =>
      let bytes := Text.encodeUtf8 arg
      some (c.pad (match c.precision with
        | some n => bytes.take n
        | none => bytes))
  | 'b' => some (c.pad (unescaped true arg))
  | 'c' => some (c.pad ((Text.encodeUtf8 arg).take 1))
  | 'd' | 'i' | 'u' => some (c.pad (digitsOf 10 number))
  | 'x' => some (c.pad (digitsOf 16 number))
  | 'o' => some (c.pad (digitsOf 8 number))
  | _ => none

/-- One pass through a format: what it writes, and the arguments that are left. -/
def formatOnce (fuel : Nat) (cs : List Char) (args : List String) : List UInt8 × List String :=
  match fuel, cs with
  | 0, _ | _, [] => ([], args)
  | fuel + 1, '%' :: '%' :: rest =>
      let (bytes, args) := formatOnce fuel rest args
      (0x25 :: bytes, args)
  | fuel + 1, '%' :: rest =>
      match readConversion rest with
      | none => ([], args)
      | some (c, rest) =>
          match c.show (args.headD "") with
          | none => ([], args)
          | some shown =>
              let (bytes, args) := formatOnce fuel rest args.tail
              (shown ++ bytes, args)
  | fuel + 1, '\\' :: c :: rest =>
      match letterEscape c with
      | some b =>
          let (bytes, args) := formatOnce fuel rest args
          (b :: bytes, args)
      | none =>
          if isOctal c then
            let (b, rest) := octalByte 3 (c :: rest)
            let (bytes, args) := formatOnce fuel rest args
            (b :: bytes, args)
          else
            let (bytes, args) := formatOnce fuel rest args
            (0x5C :: Text.encodeChar c ++ bytes, args)
  | fuel + 1, c :: rest =>
      let (bytes, args) := formatOnce fuel rest args
      (Text.encodeChar c ++ bytes, args)

/-- Passes through a format as long as there are arguments. -/
def formatAll (fuel : Nat) (format : List Char) (args : List String) : List UInt8 :=
  match fuel with
  | 0 => []
  | fuel + 1 =>
      let (bytes, rest) := formatOnce format.length format args
      if rest.isEmpty || rest.length = args.length then bytes
      else bytes ++ formatAll fuel format rest

/-- The arguments as a format shows them. -/
def printf : List String → Deed
  | [] => .fail 2 "sh: 1: printf: usage: printf format [arg ...]"
  | format :: args => .write (formatAll (args.length + 1) format.toList args)

/-- The value of a test; none for one that is not understood. -/
def test : List String → Option Bool
  | [] => some false
  | [s] => some (s ≠ "")
  | "!" :: rest => (test rest).map (!·)
  | ["-n", s] => some (s ≠ "")
  | ["-z", s] => some (s = "")
  | [a, "=", b] => some (a = b)
  | [a, "!=", b] => some (a ≠ b)
  | [a, op, b] => do
      let x ← readInt a.toList
      let y ← readInt b.toList
      match op with
      | "-eq" => some (x = y)
      | "-ne" => some (x ≠ y)
      | "-lt" => some (x < y)
      | "-le" => some (x ≤ y)
      | "-gt" => some (y < x)
      | "-ge" => some (y ≤ x)
      | _ => none
  | _ => none

def testDeed (args : List String) : Deed :=
  match test args with
  | some true => { }
  | some false => { status := 1 }
  | none => .fail 2 "sh: 1: [: unexpected operator"

/-- The lines, words or bytes of the input. -/
def countInput (args : List String) (input : List UInt8) : Deed :=
  let isBlank := fun b : UInt8 => b = 0x20 || (9 ≤ b && b ≤ 13)
  let word := fun (state : Nat × Bool) (b : UInt8) =>
    if isBlank b then (state.1, true)
    else if state.2 then (state.1 + 1, false)
    else state
  let count :=
    match args with
    | ["-l"] => some (input.countP (· == 10))
    | ["-w"] => some (input.foldl word (0, true)).1
    | ["-c"] => some input.length
    | _ => none
  match count with
  | some n => .write (Text.encodeUtf8 (toString n ++ "\n"))
  | none => .fail 1 "wc: invalid option"

/-- The bytes of a set of characters, with ranges. -/
def byteSet (fuel : Nat) (cs : List UInt8) : List UInt8 :=
  match fuel, cs with
  | 0, _ | _, [] => []
  | fuel + 1, a :: 0x2D :: b :: rest =>
      (List.range (b.toNat + 1 - a.toNat)).map (fun i => UInt8.ofNat (a.toNat + i)) ++
        byteSet fuel rest
  | fuel + 1, a :: rest => a :: byteSet fuel rest

/-- The bytes that a set names. -/
def bytesOfSet (s : String) : List UInt8 :=
  let bytes := unescaped false s
  byteSet bytes.length bytes

def indexOf (b : UInt8) : List UInt8 → Option Nat
  | [] => none
  | x :: rest => if x = b then some 0 else (indexOf b rest).map (· + 1)

/-- The input with bytes deleted or exchanged. -/
def translate (args : List String) (input : List UInt8) : Deed :=
  match args with
  | ["-d", set] =>
      let bytes := bytesOfSet set
      .write (input.filter (!bytes.contains ·))
  | [source, target] =>
      let sources := bytesOfSet source
      let targets := bytesOfSet target
      .write <| input.map fun b =>
        match indexOf b sources with
        | none => b
        | some i => targets.getD i (targets.getLastD b)
  | _ => .fail 1 "tr: missing operand"

/-- The first bytes or lines of the input. -/
def firstOf (args : List String) (input : List UInt8) : Deed :=
  let firstLines := fun n : Nat =>
    (input.foldl (fun (state : Nat × List UInt8) b =>
      if n ≤ state.1 then state
      else (if b = 10 then state.1 + 1 else state.1, b :: state.2)) (0, [])).2.reverse
  let number := fun s : String => Text.readNatural 10 s.toList
  match args with
  | [] => .write (firstLines 10)
  | ["-c", s] =>
      match number s with
      | some n => .write (input.take n)
      | none => .fail 1 ("head: invalid number of bytes: ‘" ++ s ++ "’")
  | ["-n", s] =>
      match number s with
      | some n => .write (firstLines n)
      | none => .fail 1 ("head: invalid number of lines: ‘" ++ s ++ "’")
  | _ => .fail 1 "head: invalid option"

/-- The contents of files, or of the input. -/
def concatenate (disk : Disk) (args : List String) (input : List UInt8) : Deed :=
  args.foldl
    (fun (d : Deed) name =>
      if name = "-" then { d with stdout := d.stdout ++ input }
      else
        match disk.readBytes name with
        | .ok bytes => { d with stdout := d.stdout ++ bytes }
        | .error fault =>
            { d with
              status := 1
              stderr := d.stderr ++
                Text.encodeUtf8 ("cat: " ++ name ++ ": " ++ fault.reason ++ "\n") })
    (if args.isEmpty then .write input else { })

/-- The numbers from one to another. -/
def countUp (args : List String) : Deed :=
  let numbers := fun a b : Int =>
    (List.range (b + 1 - a).toNat).flatMap fun i : Nat =>
      Text.encodeUtf8 (toString (a + (i : Int)) ++ "\n")
  match args.mapM fun s => readInt s.toList with
  | some [b] => .write (numbers 1 b)
  | some [a, b] => .write (numbers a b)
  | _ => .fail 1 "seq: missing operand"

/-- As good as forever, in nanoseconds. -/
def forever : Nat := Nat.pow 10 30

/-- The nanoseconds of a decimal number of seconds with an optional unit. -/
def readInterval (s : String) : Option Nat := do
  let cs := s.toList
  if s = "infinity" || s = "inf" then return forever
  let (unit, digits) :=
    match cs.getLast? with
    | some 's' => (1, cs.dropLast)
    | some 'm' => (60, cs.dropLast)
    | some 'h' => (3600, cs.dropLast)
    | some 'd' => (86400, cs.dropLast)
    | _ => (1, cs)
  let whole := digits.takeWhile (· ≠ '.')
  let fraction := (digits.dropWhile (· ≠ '.')).drop 1
  if whole.isEmpty && fraction.isEmpty then none
  else
    let n ← if whole.isEmpty then some 0 else Text.readNatural 10 whole
    let f ← if fraction.isEmpty then some 0 else Text.readNatural 10 fraction
    return unit * (n * 1000000000 + f * 1000000000 / Nat.pow 10 fraction.length)

def sleep (args : List String) : Deed :=
  let hint := "\nTry 'sleep --help' for more information."
  match args.find? fun s => (readInterval s).isNone with
  | some s => .fail 1 ("sleep: invalid time interval ‘" ++ s ++ "’" ++ hint)
  | none =>
      if args.isEmpty then .fail 1 ("sleep: missing operand" ++ hint)
      else { time := (args.filterMap readInterval).foldl (· + ·) 0 }

def utility (disk : Disk) (name : String) (args : List String) (input : List UInt8) :
    Option Deed :=
  match name with
  | ":" | "true" => some { }
  | "false" => some { status := 1 }
  | "echo" => some (echo args)
  | "printf" => some (printf args)
  | "test" => some (testDeed args)
  | "[" =>
      some <|
        if args.getLast? = some "]" then testDeed args.dropLast
        else .fail 2 "sh: 1: [: missing ]"
  | "cat" => some (concatenate disk args input)
  | "wc" => some (countInput args input)
  | "tr" => some (translate args input)
  | "head" => some (firstOf args input)
  | "seq" => some (countUp args)
  | "sleep" => some (sleep args)
  | _ => none

end ResourceAgent.Shell
