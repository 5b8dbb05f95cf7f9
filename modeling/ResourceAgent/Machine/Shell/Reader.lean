import ResourceAgent.Machine.Shell.Script

/-!
# Reading shell scripts

The text is cut into words and operators, and these are read by recursive descent. The fuel is the
number of steps that may be taken; the length of the text, and then the number of tokens, bound
what is needed.
-/
namespace ResourceAgent.Shell

inductive Token where
  | word (w : Word)
  | operator (s : String)
  | redirect (r : Redirect)
  /-- A redirection of a stream to the file that is named next. -/
  | toFile (stream : Nat)
  /-- A redirection of the input to the file that is named next. -/
  | fromFile
deriving Repr, DecidableEq

/-- Ends a word. -/
def isMeta (c : Char) : Bool :=
  c = ' ' || c = '\t' || c = '\n' || c = ';' || c = '&' || c = '|' || c = '<' || c = '>' ||
    c = '(' || c = ')'

/-- May stand in the name of a variable. -/
def isNameChar (c : Char) : Bool := c.isAlphanum || c = '_'

/-- Parameters whose names are single characters. -/
def isSpecial (c : Char) : Bool :=
  c.isDigit || c = '@' || c = '*' || c = '#' || c = '?' || c = '$' || c = '!' || c = '-'

/-- The source of an arithmetic expression and the text after its two closing parentheses. -/
def sumSource (depth : Nat) (acc : List Char) : List Char → Option (List Char × List Char)
  | [] => none
  | '(' :: rest => sumSource (depth + 1) ('(' :: acc) rest
  | ')' :: rest =>
      match depth, rest with
      | depth + 1, _ => sumSource depth (')' :: acc) rest
      | 0, ')' :: rest => some (acc.reverse, rest)
      | 0, _ => none
  | c :: rest => sumSource depth (c :: acc) rest

/-- What a dollar sign stands for, and the text after it. -/
def readDollar (cs : List Char) : Option (Part × List Char) :=
  match cs with
  | '(' :: '(' :: rest =>
      (sumSource 0 [] rest).map fun (source, rest) => (.sum source, rest)
  | '(' :: _ => none
  | '\x7b' :: rest =>
      let name := rest.takeWhile (· ≠ '\x7d')
      match rest.dropWhile (· ≠ '\x7d') with
      | [] => none
      | _ :: rest =>
          if !name.isEmpty && (name.all isNameChar || name.length = 1) then
            some (.parameter (String.ofList name), rest)
          else none
  | c :: rest =>
      if isSpecial c then some (.parameter (String.singleton c), rest)
      else if isNameChar c then
        some (.parameter (String.ofList (cs.takeWhile isNameChar)), cs.dropWhile isNameChar)
      else some (.text "$", cs)
  | [] => some (.text "$", [])

/-- A character of its own in a word. -/
def charSegment (quoted : Bool) (c : Char) : Segment := ⟨quoted, .text (String.singleton c)⟩

/-- The rest of a text between double quotes; `acc` is reversed. -/
def readDoubleQuoted (fuel : Nat) (acc : Word) (cs : List Char) : Option (Word × List Char) :=
  match fuel, cs with
  | 0, _ | _, [] => none
  | fuel + 1, c :: rest =>
      if c = '"' then some (acc, rest)
      else if c = '\\' then
        match rest with
        | [] => none
        | '\n' :: rest => readDoubleQuoted fuel acc rest
        | e :: rest =>
            if e = '$' || e = '\x60' || e = '"' || e = '\\' then
              readDoubleQuoted fuel (charSegment true e :: acc) rest
            else readDoubleQuoted fuel (charSegment true e :: charSegment true '\\' :: acc) rest
      else if c = '\x60' then none
      else if c = '$' then
        match readDollar rest with
        | none => none
        | some (part, rest) => readDoubleQuoted fuel (⟨true, part⟩ :: acc) rest
      else readDoubleQuoted fuel (charSegment true c :: acc) rest

/-- The rest of a word; `acc` is reversed. -/
def readWord (fuel : Nat) (acc : Word) (cs : List Char) : Option (Word × List Char) :=
  match fuel, cs with
  | 0, _ => none
  | _, [] => some (acc.reverse, [])
  | fuel + 1, c :: rest =>
      if isMeta c then some (acc.reverse, cs)
      else if c = '\x27' then
        match rest.dropWhile (· ≠ '\x27') with
        | [] => none
        | _ :: after =>
            readWord fuel
              (⟨true, .text (String.ofList (rest.takeWhile (· ≠ '\x27')))⟩ :: acc) after
      else if c = '"' then
        match readDoubleQuoted fuel (⟨true, .text ""⟩ :: acc) rest with
        | none => none
        | some (acc, rest) => readWord fuel acc rest
      else if c = '\\' then
        match rest with
        | [] => readWord fuel (charSegment true '\\' :: acc) []
        | '\n' :: rest => readWord fuel acc rest
        | e :: rest => readWord fuel (charSegment true e :: acc) rest
      else if c = '\x60' then none
      else if c = '$' then
        match readDollar rest with
        | none => none
        | some (part, rest) => readWord fuel (⟨false, part⟩ :: acc) rest
      else readWord fuel (charSegment false c :: acc) rest

/-- Join neighbouring texts that are not quoted, so that keywords can be told. -/
def joinBare : Word → Word
  | ⟨false, .text a⟩ :: rest =>
      match joinBare rest with
      | ⟨false, .text b⟩ :: more => ⟨false, .text (a ++ b)⟩ :: more
      | more => ⟨false, .text a⟩ :: more
  | s :: rest => s :: joinBare rest
  | [] => []

/-- A redirection of output, after its sign. -/
def readOutput (stream : Nat) (cs : List Char) : Option (Token × List Char) :=
  match cs with
  | '&' :: c :: rest =>
      if c.isDigit then some (.redirect (.onto stream (c.toNat - 48)), rest) else none
  | '>' :: rest => some (.toFile stream, rest)
  | _ => some (.toFile stream, cs)

def tokenize (fuel : Nat) (cs : List Char) : Option (List Token) :=
  match fuel, cs with
  | _, [] => some []
  | 0, _ => none
  | fuel + 1, c :: rest =>
      if c = ' ' || c = '\t' then tokenize fuel rest
      else if c = '#' then tokenize fuel (rest.dropWhile (· ≠ '\n'))
      else if c = '\n' || c = ';' then (tokenize fuel rest).map (.operator ";" :: ·)
      else if c = '(' || c = ')' then
        (tokenize fuel rest).map (.operator (String.singleton c) :: ·)
      else if c = '&' then
        match rest with
        | '&' :: rest => (tokenize fuel rest).map (.operator "&&" :: ·)
        | _ => none
      else if c = '|' then
        match rest with
        | '|' :: rest => (tokenize fuel rest).map (.operator "||" :: ·)
        | _ => (tokenize fuel rest).map (.operator "|" :: ·)
      else if c = '<' then (tokenize fuel rest).map (.fromFile :: ·)
      else if c = '>' then
        match readOutput 1 rest with
        | none => none
        | some (t, rest) => (tokenize fuel rest).map (t :: ·)
      else
        match c.isDigit, rest with
        | true, '>' :: rest =>
            match readOutput (c.toNat - 48) rest with
            | none => none
            | some (t, rest) => (tokenize fuel rest).map (t :: ·)
        | _, _ =>
            match readWord (rest.length + 2) [] cs with
            | none => none
            | some (w, rest) => (tokenize fuel rest).map (.word (joinBare w) :: ·)

/-- Words that end a list of commands where a command could start. -/
def closers : List String := ["then", "elif", "else", "fi", "do", "done", "\x7d"]

/-- The word that a token spells without quotes. -/
def Token.keyword? : Token → Option String
  | .word w => w.bare?
  | _ => none

/-- A list of commands ends before this token. -/
def Token.closes (t : Token) : Bool :=
  t == .operator ")" || t.keyword?.any closers.contains

/-- The tokens after a keyword. -/
def expect (keyword : String) : List Token → Option (List Token)
  | t :: rest => if t.keyword? == some keyword then some rest else none
  | [] => none

def skipSeparators (ts : List Token) : List Token := ts.dropWhile (· == .operator ";")

/-- Redirections after a compound command. -/
def readRedirects : List Token → List Redirect × List Token
  | .redirect r :: rest => let (rs, ts) := readRedirects rest; (r :: rs, ts)
  | .toFile stream :: .word _ :: rest =>
      let (rs, ts) := readRedirects rest
      (.away stream :: rs, ts)
  | .fromFile :: .word w :: rest => let (rs, ts) := readRedirects rest; (.input w :: rs, ts)
  | ts => ([], ts)

/-- The words and redirections of a simple command. -/
def readSimple : List Token → List Word × List Redirect × List Token
  | .word w :: rest => let (ws, rs, ts) := readSimple rest; (w :: ws, rs, ts)
  | .redirect r :: rest => let (ws, rs, ts) := readSimple rest; (ws, r :: rs, ts)
  | .toFile stream :: .word _ :: rest =>
      let (ws, rs, ts) := readSimple rest
      (ws, .away stream :: rs, ts)
  | .fromFile :: .word w :: rest =>
      let (ws, rs, ts) := readSimple rest
      (ws, .input w :: rs, ts)
  | ts => ([], [], ts)

def readWords : List Token → List Word × List Token
  | .word w :: rest => let (ws, ts) := readWords rest; (w :: ws, ts)
  | ts => ([], ts)

/-- A script with its redirections, if it has any. -/
def withRedirects (body : Script) (rs : List Redirect) : Script :=
  if rs.isEmpty then body else .redirected body rs

/-- A command read, and the tokens after it. -/
abbrev Read := Option (Script × List Token)

mutual

/-- A list of commands, up to its end. -/
def readList (fuel : Nat) (ts : List Token) : Read :=
  match fuel with
  | 0 => none
  | fuel + 1 =>
      let ts := skipSeparators ts
      if ts.head?.all Token.closes then some (.nothing, ts)
      else do
        let (first, ts) ← readAndOr fuel ts
        match ts with
        | .operator ";" :: rest =>
            let (second, ts) ← readList fuel rest
            return (.sequence first second, ts)
        | _ => if ts.head?.all Token.closes then some (first, ts) else none

/-- Commands joined by `&&` and by bars. -/
def readAndOr (fuel : Nat) (ts : List Token) : Read :=
  match fuel with
  | 0 => none
  | fuel + 1 => do
      let (first, ts) ← readPipeline fuel ts
      readAndOrRest fuel first ts

/-- What is joined to a command. -/
def readAndOrRest (fuel : Nat) (first : Script) (ts : List Token) : Read :=
  match fuel with
  | 0 => none
  | fuel + 1 =>
      match ts with
      | .operator "&&" :: rest => do
          let (second, ts) ← readPipeline fuel (skipSeparators rest)
          readAndOrRest fuel (.both first second) ts
      | .operator "||" :: rest => do
          let (second, ts) ← readPipeline fuel (skipSeparators rest)
          readAndOrRest fuel (.either first second) ts
      | _ => some (first, ts)

def readPipeline (fuel : Nat) (ts : List Token) : Read :=
  match fuel with
  | 0 => none
  | fuel + 1 =>
      match expect "!" ts with
      | some rest => (readPipeline fuel rest).map fun (body, ts) => (.negate body, ts)
      | none => do
          let (first, ts) ← readCommand fuel ts
          match ts with
          | .operator "|" :: rest =>
              let (second, ts) ← readPipeline fuel (skipSeparators rest)
              return (.pipe first second, ts)
          | _ => some (first, ts)

def readCommand (fuel : Nat) (ts : List Token) : Read :=
  match fuel with
  | 0 => none
  | fuel + 1 =>
      match ts with
      | [] => none
      | .operator "(" :: rest => do
          let (body, ts) ← readList fuel rest
          match ts with
          | .operator ")" :: rest =>
              let (rs, ts) := readRedirects rest
              return (withRedirects (.isolated body) rs, ts)
          | _ => none
      | .operator _ :: _ => none
      | t :: rest =>
          match t.keyword? with
          | some "\x7b" => do
              let (body, ts) ← readList fuel rest
              let (rs, ts) := readRedirects (← expect "\x7d" ts)
              return (withRedirects body rs, ts)
          | some "while" => do
              let (condition, ts) ← readList fuel rest
              readLoop fuel (.loop condition) ts
          | some "until" => do
              let (condition, ts) ← readList fuel rest
              readLoop fuel (.loop (.negate condition)) ts
          | some "for" =>
              match rest with
              | .word w :: more => do
                  let (words, ts) := readWords (← expect "in" more)
                  readLoop fuel (.each (← w.bare?) words) (skipSeparators ts)
              | _ => none
          | some "if" => do
              let (script, ts) ← readIf fuel rest
              let (rs, ts) := readRedirects ts
              return (withRedirects script rs, ts)
          | _ =>
              if t.closes then none
              else
                let (words, rs, ts) := readSimple ts
                some (withRedirects (.simple words) rs, ts)

/-- The body of a loop, between its keywords. -/
def readLoop (fuel : Nat) (build : Script → Script) (ts : List Token) : Read :=
  match fuel with
  | 0 => none
  | fuel + 1 => do
      let (body, ts) ← readList fuel (← expect "do" ts)
      let (rs, ts) := readRedirects (← expect "done" ts)
      return (withRedirects (build body) rs, ts)

/-- A choice, after its first keyword. -/
def readIf (fuel : Nat) (ts : List Token) : Read :=
  match fuel with
  | 0 => none
  | fuel + 1 => do
      let (condition, ts) ← readList fuel ts
      let (yes, ts) ← readList fuel (← expect "then" ts)
      match ts with
      | [] => none
      | t :: rest =>
          match t.keyword? with
          | some "fi" => return (.choose condition yes .nothing, rest)
          | some "elif" =>
              let (no, ts) ← readIf fuel rest
              return (.choose condition yes no, ts)
          | some "else" =>
              let (no, ts) ← readList fuel rest
              return (.choose condition yes no, ← expect "fi" ts)
          | _ => none

end

def Script.parse (text : String) : Option Script := do
  let cs := text.toList
  let ts ← tokenize (cs.length + 1) cs
  match ← readList (8 * ts.length + 8) ts with
  | (script, []) => some script
  | _ => none

end ResourceAgent.Shell
