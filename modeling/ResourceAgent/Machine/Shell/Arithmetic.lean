import ResourceAgent.Text.Numeral

/-!
# Arithmetic expressions of the shell

Integers, variables, the four operations and the remainder, comparisons, which are one or zero,
and parentheses. Operators of equal rank are taken from the left. A dollar sign before a variable
is passed over.
-/
namespace ResourceAgent.Shell

inductive SumToken where
  | number (n : Int)
  | name (s : String)
  | operator (s : String)
deriving Repr, DecidableEq

def sumTokens (fuel : Nat) (cs : List Char) : Option (List SumToken) :=
  match fuel, cs with
  | _, [] => some []
  | 0, _ => none
  | fuel + 1, c :: rest =>
      if c = ' ' || c = '\t' || c = '\n' || c = '$' then sumTokens fuel rest
      else if c.isDigit then do
        let n ← Text.readNatural 10 (cs.takeWhile Char.isDigit)
        return .number n :: (← sumTokens fuel (cs.dropWhile Char.isDigit))
      else if c.isAlpha || c = '_' then do
        let isName := fun c : Char => c.isAlphanum || c = '_'
        return .name (String.ofList (cs.takeWhile isName)) ::
          (← sumTokens fuel (cs.dropWhile isName))
      else
        match c, rest with
        | '<', '=' :: rest | '>', '=' :: rest | '=', '=' :: rest | '!', '=' :: rest =>
            (sumTokens fuel rest).map (.operator (String.ofList [c, '=']) :: ·)
        | _, _ =>
            if ['+', '-', '*', '/', '%', '(', ')', '<', '>'].contains c then
              (sumTokens fuel rest).map (.operator (String.singleton c) :: ·)
            else none

/-- The rank of an operator between two operands; the higher binds tighter. -/
def operatorRank : String → Option Nat
  | "==" | "!=" => some 1
  | "<" | ">" | "<=" | ">=" => some 2
  | "+" | "-" => some 3
  | "*" | "/" | "%" => some 4
  | _ => none

/-- The value of a comparison. -/
def truth (b : Bool) : Int := if b then 1 else 0

/-- Apply an operator; there is no division by zero. -/
def operate (op : String) (a b : Int) : Option Int :=
  match op with
  | "+" => some (a + b)
  | "-" => some (a - b)
  | "*" => some (a * b)
  | "/" => if b = 0 then none else some (a.tdiv b)
  | "%" => if b = 0 then none else some (a.tmod b)
  | "==" => some (truth (a = b))
  | "!=" => some (truth (a ≠ b))
  | "<" => some (truth (a < b))
  | ">" => some (truth (b < a))
  | "<=" => some (truth (a ≤ b))
  | ">=" => some (truth (b ≤ a))
  | _ => none

mutual

/-- An operand, and what is joined to it by operators of at least the given rank. -/
def readSum (fuel : Nat) (value : String → Int) (rank : Nat) (ts : List SumToken) :
    Option (Int × List SumToken) :=
  match fuel with
  | 0 => none
  | fuel + 1 => do
      let (a, ts) ← readOperand fuel value ts
      readSumRest fuel value rank a ts

/-- What is joined to an operand. -/
def readSumRest (fuel : Nat) (value : String → Int) (rank : Nat) (a : Int)
    (ts : List SumToken) : Option (Int × List SumToken) :=
  match fuel with
  | 0 => none
  | fuel + 1 =>
      match ts with
      | .operator op :: rest =>
          match operatorRank op with
          | none => some (a, ts)
          | some r =>
              if r < rank then some (a, ts)
              else do
                let (b, ts) ← readSum fuel value (r + 1) rest
                readSumRest fuel value rank (← operate op a b) ts
      | _ => some (a, ts)

/-- A number, a variable, a signed operand or an expression between parentheses. -/
def readOperand (fuel : Nat) (value : String → Int) (ts : List SumToken) :
    Option (Int × List SumToken) :=
  match fuel with
  | 0 => none
  | fuel + 1 =>
      match ts with
      | .number n :: rest => some (n, rest)
      | .name s :: rest => some (value s, rest)
      | .operator "-" :: rest => (readOperand fuel value rest).map fun (n, ts) => (-n, ts)
      | .operator "+" :: rest => readOperand fuel value rest
      | .operator "(" :: rest => do
          let (n, ts) ← readSum fuel value 0 rest
          match ts with
          | .operator ")" :: rest => some (n, rest)
          | _ => none
      | _ => none

end

/-- A decimal integer with an optional sign. -/
def readInt (cs : List Char) : Option Int :=
  match cs with
  | '-' :: r => (Text.readNatural 10 r).map fun n => -(n : Int)
  | '+' :: r => (Text.readNatural 10 r).map Int.ofNat
  | _ => (Text.readNatural 10 cs).map Int.ofNat

/-- The value of an expression, given the texts of variables. -/
def evaluateSum (lookup : String → String) (source : List Char) : Option Int := do
  let ts ← sumTokens (source.length + 1) source
  let value := fun name => (readInt (lookup name).toList).getD 0
  match ← readSum (4 * ts.length + 4) value 0 ts with
  | (n, []) => some n
  | _ => none

end ResourceAgent.Shell
