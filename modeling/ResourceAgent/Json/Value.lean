/-!
# JSON values

The members of an object are a list: their order is kept, and so are members of equal names, for
a reader to accept or refuse. A number is an integer, or the literal of a number that is written
with a fraction or an exponent or as a negative zero.
-/
namespace ResourceAgent.Json

inductive Number where
  | integer (n : Int)
  | decimal (literal : String)
deriving Repr, DecidableEq

inductive Value where
  | null
  | bool (b : Bool)
  | number (n : Number)
  | string (s : String)
  | array (items : List Value)
  | object (members : List (String × Value))
deriving Repr

namespace Value

instance : Inhabited Value := ⟨.null⟩

def nat (n : Nat) : Value := .number (.integer n)

def int (n : Int) : Value := .number (.integer n)

/-- A text, or null where there is none. -/
def optionalString : Option String → Value
  | none => .null
  | some s => .string s

/-- The last member of the given name. -/
def member? (name : String) : Value → Option Value
  | .object members => (members.reverse.find? (·.1 == name)).map Prod.snd
  | _ => none

end Value

end ResourceAgent.Json
