import ResourceAgent.Params.Source
import ResourceAgent.Text.Numeral
import ResourceAgent.Yaml.Reader

/-!
# Parameters in YAML

The nodes of a document as a source of parameters. What a plain scalar means depends on what is
wanted: where a text is wanted every scalar is its text, so `1`, `true` and `null` are texts there.
A missing value and an empty plain scalar stand for an empty record and an empty list.

An alias is looked up when a value is decoded. The number of aliases that may be followed is
bounded by the extent of the document, so that a small document cannot unfold without end.
-/
namespace ResourceAgent

open Yaml (Document Node Style)

/-- Decoding that may follow only so many more aliases. -/
abbrev Following := StateT Nat Option

/-- A node, or what the alias in its place stands for. -/
def Yaml.Document.follow (d : Document) : Node → Following Node
  | .alias anchor => fun
      | 0 => none
      | left + 1 => (d.target? anchor).map (·, left)
  | node => pure node

namespace Yaml

def nullWords : List String := ["null", "Null", "NULL", "~"]

def nullTag : String := "tag:yaml.org,2002:null"

def boolTag : String := "tag:yaml.org,2002:bool"

def intTag : String := "tag:yaml.org,2002:int"

def scalarText? : Node → Option String
  | .scalar _ _ text => some text
  | _ => none

/-- An empty plain scalar, tagged or not. -/
def isVoid : Node → Bool
  | .scalar _ .plain text => text == ""
  | _ => false

/-- The text of a scalar that may be absent: null is a plain scalar, and what else its tag says. -/
def optionalText? : Node → Option (Option String)
  | .scalar none .plain text => some (if text == "" || nullWords.contains text then none else some text)
  | .scalar (some tag) .plain text =>
      if tag != nullTag then some (some text)
      else if nullWords.contains text then some none
      else none
  | .scalar _ _ text => some (some text)
  | _ => none

/-- The text of a scalar that is plain, or a literal block of the given tag. -/
def bareText? (tag : String) : Node → Option String
  | .scalar _ .plain text => some text
  | .scalar (some t) .literal text => if t == tag then some text else none
  | _ => none

/-- A truth value; the spellings of other languages, as `yes`, are none. -/
def readFlag (text : String) : Option Bool :=
  if ["true", "True", "TRUE"].contains text then some true
  else if ["false", "False", "FALSE"].contains text then some false
  else none

/-- Digits after the mark of a radix. -/
def readMarked (mark : List Char) (radix : Nat) (cs : List Char) : Option UInt64 :=
  if mark.isPrefixOf cs then Text.readWordDigits radix (cs.drop mark.length) else none

/-- Decimal digits; a zero may stand first only if it stands alone. -/
def readUnmarked (cs : List Char) : Option UInt64 :=
  match cs with
  | '0' :: _ :: _ => none
  | _ => Text.readWordDigits 10 cs

/-- A number of 64 bits, decimal or marked as hexadecimal, octal or binary; a plus sign may stand
before it. -/
def readSeconds (text : String) : Option UInt64 :=
  let cs :=
    match text.toList with
    | '+' :: r => r
    | cs => cs
  readMarked ['0', 'x'] 16 cs <|> readMarked ['0', 'o'] 8 cs <|> readMarked ['0', 'b'] 2 cs <|>
    readUnmarked cs

/-- The name of a choice: a scalar, or the tag of a node that is null. -/
def choiceName? : Node → Option String
  | .scalar (some tag) style text =>
      match tag.toList with
      | '!' :: name =>
          if style == .plain && (text == "" || nullWords.contains text) then
            some (if name.isEmpty then "!" else String.ofList name)
          else none
      | _ => some text
  | .scalar none _ text => some text
  | _ => none

end Yaml

/-- Decode what a node stands for. -/
def Yaml.Document.decode {α : Type} (d : Document) (read : Node → Option α) (n : Node) :
    Following α := do
  StateT.lift (read (← d.follow n))

/-- The nodes of a document as a source of parameters. -/
def yamlSource (d : Document) : Source Following Node where
  reject := fun _ => none
  record n := do
    let node ← d.follow n
    match node with
    | .mapping _ entries =>
        let names ← entries.mapM fun entry => d.decode Yaml.scalarText? entry.1
        return .named (names.zip (entries.map Prod.snd))
    | _ => if Yaml.isVoid node then return .named [] else fun _ => none
  items := d.decode fun
    | .sequence _ items => some items
    | node => if Yaml.isVoid node then some [] else none
  text := d.decode Yaml.scalarText?
  optionalText := d.decode Yaml.optionalText?
  flag := d.decode fun n => Yaml.bareText? Yaml.boolTag n >>= Yaml.readFlag
  seconds := d.decode fun n => Yaml.bareText? Yaml.intTag n >>= Yaml.readSeconds
  choice := d.decode Yaml.choiceName?

/-- The parameters that a document stands for. -/
def Params.ofYaml? (d : Document) : Option Params :=
  ((yamlSource d).params (d.root.getD .empty)).run' (100 * d.extent)

end ResourceAgent
