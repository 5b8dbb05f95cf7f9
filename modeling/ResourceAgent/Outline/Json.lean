import ResourceAgent.Json.Reader
import ResourceAgent.Json.Writer
import ResourceAgent.Outline.Tree

/-!
# Trees as JSON

A leaf is written as a string and a branch as an object with the members `name` (its label) and
`value` (its tree). A tree is an object with one member for each binding.

When a tree is read, a branch may have its members in any order, and others besides, which are
ignored; but `name` and `value` have to be there once each. Of two bindings of one name the later
one holds. The entries of the outermost object are judged one by one as they are read, so that an
entry that is no section is reported before any fault in the text after it.
-/
namespace ResourceAgent.Outline

open Json (Value)

mutual

def Section.toJson : Section → Value
  | .leaf value => .string value
  | .branch label entries => .object [("name", .string label), ("value", .object entries.members)]

/-- The members of the JSON form of a tree. -/
def Tree.members : Tree → List (String × Value)
  | .nil => []
  | .cons name entry rest => (name, entry.toJson) :: rest.members

end

def Tree.toJson (tree : Tree) : Value := .object tree.members

/-- The value of the only member of the given name. -/
def onlyMember (name : String) (members : List (String × Value)) : Option Value :=
  match members.filter (·.1 == name) with
  | [(_, v)] => some v
  | _ => none

/-- The label of a branch with these members. -/
def labelOf (members : List (String × Value)) : Option String :=
  match onlyMember "name" members with
  | some (.string label) => some label
  | _ => none

mutual

/-- The section that a JSON value stands for. -/
def Section.ofJson? : Value → Option Section
  | .string s => some (.leaf s)
  | .object members =>
      match labelOf members, branchOf? members with
      | some label, [some tree] => some (.branch label tree)
      | _, _ => none
  | _ => none

/-- The trees under the members named `value`, none where the member is no tree. -/
def branchOf? : List (String × Value) → List (Option Tree)
  | [] => []
  | (name, v) :: rest =>
      if name = "value" then treeOf? v :: branchOf? rest else branchOf? rest

/-- The tree that a JSON object stands for. -/
def treeOf? : Value → Option Tree
  | .object members => bindings? .nil members
  | _ => none

/-- The members bound one after the other. -/
def bindings? (tree : Tree) : List (String × Value) → Option Tree
  | [] => some tree
  | (name, v) :: rest =>
      match Section.ofJson? v with
      | some entry => bindings? (tree.insert name entry) rest
      | none => none

end

/-- The bindings of the outermost object from the next member on. -/
def readBindings (fuel : Nat) (tree : Tree) (cs : List Char) :
    Except Json.Error (Tree × List Char) :=
  match fuel with
  | 0 => .error .unexpectedEnd
  | fuel + 1 =>
      match Json.readName (fuel + 1) cs with
      | .error e => .error e
      | .ok (name, rest) =>
          match Json.readValue fuel (Json.depthLimit - 1) rest with
          | .error e => .error e
          | .ok (v, rest) =>
              match Section.ofJson? v with
              | none => .error .mismatch
              | some entry =>
                  match Json.skipSpace rest with
                  | [] => .error .unexpectedEnd
                  | '\x7d' :: rest => .ok (tree.insert name entry, rest)
                  | ',' :: rest => readBindings fuel (tree.insert name entry) (Json.skipSpace rest)
                  | _ => .error .malformed

/-- The tree at the front of a text. -/
def readTree (fuel : Nat) (cs : List Char) : Except Json.Error (Tree × List Char) :=
  match Json.skipSpace cs with
  | '\x7b' :: rest =>
      match Json.skipSpace rest with
      | '\x7d' :: rest => .ok (.nil, rest)
      | rest => readBindings fuel .nil rest
  | '[' :: _ => .error .mismatch
  | rest =>
      match Json.readScalar fuel rest with
      | .ok _ => .error .mismatch
      | .error e => .error e

def Tree.parseJson (text : String) : Except Json.Error Tree := do
  let cs := text.toList
  let (tree, rest) ← readTree (Json.fuelFor cs) cs
  Json.expectEnd rest
  pure tree

end ResourceAgent.Outline
