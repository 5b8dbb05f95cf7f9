/-!
# The tree of an outline

A tree binds names to sections; a section is a leaf with a text or a branch with a tree of its
own. Names are in the order of their code points and a name occurs once: `insert` keeps a tree
that way, and a later binding replaces an earlier one as a whole.

A branch carries a label besides its tree. Trees that are read from an outline leave it empty;
other sources of trees may fill it.
-/
namespace ResourceAgent.Outline

mutual

/-- What a name is bound to. -/
inductive Section where
  | leaf (value : String)
  | branch (label : String) (entries : Tree)
deriving Repr, DecidableEq

/-- Bindings of names to sections. -/
inductive Tree where
  | nil
  | cons (name : String) (entry : Section) (rest : Tree)
deriving Repr, DecidableEq

end

namespace Tree

instance : Inhabited Tree := ⟨.nil⟩

def toList : Tree → List (String × Section)
  | .nil => []
  | .cons name entry rest => (name, entry) :: toList rest

/-- Bind a name; an earlier binding of it is replaced. -/
def insert (name : String) (entry : Section) : Tree → Tree
  | .nil => .cons name entry .nil
  | .cons n e rest =>
      if name < n then .cons name entry (.cons n e rest)
      else if name = n then .cons name entry rest
      else .cons n e (insert name entry rest)

def get? (name : String) : Tree → Option Section
  | .nil => none
  | .cons n e rest => if name = n then some e else get? name rest

/-- Insert bindings in the order of the list. -/
def ofList (entries : List (String × Section)) : Tree :=
  entries.foldl (fun tree entry => tree.insert entry.1 entry.2) .nil

/-- The bound names, in order. -/
def names (tree : Tree) : List String := tree.toList.map Prod.fst

@[simp] theorem toList_nil : Tree.nil.toList = [] := rfl

@[simp] theorem toList_cons (name : String) (entry : Section) (rest : Tree) :
    (Tree.cons name entry rest).toList = (name, entry) :: rest.toList := rfl

@[simp] theorem get?_nil (name : String) : Tree.nil.get? name = none := rfl

end Tree

namespace Section

def asLeaf : Section → Option String
  | .leaf value => some value
  | .branch _ _ => none

def children : Section → Option Tree
  | .leaf _ => none
  | .branch _ entries => some entries

/-- Follow a path of names downwards. -/
def lookup : List String → Section → Option Section
  | [], s => some s
  | name :: path, s => do
      let entry ← (← s.children).get? name
      entry.lookup path

end Section

mutual

/-- The section itself at the given depth, then what lies below it. -/
def Section.flatten (depth : Nat) (name : String) : Section → List (Nat × String × Option String)
  | .leaf value => [(depth, name, some value)]
  | .branch _ entries => (depth, name, none) :: entries.flatten (depth + 1)

/-- Every section with its depth and name, a branch right before its children. -/
def Tree.flatten (depth : Nat) : Tree → List (Nat × String × Option String)
  | .nil => []
  | .cons name entry rest => entry.flatten depth name ++ rest.flatten depth

end

end ResourceAgent.Outline
