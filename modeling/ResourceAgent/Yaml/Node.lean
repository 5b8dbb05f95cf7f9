import ResourceAgent.Yaml.Token

/-!
# Nodes of a YAML document

A node is a scalar, a sequence or a mapping, each with its resolved tag if it has one, or an alias
of a node elsewhere. The entries of a mapping are in the order of the text, equal keys included.

Anchors are numbered as they are met: an anchor gets the number of different names that were in
use before it. A name that is used again therefore gets a number that the next new name gets too,
and what was bound to a number last is what its aliases stand for.
-/
namespace ResourceAgent.Yaml

inductive Node where
  | scalar (tag : Option String) (style : Style) (text : String)
  | sequence (tag : Option String) (items : List Node)
  | mapping (tag : Option String) (entries : List (Node × Node))
  | alias (anchor : Nat)
deriving Repr

instance : Inhabited Node := ⟨.alias 0⟩

/-- A scalar without any text or tag. -/
def Node.empty : Node := .scalar none .plain ""

mutual

/-- The number of places a node takes in the document: one for a scalar or an alias, two besides
its content for a collection. -/
def Node.extent : Node → Nat
  | .scalar _ _ _ => 1
  | .alias _ => 1
  | .sequence _ items => itemsExtent items + 2
  | .mapping _ entries => entriesExtent entries + 2

/-- The places of the items of a sequence. -/
def itemsExtent : List Node → Nat
  | [] => 0
  | n :: rest => n.extent + itemsExtent rest

/-- The places of the entries of a mapping. -/
def entriesExtent : List (Node × Node) → Nat
  | [] => 0
  | (k, v) :: rest => k.extent + v.extent + entriesExtent rest

end

/-- A document: its node, none for a stream without content, and what anchors stand for. -/
structure Document where
  root : Option Node
  /-- The order of the node last bound to an anchor number. -/
  anchors : List (Nat × Nat) := []
  /-- The anchored nodes by their order. -/
  nodes : List (Nat × Node) := []
deriving Repr

/-- The node that an alias stands for. -/
def Document.target? (d : Document) (anchor : Nat) : Option Node :=
  d.anchors.lookup anchor >>= fun order => d.nodes.lookup order

/-- The places of a document; a stream without content has one. -/
def Document.extent (d : Document) : Nat := (d.root.map Node.extent).getD 1

end ResourceAgent.Yaml
