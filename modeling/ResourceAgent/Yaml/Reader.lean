import ResourceAgent.Yaml.Lexer
import ResourceAgent.Yaml.Node

/-!
# Reading a YAML document

The tokens are read by recursive descent: one function for each kind of collection, each of which
returns what it read and the tokens after it. Where a node is missing the empty scalar stands. A
sequence that is the value of a key may stand at the column of the key; then nothing but its
hyphens marks it.

The stream has to hold one document at most.
-/
namespace ResourceAgent.Yaml

structure Context where
  /-- The handles of tags and what they expand to. -/
  handles : List (String × String)
  /-- The number of each anchor name that is in use. -/
  names : List (String × Nat) := []
  /-- The order of the node last bound to a number, the latest first. -/
  anchors : List (Nat × Nat) := []
  nodes : List (Nat × Node) := []
  /-- The number of anchored nodes so far. -/
  count : Nat := 0
deriving Repr

namespace Context

/-- Bind an anchor name to the node that starts here, and tell the order of that node. -/
def bind (ctx : Context) (name : String) : Context × Nat :=
  let number := ctx.names.length
  ({ ctx with
      names := (name, number) :: ctx.names.filter (·.1 != name)
      anchors := (number, ctx.count) :: ctx.anchors
      count := ctx.count + 1 }, ctx.count)

/-- Tag and anchor of the node that starts here; the order is told if it has an anchor. -/
def enter (ctx : Context) (anchor : Option String) : Context × Option Nat :=
  match anchor with
  | none => (ctx, none)
  | some name => ((ctx.bind name).1, some (ctx.bind name).2)

/-- Remember an anchored node when it has been read. -/
def leave (ctx : Context) (order : Option Nat) (node : Node) : Context :=
  match order with
  | none => ctx
  | some order => { ctx with nodes := (order, node) :: ctx.nodes }

/-- The tag that a handle and a suffix make. -/
def resolve (ctx : Context) (handle suffix : String) : Except Error String :=
  if handle = "" then .ok suffix
  else
    match ctx.handles.lookup handle with
    | some expansion => .ok (expansion ++ suffix)
    | none => .error .undefinedTag

end Context

/-- What stands before the content of a node. -/
structure Properties where
  anchor : Option String := none
  tag : Option String := none
deriving Repr, DecidableEq

/-- Read an anchor and a tag, in either order, each at most once. -/
def readProperties (ctx : Context) : List Token → Except Error (Properties × List Token)
  | .anchor a :: .tag h s :: rest =>
      (ctx.resolve h s).map fun tag => (⟨some a, some tag⟩, rest)
  | .anchor a :: rest => .ok (⟨some a, none⟩, rest)
  | .tag h s :: .anchor a :: rest =>
      (ctx.resolve h s).map fun tag => (⟨some a, some tag⟩, rest)
  | .tag h s :: rest => (ctx.resolve h s).map fun tag => (⟨none, some tag⟩, rest)
  | rest => .ok ({ }, rest)

/-- Where a node is read: what kinds of collections may start. -/
inductive Place where
  /-- Block collections may start. -/
  | block
  /-- Block collections may start, and a sequence without an indentation of its own. -/
  | blockValue
  /-- Only brackets may start collections. -/
  | flow
deriving Repr, DecidableEq

/-- A scalar. Written before a scalar, the tag `!` alone says nothing and is dropped. -/
def scalarNode (tag : Option String) (style : Style) (text : String) : Node :=
  .scalar (tag.filter (· ≠ "!")) style text

/-- A result with the context and the tokens after it. -/
abbrev Read (α : Type) := Except Error (α × Context × List Token)

mutual

def readNode (fuel : Nat) (place : Place) (ctx : Context) (ts : List Token) : Read Node :=
  match fuel with
  | 0 => .error .unexpectedToken
  | fuel + 1 =>
      match ts with
      | .alias name :: rest =>
          match ctx.names.lookup name with
          | some number => .ok (.alias number, ctx, rest)
          | none => .error .undefinedAnchor
      | _ =>
          match readProperties ctx ts with
          | .error e => .error e
          | .ok (props, ts) =>
              let entered := ctx.enter props.anchor
              match readContent fuel place props entered.1 ts with
              | .error e => .error e
              | .ok (node, ctx, rest) => .ok (node, ctx.leave entered.2 node, rest)

/-- The content of a node after its properties. -/
def readContent (fuel : Nat) (place : Place) (props : Properties) (ctx : Context)
    (ts : List Token) : Read Node :=
  match fuel with
  | 0 => .error .unexpectedToken
  | fuel + 1 =>
      match ts with
      | .scalar style text :: rest => .ok (scalarNode props.tag style text, ctx, rest)
      | .flowSequenceStart :: rest =>
          (readFlowItems fuel true [] ctx rest).map fun (items, r) =>
            (.sequence props.tag items, r)
      | .flowMappingStart :: rest =>
          (readFlowEntries fuel true [] ctx rest).map fun (entries, r) =>
            (.mapping props.tag entries, r)
      | .blockEntry :: _ =>
          if place = .blockValue then
            (readIndentlessItems fuel [] ctx ts).map fun (items, r) =>
              (.sequence props.tag items, r)
          else readMissing props ctx ts
      | .blockSequenceStart :: rest =>
          if place = .flow then readMissing props ctx ts
          else
            (readBlockItems fuel [] ctx rest).map fun (items, r) => (.sequence props.tag items, r)
      | .blockMappingStart :: rest =>
          if place = .flow then readMissing props ctx ts
          else
            (readBlockEntries fuel [] ctx rest).map fun (entries, r) =>
              (.mapping props.tag entries, r)
      | _ => readMissing props ctx ts

/-- Content that is left out: it may be, after a property. -/
def readMissing (props : Properties) (ctx : Context) (ts : List Token) : Read Node :=
  if props.anchor.isSome || props.tag.isSome then .ok (.scalar props.tag .plain "", ctx, ts)
  else .error .unexpectedToken

/-- A node unless one of the given tokens is next. -/
def readUnless (fuel : Nat) (ends : List Token) (place : Place) (ctx : Context)
    (ts : List Token) : Read Node :=
  match fuel with
  | 0 => .error .unexpectedToken
  | fuel + 1 =>
      match ts with
      | [] => readNode fuel place ctx ts
      | t :: _ =>
          if ends.contains t then .ok (.empty, ctx, ts) else readNode fuel place ctx ts

/-- The entries of a block sequence; `acc` is reversed. -/
def readBlockItems (fuel : Nat) (acc : List Node) (ctx : Context) (ts : List Token) :
    Read (List Node) :=
  match fuel with
  | 0 => .error .unexpectedToken
  | fuel + 1 =>
      match ts with
      | .blockEntry :: rest =>
          match readUnless fuel [.blockEntry, .blockEnd] .block ctx rest with
          | .error e => .error e
          | .ok (node, ctx, rest) => readBlockItems fuel (node :: acc) ctx rest
      | .blockEnd :: rest => .ok (acc.reverse, ctx, rest)
      | _ => .error .unexpectedToken

/-- The entries of a sequence without an indentation of its own; `acc` is reversed. -/
def readIndentlessItems (fuel : Nat) (acc : List Node) (ctx : Context) (ts : List Token) :
    Read (List Node) :=
  match fuel with
  | 0 => .error .unexpectedToken
  | fuel + 1 =>
      match ts with
      | .blockEntry :: rest =>
          match readUnless fuel [.blockEntry, .key, .value, .blockEnd] .block ctx rest with
          | .error e => .error e
          | .ok (node, ctx, rest) => readIndentlessItems fuel (node :: acc) ctx rest
      | _ => .ok (acc.reverse, ctx, ts)

/-- The entries of a block mapping; `acc` is reversed. -/
def readBlockEntries (fuel : Nat) (acc : List (Node × Node)) (ctx : Context) (ts : List Token) :
    Read (List (Node × Node)) :=
  match fuel with
  | 0 => .error .unexpectedToken
  | fuel + 1 =>
      match ts with
      | .blockEnd :: rest => .ok (acc.reverse, ctx, rest)
      | .key :: rest =>
          match readUnless fuel [.key, .value, .blockEnd] .blockValue ctx rest with
          | .error e => .error e
          | .ok (key, ctx, rest) =>
              match readBlockValue fuel ctx rest with
              | .error e => .error e
              | .ok (value, ctx, rest) => readBlockEntries fuel ((key, value) :: acc) ctx rest
      | _ => .error .unexpectedToken

/-- The value of a block mapping's key; it may be left out together with its colon. -/
def readBlockValue (fuel : Nat) (ctx : Context) (ts : List Token) : Read Node :=
  match fuel with
  | 0 => .error .unexpectedToken
  | fuel + 1 =>
      match ts with
      | .value :: rest => readUnless fuel [.key, .value, .blockEnd] .blockValue ctx rest
      | _ => .ok (.empty, ctx, ts)

/-- The items of a sequence in brackets; before each but the first a comma is due. -/
def readFlowItems (fuel : Nat) (first : Bool) (acc : List Node) (ctx : Context)
    (ts : List Token) : Read (List Node) :=
  match fuel with
  | 0 => .error .unexpectedToken
  | fuel + 1 =>
      match ts with
      | .flowSequenceEnd :: rest => .ok (acc.reverse, ctx, rest)
      | .flowEntry :: rest =>
          if first then .error .unexpectedToken else readFlowItem fuel acc ctx rest
      | _ => if first then readFlowItem fuel acc ctx ts else .error .unexpectedToken

/-- One item of a sequence in brackets, and the items after it. -/
def readFlowItem (fuel : Nat) (acc : List Node) (ctx : Context) (ts : List Token) :
    Read (List Node) :=
  match fuel with
  | 0 => .error .unexpectedToken
  | fuel + 1 =>
      match ts with
      | .flowSequenceEnd :: rest => .ok (acc.reverse, ctx, rest)
      | .key :: rest =>
          match readFlowPair fuel ctx rest with
          | .error e => .error e
          | .ok (pair, ctx, rest) =>
              readFlowItems fuel false (.mapping none [pair] :: acc) ctx rest
      | _ =>
          match readNode fuel .flow ctx ts with
          | .error e => .error e
          | .ok (node, ctx, rest) => readFlowItems fuel false (node :: acc) ctx rest

/-- A mapping of one entry that is an item of a sequence in brackets. Where its key is missing,
the token in the place of the key is passed over. -/
def readFlowPair (fuel : Nat) (ctx : Context) (ts : List Token) : Read (Node × Node) :=
  match fuel with
  | 0 => .error .unexpectedToken
  | fuel + 1 =>
      let key : Read Node :=
        match ts with
        | .value :: rest | .flowEntry :: rest | .flowSequenceEnd :: rest =>
            .ok (.empty, ctx, rest)
        | _ => readNode fuel .flow ctx ts
      match key with
      | .error e => .error e
      | .ok (key, ctx, .value :: rest) =>
          (readUnless fuel [.flowEntry, .flowSequenceEnd] .flow ctx rest).map fun (v, r) =>
            ((key, v), r)
      | .ok (key, ctx, rest) => .ok ((key, .empty), ctx, rest)

/-- The entries of a mapping in brackets; before each but the first a comma is due. -/
def readFlowEntries (fuel : Nat) (first : Bool) (acc : List (Node × Node)) (ctx : Context)
    (ts : List Token) : Read (List (Node × Node)) :=
  match fuel with
  | 0 => .error .unexpectedToken
  | fuel + 1 =>
      match ts with
      | .flowMappingEnd :: rest => .ok (acc.reverse, ctx, rest)
      | .flowEntry :: rest =>
          if first then .error .unexpectedToken else readFlowEntry fuel acc ctx rest
      | _ => if first then readFlowEntry fuel acc ctx ts else .error .unexpectedToken

/-- One entry of a mapping in brackets, and the entries after it. -/
def readFlowEntry (fuel : Nat) (acc : List (Node × Node)) (ctx : Context) (ts : List Token) :
    Read (List (Node × Node)) :=
  match fuel with
  | 0 => .error .unexpectedToken
  | fuel + 1 =>
      match ts with
      | .flowMappingEnd :: rest => .ok (acc.reverse, ctx, rest)
      | .key :: rest =>
          match readUnless fuel [.value, .flowEntry, .flowMappingEnd] .flow ctx rest with
          | .error e => .error e
          | .ok (key, ctx, rest) =>
              match readFlowValue fuel ctx rest with
              | .error e => .error e
              | .ok (value, ctx, rest) =>
                  readFlowEntries fuel false ((key, value) :: acc) ctx rest
      | _ =>
          match readNode fuel .flow ctx ts with
          | .error e => .error e
          | .ok (key, ctx, rest) => readFlowEntries fuel false ((key, .empty) :: acc) ctx rest

/-- The value of a key in brackets; it may be left out together with its colon. -/
def readFlowValue (fuel : Nat) (ctx : Context) (ts : List Token) : Read Node :=
  match fuel with
  | 0 => .error .unexpectedToken
  | fuel + 1 =>
      match ts with
      | .value :: rest => readUnless fuel [.flowEntry, .flowMappingEnd] .flow ctx rest
      | _ => .ok (.empty, ctx, ts)

end

/-- The handles that every document knows. -/
def defaultHandles : List (String × String) := [("!", "!"), ("!!", "tag:yaml.org,2002:")]

/-- The directives before a document: at most one version, which has to be 1.1 or 1.2, and a
handle defined once at most. A default handle may be defined anew. -/
def readDirectives (version : Bool) (handles : List (String × String)) :
    List Token → Except Error (List (String × String) × List Token)
  | .versionDirective major minor :: rest =>
      if version || major ≠ 1 || (minor ≠ 1 && minor ≠ 2) then .error .badDirective
      else readDirectives true handles rest
  | .tagDirective handle expansion :: rest =>
      if (handles.lookup handle).isSome then .error .badDirective
      else readDirectives version ((handle, expansion) :: handles) rest
  | rest => .ok (handles, rest)

/-- Ends the content of a document before it starts. -/
def isBoundary : Token → Bool
  | .versionDirective _ _ | .tagDirective _ _ | .documentStart | .documentEnd => true
  | _ => false

/-- Nothing but ends of documents is left. -/
def expectEnd (ts : List Token) : Except Error Unit :=
  if ts.all (· = .documentEnd) then .ok () else .error .severalDocuments

/-- Fuel that suffices to read the tokens. -/
def fuelFor (ts : List Token) : Nat := 4 * ts.length + 4

/-- The document whose content comes next, and which has to be the last. -/
def readRoot (handles : List (String × String)) (ts : List Token) : Except Error Document :=
  match readNode (fuelFor ts) .block { handles } ts with
  | .error e => .error e
  | .ok (root, ctx, rest) =>
      (expectEnd rest).map fun _ => ⟨some root, ctx.anchors, ctx.nodes⟩

def Document.ofTokens (ts : List Token) : Except Error Document :=
  match ts with
  | [] => .ok { root := none }
  | t :: _ =>
      if isBoundary t && t ≠ .documentEnd then
        match readDirectives false [] ts with
        | .error e => .error e
        | .ok (handles, .documentStart :: rest) =>
            if rest.head?.all isBoundary then
              (expectEnd rest).map fun _ => { root := some .empty }
            else readRoot (handles ++ defaultHandles) rest
        | .ok _ => .error .unexpectedToken
      else readRoot defaultHandles ts

def Document.parse (text : String) : Except Error Document := do
  Document.ofTokens (← tokenize text)

end ResourceAgent.Yaml
