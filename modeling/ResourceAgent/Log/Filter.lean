import ResourceAgent.Log.Entry
import ResourceAgent.Text.Blank
import ResourceAgent.Text.Numeral

/-!
# Which entries are shown

A filter is a list of directives separated by commas. A directive names a level, a target, or both
as `target=level`; a target stands for every target that starts with it, and the directive with
the longest target decides. A directive may also name a scope between brackets, with fields
between braces, as in `[operation{resource=vip}]=debug`: it shows entries up to its level while such
a scope lasts.

A scope is itself subject to the filter. Where it is not shown, entries within it are shown as if
they stood outside.
-/
namespace ResourceAgent.Log

/-- The least grave level that passes; with none nothing passes. -/
abbrev Threshold := Option Level

/-- The place of a threshold in the order; the higher lets more pass. -/
def thresholdRank (t : Threshold) : Nat := (t.map Level.rank).getD 0

/-- The level passes. -/
def passes (t : Threshold) (level : Level) : Bool := level.rank ≤ thresholdRank t

def wider (a b : Threshold) : Threshold := if thresholdRank a < thresholdRank b then b else a

def widest (ts : List Threshold) : Threshold := ts.foldl wider none

/-- What a field of a scope has to be: present, or present with a value. -/
structure FieldTest where
  name : String
  value : Option String := none
deriving Repr, DecidableEq

structure Directive where
  threshold : Threshold := some .trace
  target : Option String := none
  scope : Option String := none
  fields : List FieldTest := []
deriving Repr, DecidableEq

def lowerCase (cs : List Char) : String := String.ofList (cs.map Char.toLower)

/-- The thresholds by their numbers. -/
def numberedThresholds : List Threshold :=
  [none, some .error, some .warn, some .info, some .debug, some .trace]

/-- A threshold by its name, in letters of any case, or by its number. -/
def readThreshold (cs : List Char) : Option Threshold :=
  match Text.readWord cs with
  | some n => numberedThresholds[n.toNat]?
  | none =>
      match lowerCase cs with
      | "error" => some (some .error)
      | "warn" => some (some .warn)
      | "info" => some (some .info)
      | "debug" => some (some .debug)
      | "trace" => some (some .trace)
      | "off" => some none
      | _ => none

/-- A threshold after an equals sign; nothing stands for everything. -/
def readGivenThreshold (cs : List Char) : Option Threshold :=
  if cs.isEmpty then some (some .trace) else readThreshold cs

/-- A directive without a scope is a level, or else a target. -/
def levelOrTarget (cs : List Char) : Directive :=
  match readThreshold cs with
  | some threshold => { threshold }
  | none => { target := some (String.ofList cs) }

/-- The test of a field: a name, or a name and a value. -/
def readFieldTest (cs : List Char) : FieldTest :=
  let name := String.ofList (cs.takeWhile (· ≠ '='))
  match cs.dropWhile (· ≠ '=') with
  | [] => { name }
  | _ :: value => { name, value := some (String.ofList (value.takeWhile (· ≠ '='))) }

/-- What may follow a scope: nothing, or an equals sign and a level. -/
def readAfterScope (d : Directive) : List Char → Option Directive
  | [] => some d
  | '=' :: rest => (readGivenThreshold rest).map fun threshold => { d with threshold }
  | _ => none

/-- The fields of a scope, after the opening brace. -/
def readFields (d : Directive) (cs : List Char) : Option Directive :=
  let test := cs.takeWhile (· ≠ '\x7d')
  match cs.dropWhile (· ≠ '\x7d') with
  | '\x7d' :: ']' :: rest =>
      if test.isEmpty then none
      else readAfterScope { d with fields := [readFieldTest test] } rest
  | _ => none

/-- A scope, after the opening bracket. -/
def readScope (d : Directive) (cs : List Char) : Option Directive :=
  let isEnd := fun c => c = ']' || c = '\x7b'
  let name := cs.takeWhile (!isEnd ·)
  match cs.dropWhile (!isEnd ·) with
  | ']' :: rest => readAfterScope { d with scope := some (String.ofList name) } rest
  | '\x7b' :: rest =>
      readFields { d with scope := if name.isEmpty then none else some (String.ofList name) } rest
  | _ => none

/-- May start a target. -/
def startsTarget (c : Char) : Bool := c.isAlphanum || c = '-' || c = ':' || c = '_'

/-- One directive. Blanks around it are passed over to see what it is, but they do not shift where
its parts are cut, and so end up in them. -/
def readDirective (cs : List Char) : Option Directive :=
  match Text.trim cs with
  | [] => none
  | '[' :: _ => readScope { } (cs.drop 1)
  | c :: rest =>
      if !startsTarget c then none
      else
        let isEnd := fun c => c = '=' || c = '['
        let size := ((c :: rest).takeWhile (!isEnd ·)).length
        let target := String.ofList (cs.take size)
        match (c :: rest).drop size with
        | [] => some (levelOrTarget cs)
        | '=' :: _ =>
            (readGivenThreshold (cs.drop (size + 1))).map fun threshold =>
              { threshold, target := some target }
        | _ :: _ => readScope { target := some target } (cs.drop (size + 1))

/-- The parts of a text between commas. -/
def commaParts : List Char → List (List Char)
  | [] => [[]]
  | c :: rest =>
      if c = ',' then [] :: commaParts rest
      else
        match commaParts rest with
        | [] => [[c]]
        | part :: parts => (c :: part) :: parts

abbrev Filter := List Directive

/-- The filter that lets everything up to a level pass. -/
def Filter.ofLevel (level : Level) : Filter := [{ threshold := some level }]

/-- The filter that a text describes; empty parts say nothing. -/
def Filter.parse (text : String) : Option Filter :=
  ((commaParts text.toList).filter (!·.isEmpty)).mapM readDirective

def scopeName : String := "operation"

namespace Scope

def fields (s : Scope) : List (String × String) := [("name", s.operation), ("resource", s.resource)]

end Scope

namespace Directive

/-- The directive is about scopes. -/
def isScoped (d : Directive) : Bool := d.scope.isSome || !d.fields.isEmpty

/-- The directive decides without looking at scopes. -/
def isStatic (d : Directive) : Bool := d.scope.isNone && d.fields.all (·.value.isNone)

def covers (d : Directive) (target : String) : Bool :=
  d.target.all fun t => t.toList.isPrefixOf target.toList

/-- How specific the directive is: by its target first, then by its fields. -/
def specificity (d : Directive) : Nat × Nat :=
  ((d.target.map fun t => t.length + 1).getD 0, d.fields.length)

/-- The other directive is not more specific. -/
def overrides (d other : Directive) : Bool :=
  other.specificity.1 < d.specificity.1 ||
    other.specificity.1 == d.specificity.1 && other.specificity.2 ≤ d.specificity.2

/-- The directive is about scopes of operations that the origin opens. -/
def opens (d : Directive) (s : Scope) : Bool :=
  d.isScoped && d.covers Origin.operation.target && d.scope.all (· == scopeName) &&
    d.fields.all fun test => s.fields.any (·.1 == test.name)

/-- The fields of the scope have the values that the directive asks for. -/
def accepts (d : Directive) (s : Scope) : Bool :=
  d.fields.all fun test =>
    test.value.all fun value => s.fields.any fun field => field == (test.name, value)

end Directive

/-- The most specific directive, the later of equals. -/
def decisive (ds : List Directive) : Option Directive :=
  ds.foldl (fun best d => if best.all d.overrides then some d else best) none

namespace Filter

/-- The directives that decide without looking at scopes. -/
def statics (f : Filter) : List Directive :=
  f.filter (fun d => !d.isScoped) ++ f.filter (fun d => d.isScoped && d.isStatic)

def aboutScopes (f : Filter) : List Directive := f.filter Directive.isScoped

/-- No level beyond this one is ever shown. -/
def ceiling (f : Filter) : Threshold :=
  if f.aboutScopes.any fun d => d.fields.any (·.value.isSome) then some .trace
  else widest ((f.statics ++ f.aboutScopes).map Directive.threshold)

/-- The threshold for entries of a target outside scopes. -/
def entryThreshold (f : Filter) (target : String) : Threshold :=
  ((decisive <| f.statics.filter fun d => d.covers target && d.fields.all (·.name == "message")).map
    Directive.threshold).getD none

/-- The threshold for scopes of operations, when no directive is about them. -/
def scopeThreshold (f : Filter) : Threshold :=
  ((decisive <| f.statics.filter fun d => d.covers Origin.operation.target).map
    Directive.threshold).getD none

def showsScope (f : Filter) (s : Scope) : Bool :=
  passes f.ceiling .info && (f.aboutScopes.any (·.opens s) || passes f.scopeThreshold .info)

/-- The threshold that the scope brings along. -/
def inScope (f : Filter) (s : Scope) : Threshold :=
  if f.showsScope s then
    widest ((f.aboutScopes.filter fun d => d.opens s && d.accepts s).map Directive.threshold)
  else none

def shows (f : Filter) (e : Entry) : Bool :=
  passes f.ceiling e.level &&
    (passes (f.entryThreshold e.origin.target) e.level ||
      e.scope.any fun s => passes (f.inScope s) e.level)

/-- The entries that are shown, each within its scope if that is shown. -/
def apply (f : Filter) (log : List Entry) : List Entry :=
  (log.filter f.shows).map fun e => { e with scope := e.scope.filter f.showsScope }

end Filter

end ResourceAgent.Log
