/-!
# Why an outline cannot be read

Line numbers count from one and count blank lines too.
-/
namespace ResourceAgent.Outline

/-- The first fault of a text that is not an outline. -/
inductive Error where
  /-- Every line is blank. -/
  | emptyInput
  /-- No colon, or nothing but blanks before the first one. -/
  | malformedLine (line : Nat)
  /-- The last line opens a section that has nothing in it. -/
  | incompleteSection (line : Nat) (name : String)
  /-- The line is not indented the way the lines before it ask for. -/
  | inconsistent (line expected found : Nat)
deriving Repr, DecidableEq

def Error.line : Error → Option Nat
  | .emptyInput => none
  | .malformedLine line => some line
  | .incompleteSection line _ => some line
  | .inconsistent line _ _ => some line

def Error.message : Error → String
  | .emptyInput => "no lines to parse"
  | .malformedLine line => "line " ++ toString line ++ ": expected `name:` or `name:value`"
  | .incompleteSection line name =>
      "line " ++ toString line ++ ": section `" ++ name ++ "` has no nested lines"
  | .inconsistent line expected found =>
      "line " ++ toString line ++ ": indentation " ++ toString found ++
        " is inconsistent with expected depth " ++ toString expected

end ResourceAgent.Outline
