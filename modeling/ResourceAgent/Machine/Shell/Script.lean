/-!
# Shell scripts

The part of the shell language that command lines on a machine are written in: simple commands
with redirections, lists, pipelines, groups and the common control structures. Functions, here
documents, background commands, command substitution and the matching of file names are left out.
-/
namespace ResourceAgent.Shell

/-- A part of a word. -/
inductive Part where
  | text (s : String)
  /-- The value of a variable or of a positional or special parameter. -/
  | parameter (name : String)
  /-- The value of an arithmetic expression. -/
  | sum (source : List Char)
deriving Repr, DecidableEq

/-- A part with the knowledge whether it is quoted; values that are not are split at blanks. -/
structure Segment where
  quoted : Bool
  part : Part
deriving Repr, DecidableEq

/-- A word before its expansion. -/
abbrev Word := List Segment

/-- The text of a word without anything quoted or expanded. -/
def Word.bare? : Word → Option String
  | [⟨false, .text s⟩] => some s
  | _ => none

/-- A redirection. -/
inductive Redirect where
  /-- What is written to one stream goes to another. -/
  | onto (stream other : Nat)
  /-- What is written to the stream goes to a file, and no more to the caller. -/
  | away (stream : Nat)
  /-- The input is a file. -/
  | input (file : Word)
deriving Repr, DecidableEq

/-- The redirection is one of the input. -/
def Redirect.isInput : Redirect → Bool
  | .input _ => true
  | _ => false

/-- A script. -/
inductive Script where
  | nothing
  | simple (words : List Word)
  | sequence (first second : Script)
  /-- The second only if the first succeeds. -/
  | both (first second : Script)
  /-- The second only if the first fails. -/
  | either (first second : Script)
  | pipe (first second : Script)
  | negate (body : Script)
  /-- The body as long as the condition succeeds. -/
  | loop (condition body : Script)
  | choose (condition yes no : Script)
  /-- The body for each of the words. -/
  | each (name : String) (words : List Word) (body : Script)
  /-- The body in a shell of its own. -/
  | isolated (body : Script)
  | redirected (body : Script) (redirects : List Redirect)
deriving Repr

end ResourceAgent.Shell
