import ResourceAgent.Text.Search

/-!
# References to the environment

A parameter file may refer to variables of the environment: `$`, an opening brace, a name, and a
closing brace. The name is everything up to the first closing brace, and not empty. Every
reference is replaced by the value as it is; the result is not searched again.
-/
namespace ResourceAgent.Params

/-- The variables that are defined. -/
abbrev Environment := String → Option String

def Environment.empty : Environment := fun _ => none

/-- The environment of a list of definitions; the last one of a name counts. -/
def Environment.ofList (vars : List (String × String)) : Environment := fun name =>
  (vars.reverse.find? (·.1 == name)).map Prod.snd

/-- A piece of text with references: a character of its own, or a reference. -/
inductive Piece where
  | char (c : Char)
  | reference (name : String)
deriving Repr, DecidableEq

/-- The name of the reference that a text starts with right after its `$`, and the text after it. -/
def referenceAt? : List Char → Option (List Char × List Char)
  | '\x7b' :: rest =>
      let name := rest.takeWhile (· ≠ '\x7d')
      match rest.dropWhile (· ≠ '\x7d') with
      | [] => none
      | _ :: after => if name.isEmpty then none else some (name, after)
  | _ => none

theorem referenceAt?_shorter {cs name rest : List Char} (h : referenceAt? cs = some (name, rest)) :
    rest.length < cs.length := by
  unfold referenceAt? at h
  split at h
  next r =>
    have hs := (List.dropWhile_suffix (l := r) (· ≠ '\x7d')).length_le
    split at h
    · simp at h
    next after he =>
      dsimp only at h
      split at h
      · simp at h
      · simp only [Option.some.injEq, Prod.mk.injEq] at h
        rw [he] at hs
        simp only [List.length_cons] at hs ⊢
        rw [← h.2]
        omega
  · simp at h

def pieces (cs : List Char) : List Piece :=
  match cs with
  | [] => []
  | c :: r =>
      if c = '$' then
        match _eq : referenceAt? r with
        | some (name, rest) => .reference (String.ofList name) :: pieces rest
        | none => .char c :: pieces r
      else .char c :: pieces r
termination_by cs.length
decreasing_by
  · have := referenceAt?_shorter _eq
    simp only [List.length_cons]
    omega
  · simp
  · simp

/-- The names that the pieces refer to, in order. -/
def referenced : List Piece → List String
  | [] => []
  | .char _ :: rest => referenced rest
  | .reference name :: rest => name :: referenced rest

/-- Each text once, where it stands first. -/
def firsts : List String → List String
  | [] => []
  | s :: rest => s :: (firsts rest).filter (· ≠ s)

/-- What one piece stands for. -/
def Piece.value (env : Environment) : Piece → List Char
  | .char c => [c]
  | .reference name => ((env name).getD "").toList

/-- Replace the references of a text, or tell the names that are not defined. -/
def expand (env : Environment) (text : String) : Except (List String) String :=
  let ps := pieces text.toList
  match firsts ((referenced ps).filter fun name => (env name).isNone) with
  | [] => .ok (String.ofList (ps.flatMap (Piece.value env)))
  | undefined => .error undefined

end ResourceAgent.Params
