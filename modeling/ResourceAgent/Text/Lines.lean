import ResourceAgent.Text.Blank

/-!
# Lines of a text

A line ends at a line feed. One carriage return right before the line feed belongs to the line
ending; any other carriage return is part of the line. A line feed at the very end opens no
further line.
-/
namespace ResourceAgent.Text

/-- A line without the carriage return of its ending. -/
def dropReturn (line : List Char) : List Char :=
  if line.getLast? = some '\r' then line.dropLast else line

/-- The lines of a text, in order, without their endings. -/
def lines (cs : List Char) : List (List Char) :=
  match cs with
  | [] => []
  | c :: r =>
      let line := (c :: r).takeWhile (· != '\n')
      match _eq : (c :: r).dropWhile (· != '\n') with
      | [] => [line]
      | _ :: rest => dropReturn line :: lines rest
termination_by cs.length
decreasing_by
  have h₁ := (List.dropWhile_suffix (l := c :: r) (· != '\n')).length_le
  rw [_eq] at h₁
  simp only [List.length_cons] at h₁ ⊢
  omega

end ResourceAgent.Text
