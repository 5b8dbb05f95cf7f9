import ResourceAgent.Outline.Error
import ResourceAgent.Outline.Line
import ResourceAgent.Outline.Tree

/-!
# Reading an outline

A line with a value is a leaf. A line without one opens a section; the line after it has to be
indented deeper, and its indentation is the depth of everything in the section. A shallower line
closes sections until it stands at the depth of one that is open; a line that is deeper than the
innermost open section without following an opening line is an error.

The open sections are kept in a list, innermost first, so that the reader is one recursion over
the lines. The first fault ends the reading; there is no partial tree.
-/
namespace ResourceAgent.Outline

/-- A section whose lines are still being read. -/
structure Frame where
  /-- The indentation of its lines. -/
  depth : Nat
  name : String
  entries : Tree
deriving Repr, DecidableEq

/-- The tree read so far: the open sections, innermost first, and the outermost tree. -/
structure Progress where
  frames : List Frame
  root : Tree
deriving Repr, DecidableEq

namespace Progress

def start : Progress := ⟨[], .nil⟩

/-- The indentation a line has to have here. -/
def depth (p : Progress) : Nat := (p.frames.head?.map Frame.depth).getD 0

/-- Bind a name in the innermost open tree. -/
def bind (name : String) (entry : Section) (p : Progress) : Progress :=
  match p.frames with
  | [] => ⟨[], p.root.insert name entry⟩
  | frame :: outer => ⟨⟨frame.depth, frame.name, frame.entries.insert name entry⟩ :: outer, p.root⟩

/-- Open a section whose lines have the given indentation. -/
def push (depth : Nat) (name : String) (p : Progress) : Progress :=
  ⟨⟨depth, name, .nil⟩ :: p.frames, p.root⟩

@[simp] theorem length_frames_bind (name : String) (entry : Section) (p : Progress) :
    (p.bind name entry).frames.length = p.frames.length := by
  unfold bind
  split <;> simp_all

/-- Close the sections that are deeper than the given indentation. -/
def closeAbove (indent : Nat) (p : Progress) : Progress :=
  match _eq : p.frames with
  | [] => p
  | frame :: outer =>
      if indent < frame.depth then
        closeAbove indent (bind frame.name (.branch "" frame.entries) ⟨outer, p.root⟩)
      else p
termination_by p.frames.length
decreasing_by simp [_eq]

def closeAll (p : Progress) : Tree :=
  match _eq : p.frames with
  | [] => p.root
  | frame :: outer => closeAll (bind frame.name (.branch "" frame.entries) ⟨outer, p.root⟩)
termination_by p.frames.length
decreasing_by simp [_eq]

end Progress

/-- Read the lines from the given progress on. -/
def readLines (p : Progress) : List Line → Except Error Tree
  | [] => .ok p.closeAll
  | line :: rest =>
      let p := p.closeAbove line.indent
      if p.depth < line.indent then .error (.inconsistent line.number p.depth line.indent)
      else
        match line.split with
        | none => .error (.malformedLine line.number)
        | some (name, value) =>
            if value ≠ "" then readLines (p.bind name (.leaf value)) rest
            else
              match rest with
              | [] => .error (.incompleteSection line.number name)
              | next :: _ =>
                  if next.indent ≤ p.depth then
                    .error (.inconsistent next.number (p.depth + 1) next.indent)
                  else readLines (p.push next.indent name) rest

def parse (text : String) : Except Error Tree :=
  match linesOf text with
  | [] => .error .emptyInput
  | lines => readLines .start lines

end ResourceAgent.Outline
