import Mathlib.Data.List.Pairwise
import ResourceAgent.Proofs.Outline.Hopeless

/-!
# Lines that bind a name

The first colon of a line divides it into a name and a value. A line that has a colon and a name
before it binds the name: it is a leaf if there is a value after the colon, else it opens a branch.
Any other line that is not blank is malformed.

The lines that the reader goes through are the lines of the text that are not blank, each with its
number among all lines, in the order of these numbers.
-/
namespace ResourceAgent.Outline

namespace Line

variable {line : Line} {n v : String}

/-- What stands before the first colon, trimmed. -/
def name (line : Line) : String := String.ofList (Text.trim (line.text.takeWhile (· != ':')))

/-- What stands after the first colon, trimmed. -/
def value (line : Line) : String :=
  String.ofList (Text.trim ((line.text.dropWhile (· != ':')).drop 1))

/-- The line has a colon, and a name before it. -/
structure Binds (line : Line) : Prop where
  colon_mem : ':' ∈ line.text
  name_ne : line.name ≠ ""

structure IsLeaf (line : Line) : Prop extends line.Binds where
  value_ne : line.value ≠ ""

structure IsBranch (line : Line) : Prop extends line.Binds where
  value_eq : line.value = ""

theorem dropWhile_eq_nil_iff_colon_not_mem (text : List Char) :
    text.dropWhile (· != ':') = [] ↔ ':' ∉ text := by
  rw [List.dropWhile_eq_nil_iff]
  constructor
  · intro h hm
    simpa using h ':' hm
  · intro h c hc
    exact bne_iff_ne.mpr fun he => h (he ▸ hc)

theorem ofList_eq_empty_iff {cs : List Char} : String.ofList cs = "" ↔ cs = [] := by
  constructor
  · intro h
    by_contra hne
    exact ofList_ne_empty hne h
  · rintro rfl
    rfl

theorem name_eq_empty_iff :
    line.name = "" ↔ ∀ c ∈ line.text.takeWhile (· != ':'), Text.isBlank c = true := by
  rw [name, ofList_eq_empty_iff, Text.trim_eq_nil_iff]

/-- Dividing a line gives its name and its value, if it binds a name. -/
theorem split_eq_some_iff :
    line.split = some (n, v) ↔ line.Binds ∧ line.name = n ∧ line.value = v := by
  have hcolon := dropWhile_eq_nil_iff_colon_not_mem line.text
  unfold split splitLine
  split
  · next hd =>
      have hn : ¬ line.Binds := fun h => hcolon.mp hd h.colon_mem
      simp [hn]
  · next c after hd =>
      have hm : ':' ∈ line.text := by
        by_contra h
        rw [hcolon.mpr h] at hd
        cases hd
      have hvalue : line.value = String.ofList (Text.trim after) := by
        rw [Line.value, hd]
        rfl
      dsimp only
      split
      · next he =>
          have hn : ¬ line.Binds := fun h => h.name_ne (ofList_eq_empty_iff.mpr (by simpa using he))
          simp [hn]
      · next he =>
          have hb : line.Binds :=
            ⟨hm, fun h => he (by simpa using ofList_eq_empty_iff.mp h)⟩
          simp only [Option.some.injEq, Prod.mk.injEq, hb, true_and, hvalue]
          rfl

theorem split_eq_none_iff : line.split = none ↔ ¬ line.Binds := by
  rw [← not_iff_not, not_not, ← ne_eq, Option.ne_none_iff_exists']
  constructor
  · rintro ⟨⟨n, v⟩, h⟩
    exact (split_eq_some_iff.mp h).1
  · intro h
    exact ⟨_, split_eq_some_iff.mpr ⟨h, rfl, rfl⟩⟩

theorem isLeaf_of_split (h : line.split = some (n, v)) (hv : v ≠ "") :
    line.IsLeaf := by
  obtain ⟨hb, -, rfl⟩ := split_eq_some_iff.mp h
  exact ⟨hb, hv⟩

theorem isBranch_of_split (h : line.split = some (n, "")) : line.IsBranch := by
  obtain ⟨hb, -, hv⟩ := split_eq_some_iff.mp h
  exact ⟨hb, hv⟩

theorem IsLeaf.not_isBranch (h : line.IsLeaf) : ¬ line.IsBranch :=
  fun hb => h.value_ne hb.value_eq

end Line

/-- The line stands in the text under its number, which counts from one and counts blank lines
too, and is not blank itself. -/
structure Line.StandsIn (line : Line) (text : String) : Prop where
  number_pos : 0 < line.number
  getElem?_eq : (textLines text)[line.number - 1]? = some line.text
  not_blank : line.text.all Text.isBlank = false
  measured : line.Measured

theorem mem_numberLines_iff {line : Line} {first : ℕ} {texts : List (List Char)} :
    line ∈ numberLines first texts ↔
      first ≤ line.number ∧ texts[line.number - first]? = some line.text ∧
        line.text.all Text.isBlank = false ∧ line.Measured := by
  induction texts generalizing first with
  | nil => simp [numberLines]
  | cons text texts ih =>
      have hlater : line ∈ numberLines (first + 1) texts ↔ first < line.number ∧
          (text :: texts)[line.number - first]? = some line.text ∧
          line.text.all Text.isBlank = false ∧ line.Measured := by
        rw [ih]
        refine and_congr_right fun hlt => ?_
        rw [show line.number - first = line.number - (first + 1) + 1 by omega,
          List.getElem?_cons_succ]
      rw [numberLines, isEmpty_trim]
      split_ifs with hb
      · rw [hlater]
        constructor
        · rintro ⟨hlt, h⟩
          exact ⟨hlt.le, h⟩
        · rintro ⟨hle, hget, hnot, hm⟩
          refine ⟨lt_of_le_of_ne hle ?_, hget, hnot, hm⟩
          rintro rfl
          rw [Nat.sub_self, List.getElem?_cons_zero, Option.some.injEq] at hget
          rw [← hget, hb] at hnot
          cases hnot
      · rw [List.mem_cons, hlater]
        constructor
        · rintro (rfl | ⟨hlt, h⟩)
          · exact ⟨le_rfl, by simp, by simpa using hb, rfl⟩
          · exact ⟨hlt.le, h⟩
        · rintro ⟨hle, hget, hnot, hm⟩
          rcases hle.lt_or_eq with hlt | heq
          · exact .inr ⟨hlt, hget, hnot, hm⟩
          · left
            subst heq
            rw [Nat.sub_self, List.getElem?_cons_zero, Option.some.injEq] at hget
            obtain ⟨number, indent, lineText⟩ := line
            have hm' : indent = Text.indent lineText := hm
            simp only at hget hm' ⊢
            rw [hm', hget]

/-- Each line comes before those with a greater number. -/
def InOrder (ls : List Line) : Prop := ls.Pairwise (·.number < ·.number)

theorem inOrder_numberLines (first : ℕ) (texts : List (List Char)) :
    InOrder (numberLines first texts) := by
  induction texts generalizing first with
  | nil => exact List.Pairwise.nil
  | cons text texts ih =>
      rw [numberLines]
      split_ifs
      · exact ih (first + 1)
      · exact List.pairwise_cons.mpr ⟨fun line hl => (mem_numberLines_iff.mp hl).1, ih (first + 1)⟩

/-- These are the lines that stand in the text, in order. -/
structure LinesIn (text : String) (ls : List Line) : Prop where
  inOrder : InOrder ls
  mem_iff : ∀ line, line ∈ ls ↔ line.StandsIn text

theorem inOrder_linesOf (text : String) : InOrder (linesOf text) := inOrder_numberLines 1 _

theorem linesIn_linesOf (text : String) : LinesIn text (linesOf text) where
  inOrder := inOrder_linesOf text
  mem_iff line := by
    rw [linesOf, mem_numberLines_iff]
    exact ⟨fun h => ⟨h.1, h.2.1, h.2.2.1, h.2.2.2⟩, fun h => ⟨h.1, h.2, h.3, h.4⟩⟩

theorem linesOf_eq_nil_iff {text : String} :
    linesOf text = [] ↔ ∀ line ∈ textLines text, line.all Text.isBlank = true := by
  rw [← List.map_eq_nil_iff (f := Line.text), map_text_linesOf, writtenLines,
    List.filter_eq_nil_iff]
  simp [textLines]

end ResourceAgent.Outline
