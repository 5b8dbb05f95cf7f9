import ResourceAgent.Proofs.Outline.Relayout

/-!
# One outline after another

If an outline is followed by a line feed and by more lines, of which the first is not indented, that
line closes whatever the outline left open. So the rest is read as if it stood alone, but further
down and over a tree that has bindings already: an entry of the rest replaces an earlier one of the
same name as a whole, and an error is reported as many lines later as the outline is long.

The outline leads the reader to its tree (`readLines_derived`). What comes after it is the rest in
another layout, with the same depths, so that `readLines_alike` applies: the bindings so far stay
below the new ones, and the numbers of the lines have grown (`readLines_moved_over`). The line feed
between the two may take a carriage return with it, which makes no difference to the outline
(`parse_append_newline`).
-/
namespace ResourceAgent.Outline

/-- The bindings of the second tree, and those of the first one whose names the second does not
bind. -/
def Tree.override (base : Tree) : Tree → Tree
  | .nil => base
  | .cons name entry rest => (base.override rest).insert name entry

namespace Tree

theorem get?_override (base tree : Tree) (name : String) :
    (base.override tree).get? name = (tree.get? name).or (base.get? name) := by
  induction tree using bindingsInduction with
  | nil => rfl
  | cons n e rest ih =>
      rw [override, get?_insert, ih, get?]
      split_ifs <;> rfl

variable {base : Tree}

theorem Ascending.override (h : base.Ascending) (tree : Tree) :
    (base.override tree).Ascending := by
  induction tree using bindingsInduction with
  | nil => exact h
  | cons n e rest ih => exact ih.insert n e

theorem override_insert (h : base.Ascending) (name : String) (entry : Section) (tree : Tree) :
    base.override (tree.insert name entry) = (base.override tree).insert name entry := by
  refine (h.override _).ext ((h.override tree).insert name entry) fun m => ?_
  rw [get?_override, get?_insert, get?_insert, get?_override]
  split_ifs <;> rfl

end Tree

/-- After a text that is an outline, a line that is not indented finds the reader at the tree of
the text with no section open. -/
theorem readLines_derived {text : String} {tree : Tree} (h : parse text = .ok tree)
    {rest : List Line} (hm : ∀ line ∈ rest, line.Measured)
    (hrest : ∀ line ∈ rest.head?, line.indent = 0) :
    readLines .start (linesOf text ++ rest) = readLines ⟨[], tree⟩ rest := by
  obtain ⟨items, hd, rfl⟩ := exists_derives_of_parse h
  have hls : (linesOf text).map Line.text = items.lines :=
    (map_text_linesOf text).trans hd.lines_eq.symm
  have hend : EndsBelow 1 (rest.map Line.text) := by
    intro text htext
    rw [List.head?_map] at htext
    obtain ⟨line, hline, rfl⟩ := Option.map_eq_some_iff.mp htext
    rw [← hm line (List.mem_of_mem_head? hline), hrest line hline]
    exact Nat.zero_lt_one
  rw [readLines_items (p := .start) hd.at_zero
    (List.forall_mem_append.mpr ⟨measured_linesOf text, hm⟩) hls hend, Progress.bindAll_start]
  rfl

theorem ascending_of_parse {text : String} {tree : Tree} (h : parse text = .ok tree) :
    tree.Ascending := by
  obtain ⟨items, -, rfl⟩ := exists_derives_of_parse h
  exact Tree.ascending_ofList _

/-- The first line of an outline is not indented. -/
theorem indent_head_of_parse {text : String} {tree : Tree} (h : parse text = .ok tree) :
    ∀ line ∈ (linesOf text).head?, line.indent = 0 := by
  intro line hline
  obtain ⟨rest, hls⟩ := List.head?_eq_some_iff.mp hline
  have hne : linesOf text ≠ [] := by simp [hls]
  rw [parse_eq_readLines hne, hls] at h
  exact (readLines_cons_eq_ok h (Nat.zero_le _)).1

/-- The same error so many lines later. -/
def Error.later (k : ℕ) : Error → Error
  | .emptyInput => .emptyInput
  | .malformedLine line => .malformedLine (line + k)
  | .incompleteSection line name => .incompleteSection (line + k) name
  | .inconsistent line expected found => .inconsistent (line + k) expected found

/-- The second line reads as the first one, so many lines later. -/
structure Moved (k : ℕ) (a b : Line) : Prop extends Corresponds id a b where
  number_eq : b.number = a.number + k

variable {k : ℕ}

theorem Error.Becomes.eq_later {pairs : List (Line × Line)} {e e' : Error}
    (h : e.Becomes id pairs e') (hk : ∀ {a b}, (a, b) ∈ pairs → b.number = a.number + k) :
    e' = e.later k := by
  cases h with
  | emptyInput => rfl
  | malformedLine hp => rw [later, hk hp]
  | incompleteSection name hp => rw [later, hk hp]
  | @inconsistent earlier a b after depth found hp _ =>
      have hab : (a, b) ∈ pairs := by simp [hp]
      rw [later, hk hab]
      rfl
  | @afterBranch earlier prev a b after depth found hp _ =>
      have hab : (a, b) ∈ pairs := by simp [hp]
      rw [later, hk hab]
      rfl

/-- Lines that stand further down are read to the same end, with the error as much later. -/
theorem readLines_moved {g : Tree → Tree} (hg : Layout id g) {ls ls' : List Line}
    (h : List.Forall₂ (Moved k) ls ls') (p : Progress) :
    readLines (p.taken id g) ls' = ((readLines p ls).mapError (Error.later k)).map g := by
  have hpairs : ∀ {a b}, (a, b) ∈ ls.zip ls' → b.number = a.number + k :=
    fun hab => ((List.forall₂_iff_zip.mp h).2 hab).number_eq
  have halike := readLines_alike hg p (h.imp fun _ _ hab => hab.toCorresponds)
  generalize readLines (p.taken id g) ls' = result' at halike ⊢
  cases hresult : readLines p ls with
  | ok tree =>
      rw [hresult] at halike
      cases halike
      rfl
  | error e =>
      rw [hresult] at halike
      cases halike with
      | error he =>
          rw [he.eq_later hpairs]
          rfl

theorem readLines_moved_over {base : Tree} (hbase : base.Ascending) {ls ls' : List Line}
    (h : List.Forall₂ (Moved k) ls ls') :
    readLines ⟨[], base⟩ ls' =
      ((readLines .start ls).mapError (Error.later k)).map base.override :=
  readLines_moved ⟨strictMono_id, rfl, Tree.override_insert hbase⟩ h .start

theorem parse_moved {text text' : String}
    (h : List.Forall₂ (Moved k) (linesOf text) (linesOf text')) :
    parse text' = (parse text).mapError (Error.later k) := by
  have hsame : Layout id id := ⟨strictMono_id, rfl, fun _ _ _ => rfl⟩
  have hread := readLines_moved hsame h .start
  rw [Except.map_id] at hread
  rw [parse, parse]
  generalize linesOf text = ls at h hread ⊢
  generalize linesOf text' = ls' at h hread ⊢
  cases h with
  | nil => rfl
  | cons hab hrest => exact hread

theorem dividedAlike_of_text_eq {a b : Line} (h : a.text = b.text) : DividedAlike a b := by
  have hn : a.name = b.name := by rw [Line.name, Line.name, h]
  have hv : a.value = b.value := by rw [Line.value, Line.value, h]
  by_cases hc : ':' ∈ a.text
  · exact .inr ⟨hc, h ▸ hc, .inr ⟨hn, hv⟩⟩
  · exact .inl ⟨hc, h ▸ hc⟩

theorem moved_numberLines (k first : ℕ) (texts : List (List Char)) :
    List.Forall₂ (Moved k) (numberLines first texts) (numberLines (first + k) texts) := by
  induction texts generalizing first with
  | nil => exact .nil
  | cons text texts ih =>
      have ih := ih (first + 1)
      rw [Nat.add_right_comm] at ih
      rw [numberLines, numberLines]
      split_ifs
      · exact ih
      · exact .cons ⟨⟨rfl, dividedAlike_of_text_eq rfl⟩, rfl⟩ ih

/-- A blank at the end of a line makes no difference to how it is divided. -/
theorem dividedAlike_of_text_eq_concat {a b : Line} {c : Char} (hc : Text.isBlank c = true)
    (h : a.text = b.text ++ [c]) : DividedAlike a b := by
  have hcolon : ':' ≠ c := by
    rintro rfl
    exact absurd hc (by decide)
  by_cases hm : ':' ∈ b.text
  · have hne := mt (Line.dropWhile_eq_nil_iff_colon_not_mem b.text).mp (not_not.mpr hm)
    have hlen : (b.text.takeWhile (· != ':')).length ≠ b.text.length := by
      intro he
      have hall := List.takeWhile_eq_self_iff.mp ((List.takeWhile_prefix _).eq_of_length he)
      exact hne (List.dropWhile_eq_nil_iff.mpr hall)
    have hn : a.name = b.name := by
      rw [Line.name, Line.name, h, List.takeWhile_append, if_neg hlen]
    have hv : a.value = b.value := by
      rw [Line.value, Line.value, h, List.dropWhile_append, List.isEmpty_eq_false_iff.mpr hne,
        if_neg Bool.false_ne_true, List.drop_append_of_le_length (List.length_pos_iff.mpr hne),
        Text.trim_concat_of_blank hc]
    exact .inr ⟨h ▸ List.mem_append_left _ hm, hm, .inr ⟨hn, hv⟩⟩
  · exact .inl ⟨by simp [h, hm, hcolon], hm⟩

/-- The carriage return of a line ending makes no difference when it is taken for a part of the
line. -/
theorem moved_dropReturn (first : ℕ) (line : List Char) :
    List.Forall₂ (Moved 0) (numberLines first [line])
      (numberLines first [Text.dropReturn line]) := by
  by_cases h : line.getLast? = some '\r'
  · obtain ⟨text, rfl⟩ := List.getLast?_eq_some_iff.mp h
    have hc : Text.isBlank '\r' = true := by decide
    rw [Text.dropReturn, if_pos h, List.dropLast_concat]
    simp only [numberLines, Text.trim_concat_of_blank hc]
    split_ifs with hb
    · exact .nil
    · have hindent := Text.indent_concat (mt Text.trim_eq_nil_iff.mpr (by simpa using hb)) '\r'
      exact .cons ⟨⟨hindent.symm, dividedAlike_of_text_eq_concat hc rfl⟩, rfl⟩ .nil
  · rw [Text.dropReturn, if_neg h]
    exact moved_numberLines 0 first [line]

theorem moved_append_newline (first : ℕ) (cs : List Char) :
    List.Forall₂ (Moved 0) (numberLines first (Text.lines cs))
      (numberLines first (Text.lines (cs ++ ['\n']))) := by
  induction cs using Text.newlineInduction generalizing first with
  | last line h =>
      rw [Text.lines_append_newline _ h, Text.lines_nil]
      by_cases hne : line = []
      · rw [hne, Text.lines_nil]
        exact .nil
      · rw [Text.lines_of_not_mem hne h]
        exact moved_dropReturn first line
  | more line rest h ih =>
      rw [List.append_assoc, List.cons_append, Text.lines_append_newline _ h,
        Text.lines_append_newline _ h, numberLines, numberLines]
      split_ifs
      · exact ih (first + 1)
      · exact .cons ⟨⟨rfl, dividedAlike_of_text_eq rfl⟩, rfl⟩ (ih (first + 1))

theorem parse_append_newline (text : String) : parse (text ++ "\n") = parse text := by
  have h : List.Forall₂ (Moved 0) (linesOf text) (linesOf (text ++ "\n")) := by
    rw [linesOf, linesOf, String.toList_append]
    exact moved_append_newline 1 text.toList
  rw [parse_moved h]
  cases parse text with
  | ok tree => rfl
  | error e => cases e <;> rfl

variable {text text' : String} {tree : Tree}

/-- After a text and a line feed the lines of another text are the same, further down. -/
theorem exists_linesOf_concatenation (text text' : String) :
    ∃ rest, linesOf (text ++ "\n" ++ text') = linesOf (text ++ "\n") ++ rest ∧
      List.Forall₂ (Moved (1 + text.toList.count '\n')) (linesOf text') rest ∧
      ∀ line ∈ rest, line.Measured := by
  refine ⟨_, ?_, moved_numberLines _ 1 _, measured_numberLines _ _⟩
  have hn : (text ++ "\n").toList = text.toList ++ ['\n'] := String.toList_append
  rw [linesOf, linesOf, String.toList_append, hn, List.append_assoc, List.singleton_append,
    Text.lines_append_newline_append, numberLines_append, Text.length_lines_append_newline,
    Nat.add_comm (List.count _ _)]

theorem parse_concatenation_of_linesOf_eq_nil (h : parse text = .ok tree)
    (hnil : linesOf text' = []) : parse (text ++ "\n" ++ text') = .ok tree := by
  obtain ⟨rest, hlines, hmoved, -⟩ := exists_linesOf_concatenation text text'
  rw [hnil, List.forall₂_nil_left_iff] at hmoved
  rw [← parse_append_newline, parse] at h
  rw [parse, hlines, hmoved, List.append_nil]
  exact h

/-- A text that starts without indentation is read after an outline as it is read alone, further
down and over the tree of the outline. -/
theorem parse_concatenation {line : Line} (h : parse text = .ok tree)
    (hhead : (linesOf text').head? = some line) (hindent : line.indent = 0) :
    parse (text ++ "\n" ++ text') =
      ((parse text').mapError (Error.later (1 + text.toList.count '\n'))).map tree.override := by
  obtain ⟨rest, hlines, hmoved, hm⟩ := exists_linesOf_concatenation text text'
  obtain ⟨tail, hls⟩ := List.head?_eq_some_iff.mp hhead
  have hne : linesOf text' ≠ [] := by simp [hls]
  have hmoved' := hmoved
  rw [hls] at hmoved'
  obtain ⟨first, tail', hab, -, hrest⟩ := List.forall₂_cons_left_iff.mp hmoved'
  have hfirst : ∀ first ∈ rest.head?, first.indent = 0 := by
    rw [hrest]
    rintro _ ⟨⟩
    exact hab.indent_eq.trans hindent
  calc parse (text ++ "\n" ++ text')
      = readLines .start (linesOf (text ++ "\n") ++ rest) := by
        rw [parse_eq_readLines (by simp [hlines, hrest]), hlines]
    _ = readLines ⟨[], tree⟩ rest :=
        readLines_derived ((parse_append_newline text).trans h) hm hfirst
    _ = ((parse text').mapError (Error.later (1 + text.toList.count '\n'))).map
          tree.override := by
        rw [readLines_moved_over (ascending_of_parse h) hmoved, parse_eq_readLines hne]

/-- An outline that is followed by another text: if the text is an outline too, its bindings replace
those of the same names; if it is blank, it makes no difference; and if it starts without
indentation but is no outline, its error is reported, so many lines further down. -/
theorem parse_after_outline (h : parse text = .ok tree) :
    (∀ tree', parse text' = .ok tree' →
      parse (text ++ "\n" ++ text') = .ok (tree.override tree') ∧
        ∀ name, (tree.override tree').get? name = (tree'.get? name).or (tree.get? name)) ∧
    ((∀ c ∈ text'.toList, Text.isBlank c = true) → parse (text ++ "\n" ++ text') = .ok tree) ∧
    ∀ line e, (linesOf text').head? = some line → line.indent = 0 → parse text' = .error e →
      parse (text ++ "\n" ++ text') = .error (e.later (1 + text.toList.count '\n')) := by
  refine ⟨fun tree' h' => ⟨?_, Tree.get?_override tree tree'⟩, fun hblank => ?_,
    fun line e hhead hindent he => ?_⟩
  · cases hhead : (linesOf text').head? with
    | none =>
        rw [parse, List.head?_eq_none_iff.mp hhead] at h'
        cases h'
    | some line =>
        rw [parse_concatenation h hhead (indent_head_of_parse h' line hhead), h']
        rfl
  · refine parse_concatenation_of_linesOf_eq_nil h (linesOf_eq_nil_iff.mpr fun line hl => ?_)
    rw [List.all_eq_true]
    exact fun c hc => hblank c (Text.subset_of_mem_lines hl hc)
  · rw [parse_concatenation h hhead hindent, he]
    rfl

/-- The outline ends with a section open. The text after it binds the name of this section anew, or
is blank, or has an error in its third line. -/
theorem parse_after_outline_open :
    let text := "a: 1\nb:\n  c: 2"
    let tree := Tree.ofList [("a", .leaf "1"), ("b", .branch "" (.ofList [("c", .leaf "2")]))]
    let tree' := Tree.ofList [("b", .branch "" (.ofList [("d", .leaf "3")]))]
    parse (text ++ "\n" ++ "b:\n\td: 3\n") = .ok (tree.override tree') ∧
      tree.override tree' =
        .ofList [("a", .leaf "1"), ("b", .branch "" (.ofList [("d", .leaf "3")]))] ∧
      parse (text ++ "\n" ++ " \r\n\t") = .ok tree ∧
      parse (text ++ "\n" ++ "b:\n  d: 3\n e: 4") = .error (.inconsistent 6 0 1) := by
  intro text tree tree'
  have h : parse text = .ok tree := by decide +kernel
  have hother : parse "b:\n\td: 3\n" = .ok tree' := by decide +kernel
  have herror : parse "b:\n  d: 3\n e: 4" = .error (.inconsistent 3 0 1) := by decide +kernel
  refine ⟨((parse_after_outline h).1 tree' hother).1, by decide +kernel,
    (parse_after_outline h).2.1 (List.all_eq_true.mp (by decide +kernel)), ?_⟩
  have hhead : (linesOf "b:\n  d: 3\n e: 4").head? = some ⟨1, 0, "b:".toList⟩ := by decide +kernel
  have hlater : Error.later (1 + text.toList.count '\n') (.inconsistent 3 0 1) =
      .inconsistent 6 0 1 := by decide +kernel
  rw [(parse_after_outline h).2.2 _ _ hhead rfl herror, hlater]

end ResourceAgent.Outline
