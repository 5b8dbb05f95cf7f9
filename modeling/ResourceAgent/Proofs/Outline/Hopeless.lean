import ResourceAgent.Proofs.Outline.Descent
import ResourceAgent.Proofs.Outline.RoundTrip

/-!
# The first hopeless line

Reading goes from line to line, so either the lines can be gone on with, or there is one line at
which the reader stops whatever comes after it, and the lines before it can be gone on with. This
is `proceeds_or_stops`, by induction on the lines. On texts it says that a malformed or wrongly
indented line is reported exactly where the last hope of an outline is lost, and that the two other
errors mean that more lines would have helped.

Lines to go on with may have to be added also where reading succeeded: a text without lines is no
outline.
-/
namespace ResourceAgent.Text

/-- A text with the given lines. A carriage return before each line feed keeps the one that a line
may end with. -/
def ofLines (ls : List (List Char)) : String :=
  String.ofList (ls.flatMap fun line => line ++ ['\r', '\n'])

theorem lines_ofLines {ls : List (List Char)} (h : ∀ line ∈ ls, '\n' ∉ line) :
    lines (ofLines ls).toList = ls := by
  rw [ofLines, String.toList_ofList]
  induction ls with
  | nil => rw [List.flatMap_nil, lines]
  | cons line ls ih =>
      obtain ⟨hline, hls⟩ := List.forall_mem_cons.mp h
      have hreturn : '\n' ∉ line ++ ['\r'] := by
        simpa [List.mem_append] using hline
      have hsplit : (line :: ls).flatMap (fun line => line ++ ['\r', '\n']) =
          (line ++ ['\r']) ++ '\n' :: ls.flatMap fun line => line ++ ['\r', '\n'] := by
        simp
      rw [hsplit, lines_append_newline _ hreturn, ih hls]
      simp [dropReturn]

end ResourceAgent.Text

namespace ResourceAgent.Outline

/-- The error is that the line of this number is malformed or wrongly indented. -/
def Error.StopsAt (n : ℕ) : Error → Prop
  | .malformedLine line => line = n
  | .inconsistent line _ _ => line = n
  | .emptyInput => False
  | .incompleteSection _ _ => False

theorem Error.StopsAt.unique {e : Error} {m n : ℕ} (hm : e.StopsAt m) (hn : e.StopsAt n) :
    m = n := by
  cases e with
  | emptyInput => exact hm.elim
  | malformedLine line => exact Eq.trans (Eq.symm hm) hn
  | incompleteSection line name => exact hm.elim
  | inconsistent line expected found => exact Eq.trans (Eq.symm hm) hn

theorem Progress.depth_closeAbove_le (p : Progress) (indent : ℕ) :
    (p.closeAbove indent).depth ≤ indent := by
  fun_induction p.closeAbove indent with
  | case1 p hf => simp [depth, hf]
  | case2 p frame outer hf hlt ih => exact ih
  | case3 p frame outer hf hlt =>
      have hd : p.depth = frame.depth := by simp [depth, hf]
      omega

/-- What a line closes may be closed before it is read. -/
theorem readLines_closeAbove (p : Progress) (line : Line) (rest : List Line) :
    readLines p (line :: rest) = readLines (p.closeAbove line.indent) (line :: rest) := by
  have hd := p.depth_closeAbove_le line.indent
  rw [readLines, readLines, Progress.closeAbove_of_depth_le hd]

/-- A leaf line after the lines completes them, if it is indented as they ask for, and no line of
theirs stops the reader. -/
structure Proceeds (p : Progress) (ls : List Line) : Prop where
  completed : ∃ depth, ∀ line name value, line.indent = depth →
    line.split = some (name, value) → value ≠ "" → ∃ tree, readLines p (ls ++ [line]) = .ok tree
  unstopped : ∀ e n, readLines p ls = .error e → ¬ e.StopsAt n

/-- The reader stops at one of the lines, which may be gone on with up to there. -/
def Stops (p : Progress) (ls : List Line) : Prop :=
  ∃ before line after e, ls = before ++ line :: after ∧ Proceeds p before ∧
    e.StopsAt line.number ∧ ∀ more, readLines p (before ++ line :: more) = .error e

variable {p q : Progress} {line next : Line} {ls : List Line}

theorem proceeds_nil (p : Progress) : Proceeds p [] := by
  constructor
  · refine ⟨p.depth, ?_⟩
    intro line name value hd hs hv
    have hread := readLines_leaf hd hs hv []
    rw [readLines] at hread
    exact ⟨_, hread⟩
  · intro e n h
    rw [readLines] at h
    cases h

/-- A branch line is completed by one line that is deeper. -/
theorem proceeds_branch {name : String} (hd : line.indent = p.depth)
    (hs : line.split = some (name, "")) : Proceeds p [line] := by
  constructor
  · refine ⟨p.depth + 1, ?_⟩
    intro last lastName value hlast hsplit hv
    have hdeeper : p.depth < last.indent := by omega
    have hbranch := readLines_branch hd hs hdeeper []
    have hleaf := readLines_leaf (p := p.push last.indent name) rfl hsplit hv []
    rw [readLines] at hleaf
    exact ⟨_, hbranch.trans hleaf⟩
  · intro e n h
    rw [readLines_incomplete hd hs] at h
    cases h
    exact id

/-- Lines that are read alike, with whatever comes after them, can alike be gone on with. -/
theorem Proceeds.congr {ls' : List Line} (h : Proceeds q ls')
    (hread : ∀ more, readLines p (ls ++ more) = readLines q (ls' ++ more)) : Proceeds p ls := by
  obtain ⟨⟨depth, hdepth⟩, hun⟩ := h
  constructor
  · refine ⟨depth, ?_⟩
    intro last name value hd hs hv
    obtain ⟨tree, htree⟩ := hdepth last name value hd hs hv
    exact ⟨tree, (hread [last]).trans htree⟩
  · intro e n he
    have hnil := hread []
    rw [List.append_nil, List.append_nil] at hnil
    exact hun e n (hnil.symm.trans he)

theorem Stops.cons (h : Stops q (next :: ls)) (hline : Proceeds p [line])
    (hread : ∀ more, readLines p (line :: next :: more) = readLines q (next :: more)) :
    Stops p (line :: next :: ls) := by
  obtain ⟨before, last, after, e, hls, hbefore, he, hmore⟩ := h
  cases before with
  | nil =>
      obtain ⟨rfl, rfl⟩ := List.cons.inj hls
      exact ⟨[line], next, ls, e, rfl, hline, he, fun more => (hread more).trans (hmore more)⟩
  | cons first before =>
      obtain ⟨rfl, rfl⟩ := List.cons.inj hls
      refine ⟨line :: next :: before, last, after, e, rfl, ?_, he, ?_⟩
      · exact hbefore.congr fun more => hread (before ++ more)
      · exact fun more => (hread _).trans (hmore more)

theorem stops_head {e : Error} (he : e.StopsAt line.number)
    (hread : ∀ more, readLines p (line :: more) = .error e) : Stops p (line :: ls) :=
  ⟨[], line, ls, e, rfl, proceeds_nil p, he, hread⟩

/-- The lines may be read from another progress that is as good for their first line. -/
theorem proceeds_or_stops_of_readLines
    (hread : ∀ more, readLines p (line :: more) = readLines q (line :: more))
    (h : Proceeds q (line :: ls) ∨ Stops q (line :: ls)) :
    Proceeds p (line :: ls) ∨ Stops p (line :: ls) := by
  rcases h with h | ⟨before, last, after, e, hls, hbefore, he, hmore⟩
  · exact .inl (h.congr fun more => hread (ls ++ more))
  · right
    cases before with
    | nil =>
        obtain ⟨rfl, rfl⟩ := List.cons.inj hls
        exact stops_head he fun more => (hread more).trans (hmore more)
    | cons first before =>
        obtain ⟨rfl, rfl⟩ := List.cons.inj hls
        have hbefore' : Proceeds p (line :: before) :=
          hbefore.congr fun more => hread (before ++ more)
        exact ⟨line :: before, last, after, e, rfl, hbefore', he,
          fun more => (hread _).trans (hmore more)⟩

/-- Either the lines can be gone on with, or the reader stops at one of them. The induction is on
the lines; a line that closes sections is read as if they had been closed before it. -/
theorem proceeds_or_stops (p : Progress) (ls : List Line) : Proceeds p ls ∨ Stops p ls := by
  induction ls generalizing p with
  | nil => exact .inl (proceeds_nil p)
  | cons line rest ih =>
      refine proceeds_or_stops_of_readLines (readLines_closeAbove p line) ?_
      have hle := p.depth_closeAbove_le line.indent
      generalize p.closeAbove line.indent = q at hle ⊢
      rcases hle.lt_or_eq with hlt | heq
      · exact .inr (stops_head (e := .inconsistent ..) rfl (readLines_deeper hlt))
      · have hd : line.indent = q.depth := heq.symm
        rcases hs : line.split with _ | ⟨name, value⟩
        · exact .inr (stops_head (e := .malformedLine _) rfl (readLines_malformed hd hs))
        · by_cases hv : value = ""
          · subst hv
            have hline : Proceeds q [line] := proceeds_branch hd hs
            rcases rest with _ | ⟨next, tail⟩
            · exact .inl hline
            · by_cases hn : q.depth < next.indent
              · have hread := readLines_branch hd hs hn
                rcases ih (q.push next.indent name) with h | h
                · exact .inl (h.congr fun more => hread (tail ++ more))
                · exact .inr (h.cons hline hread)
              · have hread := readLines_childless hd hs (Nat.not_lt.mp hn)
                exact .inr ⟨[line], next, tail, .inconsistent .., rfl, hline, rfl, hread⟩
          · have hread := readLines_leaf hd hs hv
            have hline : Proceeds q [line] := (proceeds_nil _).congr hread
            rcases ih (q.bind name (.leaf value)) with h | h
            · exact .inl (h.congr fun more => hread (rest ++ more))
            · rcases rest with _ | ⟨next, tail⟩
              · exact .inl hline
              · exact .inr (h.cons hline fun more => hread (next :: more))

theorem numberLines_append (first : ℕ) (texts texts' : List (List Char)) :
    numberLines first (texts ++ texts') =
      numberLines first texts ++ numberLines (first + texts.length) texts' := by
  induction texts generalizing first with
  | nil => rfl
  | cons text texts ih =>
      have hlen : first + (text :: texts).length = first + 1 + texts.length := by
        rw [List.length_cons]
        omega
      rw [List.cons_append, numberLines, numberLines, ih, hlen]
      split_ifs <;> rfl

/-- A numbered line tells by its number where in the text it stands. -/
theorem exists_of_numberLines_eq {first : ℕ} {texts : List (List Char)} {before after : List Line}
    (h : numberLines first texts = before ++ line :: after) :
    ∃ earlier text later, texts = earlier ++ text :: later ∧
      numberLines first earlier = before ∧ line.number = first + earlier.length ∧
      numberLines line.number [text] = [line] := by
  induction texts generalizing first before with
  | nil =>
      rw [numberLines] at h
      simp at h
  | cons text texts ih =>
      rw [numberLines] at h
      split_ifs at h with hblank
      · obtain ⟨earlier, found, later, rfl, hearlier, hnumber, hline⟩ := ih h
        refine ⟨text :: earlier, found, later, rfl, ?_, ?_, hline⟩
        · rw [numberLines, if_pos hblank, hearlier]
        · rw [List.length_cons]
          omega
      · cases before with
        | nil =>
            obtain ⟨rfl, rfl⟩ := List.cons.inj h
            refine ⟨[], text, texts, rfl, rfl, rfl, ?_⟩
            rw [numberLines, if_neg hblank]
            rfl
        | cons head before =>
            obtain ⟨rfl, hrest⟩ := List.cons.inj h
            obtain ⟨earlier, found, later, rfl, hearlier, hnumber, hline⟩ := ih hrest
            refine ⟨text :: earlier, found, later, rfl, ?_, ?_, hline⟩
            · rw [numberLines, if_neg hblank, hearlier]
            · rw [List.length_cons]
              omega

def textLines (text : String) : List (List Char) := Text.lines text.toList

/-- The lines can be gone on with so that the whole is an outline. -/
def Extendable (ls : List (List Char)) : Prop :=
  ∃ more text tree, textLines text = ls ++ more ∧ parse text = .ok tree

theorem Extendable.of_prefix {ls ls' : List (List Char)} (h : Extendable ls') (hp : ls <+: ls') :
    Extendable ls := by
  obtain ⟨more, text, tree, hl, ht⟩ := h
  obtain ⟨between, rfl⟩ := hp
  exact ⟨between ++ more, text, tree, hl.trans (List.append_assoc ..), ht⟩

theorem parse_eq_readLines {text : String} (h : linesOf text ≠ []) :
    parse text = readLines .start (linesOf text) := by
  rw [parse]
  split
  · contradiction
  · rfl

/-- A leaf line of any indentation. -/
def leafLine (depth : ℕ) : List Char :=
  List.replicate depth ' ' ++ ("a".toList ++ ':' :: "b".toList)

theorem reads_leafLine (depth : ℕ) : Reads depth (leafLine depth) "a" "b" :=
  (margin_replicate depth).reads
    ⟨by decide, by decide, by decide, by decide⟩ (by decide)

theorem newline_not_mem_leafLine (depth : ℕ) : '\n' ∉ leafLine depth := by
  intro h
  rcases List.mem_append.mp h with h | h
  · exact (margin_replicate depth).newline_not_mem h
  · revert h
    decide

theorem numberLines_leafLine (number depth : ℕ) :
    numberLines number [leafLine depth] = [⟨number, depth, leafLine depth⟩] := by
  have hr := reads_leafLine depth
  have hne : (Text.trim (leafLine depth)).isEmpty = false := by
    rw [isEmpty_trim]
    simp [leafLine, show Text.isBlank ':' = false by decide]
  rw [numberLines, hne, hr.indent_eq]
  rfl

/-- Lines that the reader can go on with can be completed by one leaf line. -/
theorem Proceeds.extendable {texts : List (List Char)} (h : Proceeds .start (numberLines 1 texts))
    (hn : ∀ line ∈ texts, '\n' ∉ line) : Extendable texts := by
  obtain ⟨depth, hdepth⟩ := h.completed
  have hall : ∀ line ∈ texts ++ [leafLine depth], '\n' ∉ line := by
    rw [List.forall_mem_append]
    exact ⟨hn, List.forall_mem_singleton.mpr (newline_not_mem_leafLine depth)⟩
  have hlines : textLines (Text.ofLines (texts ++ [leafLine depth])) = texts ++ [leafLine depth] :=
    Text.lines_ofLines hall
  have hnumbered : linesOf (Text.ofLines (texts ++ [leafLine depth])) =
      numberLines 1 texts ++ [⟨1 + texts.length, depth, leafLine depth⟩] := by
    rw [linesOf, ← textLines, hlines, numberLines_append, numberLines_leafLine]
  obtain ⟨-, hs⟩ := reads_iff.mp (reads_leafLine depth)
  obtain ⟨tree, htree⟩ :=
    hdepth ⟨1 + texts.length, depth, leafLine depth⟩ "a" "b" rfl hs (by decide)
  refine ⟨[leafLine depth], _, tree, hlines, ?_⟩
  rw [parse_eq_readLines (by rw [hnumbered]; simp), hnumbered, htree]

/-- The text fails at its line `n`, before which it could still be gone on with, and so does every
text with the same lines up to this one. -/
structure FailsAt (text : String) (n : ℕ) (e : Error) : Prop where
  stopsAt : e.StopsAt n
  le_length : n ≤ (textLines text).length
  extendable : Extendable ((textLines text).take (n - 1))
  alike : ∀ other, (textLines other).take n = (textLines text).take n → parse other = .error e

theorem FailsAt.parse_eq {text : String} {n : ℕ} {e : Error} (h : FailsAt text n e) :
    parse text = .error e := h.alike text rfl

theorem FailsAt.not_extendable {text : String} {n : ℕ} {e : Error} (h : FailsAt text n e) :
    ¬ Extendable ((textLines text).take n) := by
  rintro ⟨more, other, tree, hother, htree⟩
  have hlen : ((textLines text).take n).length = n := List.length_take_of_le h.le_length
  have hsame : (textLines other).take n = (textLines text).take n := by
    rw [hother, List.take_append_of_le_length hlen.ge, List.take_of_length_le hlen.le]
  rw [h.alike other hsame] at htree
  cases htree

theorem extendable_or_failsAt (text : String) :
    (Extendable (textLines text) ∧ ∀ e n, parse text = .error e → ¬ e.StopsAt n) ∨
      ∃ n e, FailsAt text n e := by
  have hn : ∀ line ∈ textLines text, '\n' ∉ line := fun _ => Text.newline_not_mem_of_mem_lines
  rcases proceeds_or_stops .start (linesOf text) with h | h
  · left
    refine ⟨h.extendable hn, ?_⟩
    intro e n he
    rw [parse] at he
    split at he
    · cases he
      exact id
    · exact h.unstopped e n he
  · right
    obtain ⟨before, line, after, e, hls, hbefore, he, hmore⟩ := h
    obtain ⟨earlier, found, later, htexts, hearlier, hnumber, hline⟩ := exists_of_numberLines_eq hls
    have htext : textLines text = earlier ++ found :: later := htexts
    have hcut : (textLines text).take line.number = earlier ++ [found] := by
      rw [htext, hnumber, Nat.add_comm 1, List.take_length_add_append]
      rfl
    refine ⟨line.number, e, he, ?_, ?_, ?_⟩
    · rw [htext, hnumber, List.length_append, List.length_cons]
      omega
    · rw [htext, hnumber, Nat.add_sub_cancel_left, List.take_left]
      subst hearlier
      refine hbefore.extendable fun line hl => hn line ?_
      rw [htext]
      exact List.mem_append_left _ hl
    · intro other hother
      obtain ⟨rest, hrest⟩ : earlier ++ [found] <+: textLines other := by
        rw [← hcut, ← hother]
        exact List.take_prefix _ _
      have hnumbered : linesOf other = before ++ line :: numberLines (line.number + 1) rest := by
        rw [linesOf, ← textLines, ← hrest, List.append_assoc, numberLines_append, hearlier,
          ← hnumber, numberLines_append, hline]
        rfl
      rw [parse_eq_readLines (by rw [hnumbered]; simp), hnumbered, hmore]

variable {text : String} {n : ℕ}

theorem exists_stopsAt_iff :
    (∃ e, parse text = .error e ∧ e.StopsAt n) ↔
      Extendable ((textLines text).take (n - 1)) ∧ ¬ Extendable ((textLines text).take n) := by
  rcases extendable_or_failsAt text with ⟨hext, hun⟩ | ⟨m, e, h⟩
  · constructor
    · rintro ⟨e, hp, he⟩
      exact absurd he (hun e n hp)
    · rintro ⟨-, hnot⟩
      exact absurd (hext.of_prefix (List.take_prefix n _)) hnot
  · constructor
    · rintro ⟨e', hp, he⟩
      obtain rfl : e' = e := Except.error.inj (hp.symm.trans h.parse_eq)
      obtain rfl := he.unique h.stopsAt
      exact ⟨h.extendable, h.not_extendable⟩
    · rintro ⟨hbefore, hafter⟩
      have hge : m ≤ n := by
        by_contra hlt
        exact hafter (h.extendable.of_prefix (List.take_prefix_take_left (by omega)))
      have hle : n ≤ m := by
        by_contra hgt
        exact h.not_extendable (hbefore.of_prefix (List.take_prefix_take_left (by omega)))
      obtain rfl : n = m := le_antisymm hle hge
      exact ⟨e, h.parse_eq, h.stopsAt⟩

theorem parse_eq_of_stopsAt {e : Error} (hp : parse text = .error e) (he : e.StopsAt n)
    {other : String} (hother : (textLines other).take n = (textLines text).take n) :
    parse other = .error e := by
  rcases extendable_or_failsAt text with ⟨-, hun⟩ | ⟨m, e', h⟩
  · exact absurd he (hun e n hp)
  · obtain rfl : e' = e := Except.error.inj (h.parse_eq.symm.trans hp)
    obtain rfl := he.unique h.stopsAt
    exact h.alike other hother

theorem unfinished_iff :
    (parse text = .error .emptyInput ∨
        ∃ line name, parse text = .error (.incompleteSection line name)) ↔
      (∀ tree, parse text ≠ .ok tree) ∧ Extendable (textLines text) := by
  have hfailed : ∀ {e}, parse text = .error e → ∀ tree, parse text ≠ .ok tree := by
    intro e hp tree ht
    cases hp.symm.trans ht
  rcases extendable_or_failsAt text with ⟨hext, hun⟩ | ⟨m, e, h⟩
  · constructor
    · rintro (hp | ⟨line, name, hp⟩)
      · exact ⟨hfailed hp, hext⟩
      · exact ⟨hfailed hp, hext⟩
    · rintro ⟨hnot, -⟩
      cases hp : parse text with
      | ok tree => exact absurd hp (hnot tree)
      | error e =>
          cases e with
          | emptyInput => exact .inl rfl
          | incompleteSection line name => exact .inr ⟨line, name, rfl⟩
          | malformedLine line => exact absurd rfl (hun _ line hp)
          | inconsistent line expected found => exact absurd rfl (hun _ line hp)
  · constructor
    · rintro (hp | ⟨line, name, hp⟩)
      · cases h.parse_eq.symm.trans hp
        exact h.stopsAt.elim
      · cases h.parse_eq.symm.trans hp
        exact h.stopsAt.elim
    · rintro ⟨-, hext⟩
      exact absurd (hext.of_prefix (List.take_prefix m _)) h.not_extendable

/-- A line is reported as malformed or wrongly indented exactly if the lines before it can be gone
on with and with it they cannot; every text with the same lines so far fails in the same way. The
other two errors are reported exactly if the text is no outline but can be gone on with. -/
theorem parse_stops_at_first_hopeless_line (text : String) :
    (∀ n, (∃ e, parse text = .error e ∧ e.StopsAt n) ↔
      Extendable ((textLines text).take (n - 1)) ∧ ¬ Extendable ((textLines text).take n)) ∧
    (∀ n e, parse text = .error e → e.StopsAt n → ∀ other,
      (textLines other).take n = (textLines text).take n → parse other = .error e) ∧
    ((parse text = .error .emptyInput ∨
        ∃ line name, parse text = .error (.incompleteSection line name)) ↔
      (∀ tree, parse text ≠ .ok tree) ∧ Extendable (textLines text)) := by
  refine ⟨fun n => exists_stopsAt_iff, ?_, unfinished_iff⟩
  intro n e hp he other hother
  exact parse_eq_of_stopsAt hp he hother

/-- The second line is hopeless after the first one, whatever follows. -/
example :
    parse "a: 1" = .ok (.cons "a" (.leaf "1") .nil) ∧
      parse "a: 1\n  b: 2" = .error (.inconsistent 2 0 2) ∧
      parse "a: 1\n  b: 2\n:\nc" = .error (.inconsistent 2 0 2) := by
  decide +kernel

end ResourceAgent.Outline
