import ResourceAgent.Proofs.Outline.Line

/-!
# Readings

A reading is a run of the reader over some lines: it goes on with a leaf or with a branch whose
children follow, and ends with the lines or at the first fault. Each line first closes what is
deeper than it, so its part in the run is said of the progress after that. The reader follows the
relation, and the relation leaves it no choice; what holds of every run is shown by induction on the
reading.
-/
namespace ResourceAgent.Outline

/-- From the progress, the lines are read with the result. -/
inductive Reading : Progress → List Line → Except Error Tree → Prop
  | done (p : Progress) : Reading p [] (.ok p.closeAll)
  | deeper {p : Progress} {line : Line} {rest : List Line} :
      (p.closeAbove line.indent).depth < line.indent →
      Reading p (line :: rest)
        (.error (.inconsistent line.number (p.closeAbove line.indent).depth line.indent))
  | malformed {p : Progress} {line : Line} {rest : List Line} :
      (p.closeAbove line.indent).depth = line.indent → ¬ line.Binds →
      Reading p (line :: rest) (.error (.malformedLine line.number))
  | leaf {p : Progress} {line : Line} {rest : List Line} {result : Except Error Tree} :
      (p.closeAbove line.indent).depth = line.indent → line.IsLeaf →
      Reading ((p.closeAbove line.indent).bind line.name (.leaf line.value)) rest result →
      Reading p (line :: rest) result
  | incomplete {p : Progress} {line : Line} :
      (p.closeAbove line.indent).depth = line.indent → line.IsBranch →
      Reading p [line] (.error (.incompleteSection line.number line.name))
  | childless {p : Progress} {line next : Line} {rest : List Line} :
      (p.closeAbove line.indent).depth = line.indent → line.IsBranch →
      next.indent ≤ line.indent →
      Reading p (line :: next :: rest)
        (.error (.inconsistent next.number (line.indent + 1) next.indent))
  | branch {p : Progress} {line next : Line} {rest : List Line} {result : Except Error Tree} :
      (p.closeAbove line.indent).depth = line.indent → line.IsBranch →
      line.indent < next.indent →
      Reading ((p.closeAbove line.indent).push next.indent line.name) (next :: rest) result →
      Reading p (line :: next :: rest) result

/-- The reader reads. -/
theorem reading_readLines (p : Progress) (ls : List Line) : Reading p ls (readLines p ls) := by
  induction ls generalizing p with
  | nil =>
      rw [readLines]
      exact .done p
  | cons line rest ih =>
      rw [readLines_closeAbove]
      rcases (p.depth_closeAbove_le line.indent).lt_or_eq with hlt | hd
      · rw [readLines_deeper hlt]
        exact .deeper hlt
      · by_cases hb : line.Binds
        · by_cases hv : line.value = ""
          · have hbranch : line.IsBranch := ⟨hb, hv⟩
            have hs : line.split = some (line.name, "") :=
              Line.split_eq_some_iff.mpr ⟨hb, rfl, hv⟩
            rcases rest with _ | ⟨next, rest⟩
            · rw [readLines_incomplete hd.symm hs]
              exact .incomplete hd hbranch
            · rcases Nat.lt_or_ge line.indent next.indent with hn | hn
              · rw [readLines_branch hd.symm hs (hd.trans_lt hn)]
                exact .branch hd hbranch hn (ih _)
              · rw [readLines_childless hd.symm hs (hn.trans_eq hd.symm), hd]
                exact .childless hd hbranch hn
          · have hs : line.split = some (line.name, line.value) :=
              Line.split_eq_some_iff.mpr ⟨hb, rfl, rfl⟩
            rw [readLines_leaf hd.symm hs hv]
            exact .leaf hd ⟨hb, hv⟩ (ih _)
        · rw [readLines_malformed hd.symm (Line.split_eq_none_iff.mpr hb)]
          exact .malformed hd hb

/-- What is read in the end is what the reader comes to. -/
theorem Reading.result_eq {p : Progress} {ls : List Line} {result : Except Error Tree}
    (h : Reading p ls result) : result = readLines p ls := by
  induction h with
  | done p => rw [readLines]
  | deeper hlt => rw [readLines_closeAbove, readLines_deeper hlt]
  | malformed hd hb =>
      rw [readLines_closeAbove, readLines_malformed hd.symm (Line.split_eq_none_iff.mpr hb)]
  | leaf hd hl _ ih =>
      have hs := Line.split_eq_some_iff.mpr ⟨hl.toBinds, rfl, rfl⟩
      rw [readLines_closeAbove, readLines_leaf hd.symm hs hl.value_ne]
      exact ih
  | incomplete hd hb =>
      have hs := Line.split_eq_some_iff.mpr ⟨hb.toBinds, rfl, hb.value_eq⟩
      rw [readLines_closeAbove, readLines_incomplete hd.symm hs]
  | childless hd hb hn =>
      have hs := Line.split_eq_some_iff.mpr ⟨hb.toBinds, rfl, hb.value_eq⟩
      rw [readLines_closeAbove, readLines_childless hd.symm hs (hn.trans_eq hd.symm), hd]
  | branch hd hb hn _ ih =>
      have hs := Line.split_eq_some_iff.mpr ⟨hb.toBinds, rfl, hb.value_eq⟩
      rw [readLines_closeAbove, readLines_branch hd.symm hs (hd.trans_lt hn)]
      exact ih

end ResourceAgent.Outline
