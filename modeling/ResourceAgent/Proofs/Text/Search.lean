import Mathlib.Data.List.Infix
import ResourceAgent.Dialogue

/-!
# Occurrences across a line break

A pattern without a line feed does not reach across one, so what the two streams of a command say
together is what either of them says.
-/
namespace ResourceAgent

namespace Text

theorem occursIn_iff {pattern cs : List Char} : occursIn pattern cs = true ↔ pattern <:+: cs := by
  induction cs with
  | nil => simp [occursIn]
  | cons c cs ih => simp [occursIn, ih, List.infix_cons_iff]

theorem prefix_newline_iff {pattern rest : List Char} (h : '\n' ∉ pattern) :
    pattern <+: '\n' :: rest ↔ pattern = [] := by
  constructor
  · intro hp
    rcases List.prefix_cons_iff.mp hp with rfl | ⟨tail, rfl, -⟩
    · rfl
    · exact absurd List.mem_cons_self h
  · rintro rfl
    exact List.nil_prefix

theorem infix_newline_iff {pattern cs rest : List Char} (h : '\n' ∉ pattern) :
    pattern <:+: cs ++ '\n' :: rest ↔ pattern <:+: cs ∨ pattern <:+: rest := by
  constructor
  · intro hp
    rcases List.infix_append_iff.mp hp with hl | hr | ⟨before, after, rfl, hb, ha⟩
    · exact .inl hl
    · rcases List.infix_cons_iff.mp hr with hs | hr
      · rw [(prefix_newline_iff h).mp hs]
        exact .inl List.nil_infix
      · exact .inr hr
    · have hnil := (prefix_newline_iff fun hm => h (List.mem_append_right _ hm)).mp ha
      rw [hnil, List.append_nil]
      exact .inl hb.isInfix
  · rintro (hl | hr)
    · exact List.infix_append_of_infix_left hl
    · exact List.infix_append_of_infix_right (List.infix_cons hr)

theorem contains_iff {text pattern : String} :
    contains text pattern = true ↔ pattern.toList <:+: text.toList :=
  occursIn_iff

end Text

/-- A pattern of one line is found in both streams together if it is found in one of them. -/
theorem Output.contains_combined {pattern : String} (h : '\n' ∉ pattern.toList) (o : Output) :
    Text.contains o.combined pattern =
      (Text.contains o.stdout pattern || Text.contains o.stderr pattern) := by
  have hc : o.combined.toList = o.stdout.toList ++ '\n' :: o.stderr.toList := by
    simp [combined, String.toList_append]
  rw [Bool.eq_iff_iff, Bool.or_eq_true, Text.contains_iff, Text.contains_iff, Text.contains_iff,
    hc, Text.infix_newline_iff h]

end ResourceAgent
