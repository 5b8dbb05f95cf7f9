import ResourceAgent.Proofs.Json.Layout
import ResourceAgent.Proofs.Yaml.Scalar
import ResourceAgent.Yaml.Lexer

/-!
# JSON divided into YAML tokens

Between brackets the lexer does not look at indentation, and no candidate for a key is required to
become one. Every quoted text before a colon is a candidate, which its colon finds in front of it;
a quoted text after a colon is none. So the compact form of a value is divided into the tokens that
its structure says, as long as every name is close enough to its colon.
-/
namespace ResourceAgent.Yaml

open Json (Value Layout writeString)

/-- The brackets that JSON and YAML share, with the tokens that they are. -/
inductive Brackets : Char → Char → Token → Token → Prop
  | square : Brackets '[' ']' .flowSequenceStart .flowSequenceEnd
  | curly : Brackets '\x7b' '\x7d' .flowMappingStart .flowMappingEnd

namespace Lexer

/-- The tokens so far, reversed, without the slots that were not filled. -/
def tokens (l : Lexer) : List Token := l.items.filterMap Item.token?

/-- No block collection is open, so that no key is required, and so many brackets are. -/
structure Calm (depth : ℕ) (l : Lexer) : Prop where
  margins : l.margins = []
  depth : l.candidates.length = depth + 1
  required : ∀ k ∈ l.candidates, ∀ c ∈ k, c.required = false

variable {depth fuel : ℕ} {l l' l'' : Lexer}

theorem Calm.inFlow (h : l.Calm (depth + 1)) : l.inFlow = true := by
  simp [Lexer.inFlow, h.depth]

theorem Calm.exists_candidates_eq_cons (h : l.Calm depth) :
    ∃ k outer, l.candidates = k :: outer :=
  List.exists_cons_of_length_pos (by rw [h.depth]; omega)

/-- The lexer without the candidates that are too far back. -/
def fresh (l : Lexer) : Lexer :=
  { l with candidates := l.candidates.map fun k => k.filter fun k => !isStale l.cursor.mark k }

theorem Calm.fresh (h : l.Calm depth) : l.fresh.Calm depth where
  margins := h.margins
  depth := by
    rw [Lexer.fresh, List.length_map]
    exact h.depth
  required := by
    intro k hk c hc
    obtain ⟨k', hk', rfl⟩ := List.mem_map.mp hk
    exact h.required k' hk' c (Option.mem_filter_iff.mp hc).1

theorem dropStale_of_calm (h : l.Calm depth) : l.dropStale = .ok l.fresh := by
  have hstale : ((l.candidates.map fun k => k.filter (isStale l.cursor.mark)).any fun k =>
      k.any Candidate.required) = false := by
    rw [List.any_eq_false]
    intro k hk
    obtain ⟨k', hk', rfl⟩ := List.mem_map.mp hk
    rcases k' with _ | c
    · simp
    · have hc := h.required _ hk' c rfl
      by_cases hstale : isStale l.cursor.mark c
      · simp [Option.filter_some, hstale, hc]
      · simp [Option.filter_some, hstale]
  simp only [dropStale, hstale]
  rfl

theorem unroll_of_calm (h : l.Calm depth) (limit : ℕ) : l.unroll limit = l := by
  obtain ⟨cursor, margins, candidates, keyAllowed, items, slots⟩ := l
  obtain rfl : margins = [] := h.margins
  simp [unroll]

theorem skipToToken_of_isPrintable {c : Char} (h : isPrintable c = true) (hspace : c ≠ ' ')
    (hcomment : c ≠ '#') (inFlow keyAllowed : Bool) (mark : Mark) (rest : List Char) :
    skipToToken inFlow keyAllowed false mark (c :: rest) = (keyAllowed, ⟨mark, c :: rest⟩) := by
  have hne : ∀ d : Char, isPrintable d = false → c ≠ d := by
    rintro d hd rfl
    cases h.symm.trans hd
  rw [skipToToken]
  · simp [isBreak_of_isPrintable h, hspace, hcomment, hne '\t' (by decide),
      hne '\uFEFF' (by decide)]
  · rintro rest' rfl
    exact absurd rfl (hne '\r' (by decide))

theorem approach_of_calm (h : l.Calm depth)
    (hskip : skipToToken l.inFlow l.keyAllowed false l.cursor.mark l.cursor.rest =
      (l.keyAllowed, l.cursor)) : l.approach = .ok l.fresh := by
  rw [approach, hskip]
  dsimp only
  rw [dropStale_of_calm h]
  simp only [unroll_of_calm h.fresh]

/-- A token takes one step of the run. -/
theorem run_of_lexFrom {c : Char} {rest : List Char} (hcalm : l.Calm depth)
    (hrest : l.cursor.rest = c :: rest) (hc : isPrintable c = true) (hspace : c ≠ ' ')
    (hcomment : c ≠ '#') (hlex : l.fresh.lexFrom c rest = .ok l') (fuel : ℕ) :
    l.run (fuel + 1) = l'.run fuel := by
  have hcursor : (⟨l.cursor.mark, c :: rest⟩ : Cursor) = l.cursor := by rw [← hrest]
  have happroach := approach_of_calm hcalm (by
    rw [hrest, skipToToken_of_isPrintable hc hspace hcomment, hcursor])
  have hfresh : l.fresh.cursor.rest = c :: rest := hrest
  rw [run, happroach]
  simp only [hfresh, hlex]

/-- The lexer with a slot for what comes next, if that may be a key. -/
def saved (l : Lexer) : Lexer :=
  if l.keyAllowed then
    { l with
      candidates := some ⟨l.slots, false, l.cursor.mark⟩ :: l.candidates.tail
      items := .slot l.slots :: l.items
      slots := l.slots + 1 }
  else l

/-- The lexer without the candidate of this level. -/
def dropped (l : Lexer) : Lexer := { l with candidates := none :: l.candidates.tail }

@[simp] theorem saved_cursor (l : Lexer) : l.saved.cursor = l.cursor := by
  unfold saved
  split_ifs <;> rfl

@[simp] theorem saved_tokens (l : Lexer) : l.saved.tokens = l.tokens := by
  unfold saved
  split_ifs <;> rfl

theorem Calm.saved (h : l.Calm depth) : l.saved.Calm depth := by
  obtain ⟨k, outer, hcandidates⟩ := h.exists_candidates_eq_cons
  unfold Lexer.saved
  split_ifs
  · refine ⟨h.margins, ?_, ?_⟩
    · have hdepth := h.depth
      simpa [hcandidates] using hdepth
    · have hrequired := h.required
      rw [hcandidates, List.forall_mem_cons] at hrequired
      simpa [hcandidates] using hrequired.2
  · exact h

theorem Calm.dropped (h : l.Calm depth) : l.dropped.Calm depth := by
  obtain ⟨k, outer, hcandidates⟩ := h.exists_candidates_eq_cons
  have hdepth := h.depth
  have hrequired := h.required
  rw [hcandidates, List.forall_mem_cons] at hrequired
  refine ⟨h.margins, ?_, ?_⟩
  · simpa [Lexer.dropped, hcandidates] using hdepth
  · simpa [Lexer.dropped, hcandidates] using hrequired.2

theorem dropCandidate_of_calm (h : l.Calm depth) : l.dropCandidate = .ok l.dropped := by
  obtain ⟨k, outer, hcandidates⟩ := h.exists_candidates_eq_cons
  have hrequired := h.required
  obtain ⟨cursor, margins, candidates, keyAllowed, items, slots⟩ := l
  obtain rfl : candidates = k :: outer := hcandidates
  rcases k with _ | k
  · rfl
  · have hk : k.required = false := hrequired (some k) List.mem_cons_self k rfl
    simp [dropCandidate, dropped, hk]

theorem saveCandidate_of_calm (h : l.Calm depth) : l.saveCandidate = .ok l.saved := by
  have hrequired : (!l.inFlow && decide (l.margin = l.cursor.mark.column + 1)) = false := by
    simp [margin, h.margins]
  rw [saveCandidate, saved]
  by_cases hkey : l.keyAllowed = true
  · rw [if_neg (by simp [hkey]), if_pos hkey]
    simp only [dropCandidate_of_calm h, hrequired]
    rfl
  · rw [if_pos (by simpa using hkey), if_neg hkey]

theorem exists_run_of_rest_eq_nil (hcalm : l.Calm depth) (hrest : l.cursor.rest = [])
    (fuel : ℕ) : ∃ l', l.run fuel = .ok l' ∧ l'.tokens = l.tokens := by
  have hcursor : (⟨l.cursor.mark, []⟩ : Cursor) = l.cursor := by rw [← hrest]
  have happroach := approach_of_calm hcalm (by rw [hrest, skipToToken, hcursor])
  have hfinish : l.fresh.finish = .ok l.fresh.dropped := by
    rw [finish, unroll_of_calm hcalm.fresh, dropCandidate_of_calm hcalm.fresh]
  have hfresh : l.fresh.cursor.rest = [] := hrest
  refine ⟨l.fresh.dropped, ?_, rfl⟩
  rw [run, happroach]
  simp only [hfresh, hfinish]

/-- The text is divided into the tokens on the way from one state to another, at one step for each
of its characters or less. -/
structure Divides (text : List Char) (ts : List Token) (l l' : Lexer) : Prop where
  rest : l.cursor.rest = text ++ l'.cursor.rest
  tokens : l'.tokens = ts.reverse ++ l.tokens
  run : ∀ fuel, text.length ≤ fuel → ∃ fuel', fuel ≤ fuel' + text.length ∧ l.run fuel = l'.run fuel'

theorem Divides.trans {text text' : List Char} {ts ts' : List Token} (h : Divides text ts l l')
    (h' : Divides text' ts' l' l'') : Divides (text ++ text') (ts ++ ts') l l'' where
  rest := by rw [h.rest, h'.rest, List.append_assoc]
  tokens := by rw [h'.tokens, h.tokens, List.reverse_append, List.append_assoc]
  run := by
    intro fuel hfuel
    rw [List.length_append] at hfuel ⊢
    obtain ⟨fuel', hle, hrun⟩ := h.run fuel (by omega)
    obtain ⟨fuel'', hle', hrun'⟩ := h'.run fuel' (by omega)
    exact ⟨fuel'', by omega, hrun.trans hrun'⟩

theorem Divides.rest_eq {text rest : List Char} {ts : List Token} (h : Divides text ts l l')
    (hrest : l.cursor.rest = text ++ rest) : l'.cursor.rest = rest :=
  List.append_cancel_left (h.rest.symm.trans hrest)

/-- What one step divides off. -/
theorem divides_of_lexFrom {c : Char} {cs rest : List Char} {ts : List Token}
    (hcalm : l.Calm depth) (hrest : l.cursor.rest = c :: cs ++ rest) (hc : isPrintable c = true)
    (hspace : c ≠ ' ') (hcomment : c ≠ '#') (hlex : l.fresh.lexFrom c (cs ++ rest) = .ok l')
    (hrest' : l'.cursor.rest = rest) (htokens : l'.tokens = ts.reverse ++ l.tokens) :
    Divides (c :: cs) ts l l' where
  rest := by rw [hrest, hrest']
  tokens := htokens
  run := by
    intro fuel hfuel
    obtain ⟨fuel, rfl⟩ : ∃ f, fuel = f + 1 := ⟨fuel - 1, by rw [List.length_cons] at hfuel; omega⟩
    refine ⟨fuel, by rw [List.length_cons]; omega, ?_⟩
    exact run_of_lexFrom hcalm hrest hc hspace hcomment hlex fuel

theorem Calm.push (h : l.Calm depth) :
    ({ l with candidates := none :: l.candidates } : Lexer).Calm (depth + 1) := by
  refine ⟨h.margins, ?_, ?_⟩
  · simp [h.depth]
  · simpa using h.required

theorem Calm.pop (h : l.Calm (depth + 1)) :
    ({ l with candidates := l.candidates.tail } : Lexer).Calm depth := by
  refine ⟨h.margins, ?_, ?_⟩
  · simp [h.depth]
  · intro k hk
    exact h.required k (List.mem_of_mem_tail hk)

theorem Calm.take (h : l.Calm depth) (n : ℕ) (t : Token) : (l.take n t).Calm depth :=
  ⟨h.margins, h.depth, h.required⟩

theorem Calm.allowKey (h : l.Calm depth) (allowed : Bool) : (l.allowKey allowed).Calm depth :=
  ⟨h.margins, h.depth, h.required⟩

section Indicators

variable {rest : List Char}

/-- An indicator is a token of one character. -/
theorem divides_take {c : Char} {t : Token} (hc : isPrintable c = true) (hspace : c ≠ ' ')
    (hcomment : c ≠ '#') (hcalm : l.Calm depth) (hrest : l.cursor.rest = c :: rest)
    (hlex : l.fresh.lexFrom c rest = .ok (l'.take 1 t)) (hcursor : l'.cursor = l.cursor)
    (htokens : l'.tokens = l.tokens) : Divides [c] [t] l (l'.take 1 t) := by
  refine divides_of_lexFrom hcalm hrest hc hspace hcomment hlex ?_ ?_
  · simp [take, hcursor, hrest, Cursor.advance]
  · rw [← htokens]
    rfl

variable {opening closing : Char} {t t' : Token}

theorem divides_open (hb : Brackets opening closing t t') (hcalm : l.Calm depth)
    (hrest : l.cursor.rest = opening :: rest) :
    ∃ l', Divides [opening] [t] l l' ∧ l'.Calm (depth + 1) ∧ l'.keyAllowed = true := by
  let pushed : Lexer := { l.fresh.saved with candidates := none :: l.fresh.saved.candidates }
  have hpushed : pushed.Calm (depth + 1) := hcalm.fresh.saved.push
  have hopen : l.fresh.lexOpen t = .ok ((pushed.allowKey true).take 1 t) := by
    rw [lexOpen, saveCandidate_of_calm hcalm.fresh]
    rfl
  have hcursor : pushed.cursor = l.cursor := l.fresh.saved_cursor
  have htokens : pushed.tokens = l.tokens := l.fresh.saved_tokens
  refine ⟨_, ?_, (hpushed.allowKey true).take 1 t, rfl⟩
  cases hb
  · refine divides_take (by decide) (by decide) (by decide) hcalm hrest ?_ hcursor htokens
    simp [lexFrom, atMarker_of_ne, hopen]
  · refine divides_take (by decide) (by decide) (by decide) hcalm hrest ?_ hcursor htokens
    simp [lexFrom, atMarker_of_ne, hopen]

theorem divides_close (hb : Brackets opening closing t t') (hcalm : l.Calm (depth + 1))
    (hrest : l.cursor.rest = closing :: rest) :
    ∃ l', Divides [closing] [t'] l l' ∧ l'.Calm depth := by
  have hdropped := hcalm.fresh.dropped
  let popped : Lexer := { l.fresh.dropped with candidates := l.fresh.dropped.candidates.tail }
  have hpopped : popped.Calm depth := hdropped.pop
  have hclose : l.fresh.lexClose t' = .ok ((popped.allowKey false).take 1 t') := by
    simp only [lexClose, dropCandidate_of_calm hcalm.fresh, bind, Except.bind, hdropped.inFlow]
    rfl
  refine ⟨_, ?_, (hpopped.allowKey false).take 1 t'⟩
  cases hb
  · refine divides_take (by decide) (by decide) (by decide) hcalm hrest ?_ rfl rfl
    simp [lexFrom, atMarker_of_ne, hclose]
  · refine divides_take (by decide) (by decide) (by decide) hcalm hrest ?_ rfl rfl
    simp [lexFrom, atMarker_of_ne, hclose]

theorem divides_comma (hcalm : l.Calm (depth + 1)) (hrest : l.cursor.rest = ',' :: rest) :
    ∃ l', Divides [','] [.flowEntry] l l' ∧ l'.Calm (depth + 1) ∧ l'.keyAllowed = true := by
  have hdropped := hcalm.fresh.dropped
  have hcomma : l.fresh.lexComma = .ok ((l.fresh.dropped.allowKey true).take 1 .flowEntry) := by
    rw [lexComma, dropCandidate_of_calm hcalm.fresh]
    rfl
  refine ⟨_, ?_, (hdropped.allowKey true).take 1 .flowEntry, rfl⟩
  refine divides_take (by decide) (by decide) (by decide) hcalm hrest ?_ rfl rfl
  simp [lexFrom, atMarker_of_ne, hcomma]

end Indicators

/-- The lexer after a scalar that takes it to the cursor. -/
def scanned (l : Lexer) (t : Token) (cursor : Cursor) : Lexer :=
  { (l.fresh.saved.allowKey false).emit t with cursor }

theorem Calm.scanned (h : l.Calm depth) (t : Token) (cursor : Cursor) :
    (l.scanned t cursor).Calm depth :=
  ⟨h.fresh.saved.margins, h.fresh.saved.depth, h.fresh.saved.required⟩

theorem tokens_scanned (l : Lexer) (t : Token) (cursor : Cursor) :
    (l.scanned t cursor).tokens = t :: l.tokens := by
  have htokens : l.fresh.saved.tokens = l.tokens := l.fresh.saved_tokens
  rw [← htokens]
  rfl

theorem divides_quoted {s : String} {rest : List Char} (hs : IsPrintableText s)
    (hcalm : l.Calm depth) (hrest : l.cursor.rest = writeString s ++ rest) :
    Divides (writeString s) [.scalar .doubleQuoted s] l
      (l.scanned (.scalar .doubleQuoted s)
        ⟨l.cursor.mark.advance (writeString s).length, rest⟩) := by
  have hread := readQuoted_writeString hs l.cursor.mark rest
  have hcursor : (⟨l.cursor.mark, writeString s ++ rest⟩ : Cursor) = l.cursor := by rw [← hrest]
  rw [hcursor] at hread
  have hquoted : l.fresh.lexQuoted .doubleQuoted '"' =
      .ok (l.scanned (.scalar .doubleQuoted s)
        ⟨l.cursor.mark.advance (writeString s).length, rest⟩) := by
    have hsaved : l.fresh.saved.cursor = l.cursor := l.fresh.saved_cursor
    simp only [lexQuoted, saveCandidate_of_calm hcalm.fresh, bind, Except.bind, hsaved, hread,
      String.ofList_toList]
    rfl
  refine divides_of_lexFrom hcalm hrest (by decide) (by decide) (by decide) ?_ rfl
    (tokens_scanned _ _ _)
  simp [lexFrom, atMarker_of_ne, hquoted]

theorem contains_of_isAlphanum {c : Char} (h : c.isAlphanum = true) {cs : List Char}
    (hcs : cs.all (fun d => !d.isAlphanum) = true) : cs.contains c = false := by
  rw [List.contains_eq_mem, decide_eq_false_iff_not]
  intro hmem
  have hc := List.all_eq_true.mp hcs c hmem
  simp [h] at hc

theorem isIndicator_of_isAlphanum {c : Char} (h : c.isAlphanum = true) : isIndicator c = false := by
  rw [isIndicator]
  exact contains_of_isAlphanum h (by decide)

theorem lexFrom_of_isAlphanum {c : Char} (h : c.isAlphanum = true) (rest : List Char) :
    l.lexFrom c rest = l.lexPlain := by
  have hprintable := isPrintable_of_isAlphanum h
  have hne := fun d => ne_of_isAlphanum (d := d) h
  have hplain : startsPlain l.inFlow c rest = true := by
    simp [startsPlain, isWhite_of_isPrintable hprintable (hne ' ' (by decide)),
      isBreak_of_isPrintable hprintable, isIndicator_of_isAlphanum h]
  simp [lexFrom, hplain, atMarker_of_ne (hne '-' (by decide)),
    atMarker_of_ne (hne '.' (by decide)), hne '%' (by decide), hne '[' (by decide),
    hne '\x7b' (by decide), hne ']' (by decide), hne '\x7d' (by decide), hne ',' (by decide),
    hne '-' (by decide), hne '?' (by decide), hne ':' (by decide), hne '*' (by decide),
    hne '&' (by decide), hne '!' (by decide), hne '|' (by decide), hne '>' (by decide),
    hne '\'' (by decide), hne '"' (by decide)]

theorem divides_plain {word rest : List Char} {c : Char} (hne : word ≠ [])
    (hword : ∀ d ∈ word, d.isAlphanum = true) (hc : c ∈ closers) (hcalm : l.Calm (depth + 1))
    (hrest : l.cursor.rest = word ++ c :: rest) :
    Divides word [.scalar .plain (String.ofList word)] l
      (l.scanned (.scalar .plain (String.ofList word))
        ⟨l.cursor.mark.advance word.length, c :: rest⟩) := by
  have hcursor : (⟨l.cursor.mark, word ++ c :: rest⟩ : Cursor) = l.cursor := by rw [← hrest]
  have hsaved := hcalm.fresh.saved
  have hread := readPlain_word hword hne hc l.fresh.saved.margin l.cursor.mark rest
  rw [hcursor] at hread
  have hplain : l.fresh.lexPlain = .ok (l.scanned (.scalar .plain (String.ofList word))
      ⟨l.cursor.mark.advance word.length, c :: rest⟩) := by
    have hsame : l.fresh.saved.cursor = l.cursor := l.fresh.saved_cursor
    simp only [lexPlain, saveCandidate_of_calm hcalm.fresh, bind, Except.bind, hsame,
      hsaved.inFlow, hread]
    rfl
  obtain ⟨d, ds, rfl⟩ := List.exists_cons_of_ne_nil hne
  have hd := hword d List.mem_cons_self
  refine divides_of_lexFrom hcalm hrest (isPrintable_of_isAlphanum hd)
    (ne_of_isAlphanum hd (by decide)) (ne_of_isAlphanum hd (by decide)) ?_ rfl
    (tokens_scanned _ _ _)
  rw [lexFrom_of_isAlphanum hd, hplain]

theorem scanned_of_keyAllowed (h : l.keyAllowed = true) (t : Token) (cursor : Cursor) :
    (l.scanned t cursor).candidates =
        some ⟨l.slots, false, l.cursor.mark⟩ :: l.fresh.candidates.tail ∧
      (l.scanned t cursor).items = .token t :: .slot l.slots :: l.items := by
  have hfresh : l.fresh.keyAllowed = true := h
  have hsaved : l.fresh.saved = { l.fresh with
      candidates := some ⟨l.slots, false, l.cursor.mark⟩ :: l.fresh.candidates.tail
      items := .slot l.slots :: l.items
      slots := l.slots + 1 } := if_pos hfresh
  constructor
  · rw [scanned, hsaved]
    rfl
  · rw [scanned, hsaved]
    rfl

/-- A colon makes a key of the candidate in front of it. -/
theorem exists_run_of_colon {k : Candidate} {outer : List (Option Candidate)} {t : Token}
    {items : List Item} {rest : List Char} (hcalm : l.Calm (depth + 1))
    (hcandidates : l.candidates = some k :: outer) (hnear : isStale l.cursor.mark k = false)
    (hitems : l.items = .token t :: .slot k.slot :: items) (hrest : l.cursor.rest = ':' :: rest) :
    ∃ l' : Lexer, (∀ fuel, l.run (fuel + 1) = l'.run fuel) ∧ l'.Calm (depth + 1) ∧
      l'.cursor.rest = rest ∧
      l'.tokens = .value :: t :: .key :: items.filterMap Item.token? := by
  have hfresh : l.fresh.candidates = some k :: l.fresh.candidates.tail := by
    simp [fresh, hcandidates, Option.filter_some, hnear]
  have hdropped := hcalm.fresh.dropped
  let keyed : Lexer := { l.fresh.dropped with items := .token t :: .token .key :: items }
  have hkeyed : keyed.Calm (depth + 1) := ⟨hdropped.margins, hdropped.depth, hdropped.required⟩
  have hopens : l.fresh.opensAt k.mark.column = false := by
    simp [opensAt, hcalm.fresh.inFlow]
  have hfill : fillSlot k.slot [.token .key] l.fresh.items =
      .token t :: .token .key :: items := by
    have hfreshItems : l.fresh.items = .token t :: .slot k.slot :: items := hitems
    simp [hfreshItems, fillSlot]
  have hcolon : l.fresh.lexColon = .ok ((keyed.allowKey false).take 1 .value) := by
    rw [lexColon, hfresh]
    simp only [hopens, Bool.false_eq_true, ↓reduceIte, hfill]
    rfl
  refine ⟨(keyed.allowKey false).take 1 .value, ?_, (hkeyed.allowKey false).take 1 .value, ?_, rfl⟩
  · refine run_of_lexFrom hcalm hrest (by decide) (by decide) (by decide) ?_
    have hinFlow := hcalm.fresh.inFlow
    simp [lexFrom, atMarker_of_ne, hinFlow, hcolon]
  · have hcursor : keyed.cursor = l.cursor := rfl
    simp [take, allowKey, hcursor, hrest, Cursor.advance]

theorem divides_key {name : String} {rest : List Char} (hname : IsPrintableText name)
    (hlen : (writeString name).length ≤ 1024) (hcalm : l.Calm (depth + 1))
    (hkey : l.keyAllowed = true) (hrest : l.cursor.rest = writeString name ++ ':' :: rest) :
    ∃ l', Divides (writeString name ++ [':']) [.key, .scalar .doubleQuoted name, .value] l l' ∧
      l'.Calm (depth + 1) := by
  have hquoted := divides_quoted hname hcalm hrest
  obtain ⟨hcandidates, hitems⟩ := scanned_of_keyAllowed hkey (.scalar .doubleQuoted name)
    ⟨l.cursor.mark.advance (writeString name).length, ':' :: rest⟩
  have hnear : isStale (l.cursor.mark.advance (writeString name).length)
      ⟨l.slots, false, l.cursor.mark⟩ = false := by
    simp [isStale, Mark.advance, hlen]
  obtain ⟨l', hrun, hcalm', hrest', htokens⟩ :=
    exists_run_of_colon (hcalm.scanned _ _) hcandidates hnear hitems rfl
  refine ⟨l', ⟨?_, ?_, ?_⟩, hcalm'⟩
  · rw [hrest, hrest', List.append_assoc]
    rfl
  · rw [htokens]
    rfl
  · intro fuel hfuel
    rw [List.length_append, List.length_singleton] at hfuel ⊢
    obtain ⟨fuel', hle, hstep⟩ := hquoted.run fuel (by omega)
    obtain ⟨fuel', rfl⟩ : ∃ f, fuel' = f + 1 := ⟨fuel' - 1, by omega⟩
    exact ⟨fuel', by omega, hstep.trans (hrun fuel')⟩

end Lexer

/-- Where brackets are open, and a key may start if one does, the text is divided into the tokens,
up to the indicator that has to follow. -/
def Lexes (key : Bool) (text : List Char) (ts : List Token) : Prop :=
  ∀ ⦃depth : ℕ⦄ ⦃l : Lexer⦄ ⦃c : Char⦄ ⦃rest : List Char⦄, l.Calm (depth + 1) →
    (key = true → l.keyAllowed = true) → c ∈ closers → l.cursor.rest = text ++ c :: rest →
      ∃ l', Lexer.Divides text ts l l' ∧ l'.Calm (depth + 1)

theorem lexes_plain {word : List Char} (hne : word ≠ [])
    (hword : ∀ d ∈ word, d.isAlphanum = true) :
    Lexes false word [.scalar .plain (String.ofList word)] := by
  intro depth l c rest hcalm _ hc hrest
  exact ⟨_, Lexer.divides_plain hne hword hc hcalm hrest, hcalm.scanned _ _⟩

theorem lexes_quoted {s : String} (hs : IsPrintableText s) :
    Lexes false (writeString s) [.scalar .doubleQuoted s] := by
  intro depth l c rest hcalm _ hc hrest
  exact ⟨_, Lexer.divides_quoted hs hcalm hrest, hcalm.scanned _ _⟩

theorem Lexes.weaken {key : Bool} {text : List Char} {ts : List Token} (h : Lexes false text ts) :
    Lexes key text ts := by
  intro depth l c rest hcalm _ hc hrest
  exact h hcalm (by simp) hc hrest

theorem Lexes.member {name : String} {text : List Char} {ts : List Token} (h : Lexes false text ts)
    (hname : IsPrintableText name) (hlen : (writeString name).length ≤ 1024) :
    Lexes true (Layout.compact.member name text)
      (.key :: .scalar .doubleQuoted name :: .value :: ts) := by
  intro depth l c rest hcalm hkey hc hrest
  have hmember : Layout.compact.member name text = (writeString name ++ [':']) ++ text := by
    simp [Layout.member, Layout.compact]
  rw [hmember] at hrest ⊢
  have hrest' : l.cursor.rest = writeString name ++ ':' :: (text ++ c :: rest) := by
    simpa using hrest
  obtain ⟨l₁, hdivides, hcalm₁⟩ := Lexer.divides_key hname hlen hcalm (hkey rfl) hrest'
  obtain ⟨l₂, hdivides', hcalm₂⟩ := h hcalm₁ (by simp) hc
    (hdivides.rest_eq (by rw [hrest, List.append_assoc]))
  exact ⟨l₂, hdivides.trans hdivides', hcalm₂⟩

section Enclosed

variable {α : Type} {text : α → List Char} {ts : α → List Token}

/-- Items or members one after the other, with commas between them. -/
theorem lexes_joinLists {a : α} {as : List α} (h : ∀ b ∈ a :: as, Lexes true (text b) (ts b)) :
    Lexes true (Text.joinLists [','] ((a :: as).map text))
      (Text.joinLists [.flowEntry] ((a :: as).map ts)) := by
  have ha := h a List.mem_cons_self
  induction as generalizing a with
  | nil => exact ha
  | cons b as ih =>
      intro depth l c rest hcalm hkey hc hrest
      have hb := ih (fun d hd => h d (List.mem_cons_of_mem _ hd)) (h b (by simp))
      simp only [List.map_cons, Text.joinLists, List.append_assoc, List.singleton_append] at hrest
      have hcomma : ',' ∈ closers := by simp [closers]
      obtain ⟨l₁, hdivides₁, hcalm₁⟩ := ha hcalm hkey hcomma hrest
      obtain ⟨l₂, hdivides₂, hcalm₂, hkey₂⟩ :=
        Lexer.divides_comma hcalm₁ (hdivides₁.rest_eq hrest)
      obtain ⟨l₃, hdivides₃, hcalm₃⟩ := hb hcalm₂ (fun _ => hkey₂) hc
        (hdivides₂.rest_eq (hdivides₁.rest_eq hrest))
      exact ⟨l₃, hdivides₁.trans (hdivides₂.trans hdivides₃), hcalm₃⟩

theorem enclose_compact (opening closing : Char) (depth : ℕ) (texts : List (List Char)) :
    Layout.compact.enclose opening closing depth texts =
      opening :: (Text.joinLists [','] texts ++ [closing]) := by
  cases texts with
  | nil => rfl
  | cons text texts => rfl

theorem exists_divides_enclose {opening closing : Char} {t t' : Token}
    (hb : Brackets opening closing t t') {as : List α}
    (h : ∀ a ∈ as, Lexes true (text a) (ts a)) {depth : ℕ} {l : Lexer} {rest : List Char}
    (hcalm : l.Calm depth)
    (hrest : l.cursor.rest = opening :: (Text.joinLists [','] (as.map text) ++ [closing]) ++ rest) :
    ∃ l', Lexer.Divides (opening :: (Text.joinLists [','] (as.map text) ++ [closing]))
      (t :: (Text.joinLists [.flowEntry] (as.map ts) ++ [t'])) l l' ∧ l'.Calm depth := by
  have hcloser : closing ∈ closers := by
    cases hb <;> simp [closers]
  simp only [List.cons_append, List.append_assoc, List.nil_append] at hrest
  obtain ⟨l₁, hdivides₁, hcalm₁, hkey₁⟩ := Lexer.divides_open hb hcalm hrest
  have hrest₁ := hdivides₁.rest_eq hrest
  cases as with
  | nil =>
      obtain ⟨l₂, hdivides₂, hcalm₂⟩ := Lexer.divides_close hb hcalm₁ hrest₁
      exact ⟨l₂, hdivides₁.trans hdivides₂, hcalm₂⟩
  | cons a as =>
      obtain ⟨l₂, hdivides₂, hcalm₂⟩ :=
        lexes_joinLists h hcalm₁ (fun _ => hkey₁) hcloser hrest₁
      obtain ⟨l₃, hdivides₃, hcalm₃⟩ :=
        Lexer.divides_close hb hcalm₂ (hdivides₂.rest_eq hrest₁)
      exact ⟨l₃, hdivides₁.trans (hdivides₂.trans hdivides₃), hcalm₃⟩

theorem lexes_enclose {opening closing : Char} {t t' : Token}
    (hb : Brackets opening closing t t') {as : List α}
    (h : ∀ a ∈ as, Lexes true (text a) (ts a)) :
    Lexes false (opening :: (Text.joinLists [','] (as.map text) ++ [closing]))
      (t :: (Text.joinLists [.flowEntry] (as.map ts) ++ [t'])) := by
  intro depth l c rest hcalm _ _ hrest
  exact exists_divides_enclose hb h hcalm hrest

end Enclosed

/-- The tokens of the compact form of a value. -/
def tokensOf (v : Value) : List Token :=
  match v with
  | .null => [.scalar .plain "null"]
  | .bool b => [.scalar .plain (if b then "true" else "false")]
  | .number n => [.scalar .plain (String.ofList n.write)]
  | .string s => [.scalar .doubleQuoted s]
  | .array items =>
      .flowSequenceStart ::
        (Text.joinLists [.flowEntry] (items.map fun v => tokensOf v) ++ [.flowSequenceEnd])
  | .object members =>
      .flowMappingStart ::
        (Text.joinLists [.flowEntry] (members.map fun m =>
          .key :: .scalar .doubleQuoted m.1 :: .value :: tokensOf m.2) ++ [.flowMappingEnd])
termination_by sizeOf v
decreasing_by
  · have h := List.sizeOf_lt_of_mem ‹v ∈ items›
    simp only [Value.array.sizeOf_spec]
    omega
  · have h := List.sizeOf_lt_of_mem ‹m ∈ members›
    obtain ⟨name, v⟩ := m
    simp only [Prod.mk.sizeOf_spec, Value.object.sizeOf_spec] at h ⊢
    omega

/-- Numbers are natural, texts are of printable ASCII characters, and no name is too long for its
colon to be found. -/
inductive Simple : Value → Prop
  | null : Simple .null
  | bool (b : Bool) : Simple (.bool b)
  | nat (n : ℕ) : Simple (.nat n)
  | string {s : String} : IsPrintableText s → Simple (.string s)
  | array {items : List Value} : (∀ v ∈ items, Simple v) → Simple (.array items)
  | object {members : List (String × Value)} :
      (∀ m ∈ members, IsPrintableText m.1 ∧ (writeString m.1).length ≤ 1024) →
        (∀ m ∈ members, Simple m.2) → Simple (.object members)

theorem Simple.lexes {v : Value} (h : Simple v) (depth : ℕ) :
    Lexes false (v.chars .compact depth) (tokensOf v) := by
  induction h generalizing depth with
  | null =>
      rw [Value.chars, tokensOf]
      exact lexes_plain (by decide) (List.all_eq_true.mp (by decide))
  | bool b =>
      rw [Value.chars, tokensOf]
      cases b with
      | false => exact lexes_plain (by decide) (List.all_eq_true.mp (by decide))
      | true => exact lexes_plain (by decide) (List.all_eq_true.mp (by decide))
  | nat n =>
      have hdigits : ∀ c ∈ (toString n).toList, c.isAlphanum = true := by
        intro c hc
        have hdigit := Text.isDigit_toString hc
        simp [Char.isAlphanum, hdigit]
      rw [Value.nat, Value.chars, tokensOf]
      exact lexes_plain (Text.toString_int_ne_nil n) hdigits
  | string hs =>
      rw [Value.chars, tokensOf]
      exact lexes_quoted hs
  | array _ ih =>
      rw [Value.chars, tokensOf, enclose_compact]
      exact lexes_enclose .square fun v hv => (ih v hv _).weaken
  | object hnames _ ih =>
      rw [Value.chars, tokensOf, enclose_compact]
      exact lexes_enclose .curly fun m hm => (ih m hm _).member (hnames m hm).1 (hnames m hm).2

theorem mem_joinLists {α : Type} {separator : List α} {ls : List (List α)} {x : α}
    (h : x ∈ Text.joinLists separator ls) : x ∈ separator ∨ ∃ l ∈ ls, x ∈ l := by
  fun_induction Text.joinLists separator ls with
  | case1 => simp at h
  | case2 l => exact .inr ⟨l, List.mem_cons_self, h⟩
  | case3 l next rest ih =>
      rw [List.mem_append, List.mem_append] at h
      rcases h with h | h | h
      · exact .inr ⟨l, List.mem_cons_self, h⟩
      · exact .inl h
      · rcases ih h with hs | ⟨l', hl', hx⟩
        · exact .inl hs
        · exact .inr ⟨l', List.mem_cons_of_mem _ hl', hx⟩

theorem isPrintable_writeString {s : String} (hs : IsPrintableText s) :
    ∀ c ∈ writeString s, isPrintable c = true := by
  intro c hc
  simp only [writeString, List.mem_append, List.mem_cons, List.mem_flatMap, List.not_mem_nil,
    or_false] at hc
  rcases hc with (rfl | ⟨d, hd, hc⟩) | rfl
  · decide
  · rw [escapeChar_of_isPrintable (hs d hd)] at hc
    split_ifs at hc
    · simp only [List.mem_cons, List.not_mem_nil, or_false] at hc
      rcases hc with rfl | rfl
      · decide
      · exact hs c hd
    · rw [List.mem_singleton.mp hc]
      exact hs d hd
  · decide

theorem isPrintable_enclose {opening closing : Char} {t t' : Token}
    (hb : Brackets opening closing t t') {texts : List (List Char)}
    (h : ∀ text ∈ texts, ∀ c ∈ text, isPrintable c = true) :
    ∀ c ∈ opening :: (Text.joinLists [','] texts ++ [closing]), isPrintable c = true := by
  have hbrackets : isPrintable opening = true ∧ isPrintable closing = true := by
    cases hb <;> decide
  intro c hc
  simp only [List.mem_cons, List.mem_append, List.not_mem_nil, or_false] at hc
  rcases hc with rfl | hc | rfl
  · exact hbrackets.1
  · rcases mem_joinLists hc with hcomma | ⟨text, htext, hc⟩
    · rw [List.mem_singleton.mp hcomma]
      decide
    · exact h text htext c hc
  · exact hbrackets.2

theorem Simple.isPrintable {v : Value} (h : Simple v) (depth : ℕ) :
    ∀ c ∈ v.chars .compact depth, isPrintable c = true := by
  induction h generalizing depth with
  | null =>
      rw [Value.chars]
      exact List.all_eq_true.mp (by decide)
  | bool b =>
      rw [Value.chars]
      cases b with
      | false => exact List.all_eq_true.mp (by decide)
      | true => exact List.all_eq_true.mp (by decide)
  | nat n =>
      intro c hc
      rw [Value.nat, Value.chars] at hc
      have hdigit : c.isDigit = true := Text.isDigit_toString (n := n) hc
      exact isPrintable_of_isAlphanum (by simp [Char.isAlphanum, hdigit])
  | string hs =>
      rw [Value.chars]
      exact isPrintable_writeString hs
  | array _ ih =>
      rw [Value.chars, enclose_compact]
      refine isPrintable_enclose .square ?_
      rw [List.forall_mem_map]
      exact fun v hv => ih v hv _
  | object hnames _ ih =>
      rw [Value.chars, enclose_compact]
      refine isPrintable_enclose .curly ?_
      rw [List.forall_mem_map]
      intro m hm c hc
      simp only [Layout.member, Layout.compact, List.nil_append, List.mem_append,
        List.mem_cons] at hc
      rcases hc with hc | rfl | hc
      · exact isPrintable_writeString (hnames m hm).1 c hc
      · decide
      · exact ih m hm _ c hc

theorem tokenize_of_divides {cs : List Char} {ts : List Token} {l : Lexer}
    (hprintable : ∀ c ∈ cs, isPrintable c = true)
    (h : Lexer.Divides cs ts { cursor := ⟨{ }, cs⟩ } l) (hcalm : l.Calm 0) :
    tokenize (String.ofList cs) = .ok ts := by
  have hallowed : cs.all isAllowed = true :=
    List.all_eq_true.mpr fun c hc => isAllowed_of_isPrintable (hprintable c hc)
  have hrest : l.cursor.rest = [] := h.rest_eq (List.append_nil cs).symm
  obtain ⟨fuel, -, hrun⟩ := h.run cs.length (Nat.le_refl _)
  obtain ⟨l', hl', htokens⟩ := Lexer.exists_run_of_rest_eq_nil hcalm hrest fuel
  have hitems : l'.items.filterMap Item.token? = ts.reverse := by
    have hreverse := htokens.trans h.tokens
    rwa [show Lexer.tokens { cursor := ⟨{ }, cs⟩ } = [] from rfl, List.append_nil] at hreverse
  rw [tokenize, String.toList_ofList]
  simp only [hallowed, Bool.not_true, Bool.false_eq_true, ↓reduceIte, hrun, hl', Except.map,
    List.filterMap_reverse, hitems, List.reverse_reverse]

theorem tokenize_compact {members : List (String × Value)} (h : Simple (.object members)) :
    tokenize (Value.object members).compact = .ok (tokensOf (.object members)) := by
  have hprintable := h.isPrintable 0
  rw [Value.compact, Value.compactChars_eq 0]
  rw [Value.chars, enclose_compact] at hprintable ⊢
  rw [tokensOf]
  cases h with
  | object hnames hmembers =>
      have hlexes : ∀ m ∈ members, Lexes true
          (Layout.compact.member m.1 (m.2.chars .compact (0 + 1)))
          (.key :: .scalar .doubleQuoted m.1 :: .value :: tokensOf m.2) := fun m hm =>
        ((hmembers m hm).lexes _).member (hnames m hm).1 (hnames m hm).2
      have hcalm : ∀ cs, Lexer.Calm 0 { cursor := ⟨{ }, cs⟩ } := fun cs => ⟨rfl, rfl, by simp⟩
      obtain ⟨l, hdivides, hcalm'⟩ :=
        exists_divides_enclose .curly hlexes (hcalm _) (List.append_nil _).symm
      exact tokenize_of_divides hprintable hdivides hcalm'

end ResourceAgent.Yaml
