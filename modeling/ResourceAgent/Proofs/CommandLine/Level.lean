import Mathlib.Data.List.Nodup
import Mathlib.Data.List.Perm.Basic
import Mathlib.Data.List.TakeWhile
import ResourceAgent.CommandLine.Level

/-!
# Options in any order

A word that brings an option together with its value is settled as soon as it is met, and changes
what this option is about and nothing else. So such words may come in any order: `Words.scan_perm`
says what the settings are after them. It is assumed that different options change different things
and that no option is given twice. Values that are words of their own are not covered here.
-/
namespace ResourceAgent.CommandLine

variable {σ φ : Type}

namespace State

/-- The option of this name is given, with this change of the settings. -/
def give (s : State σ) (name : String) (update : σ → σ) : State σ :=
  { s with settings := update s.settings, given := name :: s.given }

/-- Nothing waits for a word, and a word may still be an option. -/
structure Clear (s : State σ) : Prop where
  pending_eq : s.pending = none
  operandsOnly_eq : s.operandsOnly = false

theorem Clear.give {s : State σ} (h : s.Clear) (name : String) (update : σ → σ) :
    (s.give name update).Clear := ⟨h.pending_eq, h.operandsOnly_eq⟩

theorem Clear.settle_eq {s : State σ} (h : s.Clear) : s.settle = .ok s := by
  unfold settle
  rw [h.pending_eq]

theorem Clear.finish_eq {s : State σ} (h : s.Clear) : s.finish = .ok s.settings := by
  rw [finish, h.settle_eq]
  rfl

theorem record_ok {s : State σ} {name : String} (h : name ∉ s.given) (update : σ → σ) :
    s.record name (.ok update) = .ok (s.give name update) := by
  rw [record, if_neg (by simpa using h)]
  rfl

end State

/-- The word gives the option of this name, with this change of the settings. -/
structure Level.Gives (level : Level σ) (word name : String) (update : σ → σ) : Prop where
  not_command : level.commands.contains word = false
  take_eq : ∀ s : State σ, s.Clear → name ∉ s.given → level.take s word = .ok (s.give name update)

/-- A long option with its value after an equals sign. -/
def attached (name value : String) : String := "--" ++ name ++ "=" ++ value

theorem toList_attached (name value : String) :
    (attached name value).toList = '-' :: '-' :: (name.toList ++ '=' :: value.toList) := by
  simp [attached, String.toList_append]

theorem forall_ne_of_not_mem {d : Char} {cs : List Char} (h : d ∉ cs) :
    ∀ c ∈ cs, decide (c ≠ d) = true :=
  fun _ hc => decide_eq_true fun he => h (he ▸ hc)

namespace Level

variable {level : Level σ} (spelling : String) {name : String} {update : σ → σ}

theorem gives_attached {value : String} {read : Reading σ} {otherName : Option String}
    {short : Option Char} (hlong : level.long? spelling = some ⟨name, otherName, short, .take read⟩)
    (hread : read value = .ok update) (heq : '=' ∉ spelling.toList)
    (hcommand : level.commands.contains (attached spelling value) = false) :
    level.Gives (attached spelling value) name update := by
  refine ⟨hcommand, ?_⟩
  intro s hs hgiven
  have hne := forall_ne_of_not_mem heq
  have hdrop : (spelling.toList ++ '=' :: value.toList).dropWhile (· ≠ '=') =
      '=' :: value.toList := by
    rw [List.dropWhile_append_of_pos hne]
    rfl
  have htake : (spelling.toList ++ '=' :: value.toList).takeWhile (· ≠ '=') = spelling.toList := by
    rw [List.takeWhile_append_of_pos hne]
    simp
  have hlongs : level.takeLong s (spelling.toList ++ '=' :: value.toList) =
      .ok (s.give name update) := by
    unfold takeLong
    rw [hdrop, htake, String.ofList_toList]
    simp only [hlong, State.attach, hs.settle_eq, String.ofList_toList, hread]
    exact State.record_ok hgiven update
  unfold take
  rw [hs.operandsOnly_eq, toList_attached, ← hlongs]
  cases spelling.toList <;> rfl

theorem gives_switch {otherName : Option String} {short : Option Char}
    (hlong : level.long? spelling = some ⟨name, otherName, short, .set update⟩)
    (hne : spelling.toList ≠ []) (heq : '=' ∉ spelling.toList)
    (hcommand : level.commands.contains ("--" ++ spelling) = false) :
    level.Gives ("--" ++ spelling) name update := by
  refine ⟨hcommand, ?_⟩
  intro s hs hgiven
  have hall := forall_ne_of_not_mem heq
  have hlongs : level.takeLong s spelling.toList = .ok (s.give name update) := by
    unfold takeLong
    rw [List.dropWhile_eq_nil_iff.mpr hall, List.takeWhile_eq_self_iff.mpr hall,
      String.ofList_toList]
    simp only [hlong, State.flag, hs.settle_eq]
    exact State.record_ok hgiven update
  have hword : ("--" ++ spelling).toList = '-' :: '-' :: spelling.toList := by
    simp [String.toList_append]
  unfold take
  rw [hs.operandsOnly_eq, hword, ← hlongs]
  cases hc : spelling.toList with
  | nil => exact absurd hc hne
  | cons c rest => rfl

theorem gives_short {c : Char} {otherName : Option String} {short : Option Char}
    (hshort : level.short? c = some ⟨name, otherName, short, .set update⟩) (hc : c ≠ '-')
    (hcommand : level.commands.contains (String.ofList ['-', c]) = false) :
    level.Gives (String.ofList ['-', c]) name update := by
  refine ⟨hcommand, ?_⟩
  intro s hs hgiven
  have hshorts : level.takeShort s [c] = .ok (s.give name update) := by
    simp only [takeShort, hshort, State.flag, hs.settle_eq]
    have hrecord := State.record_ok hgiven update
    simp only [bind, Except.bind, hrecord]
  unfold take
  rw [hs.operandsOnly_eq, String.toList_ofList, ← hshorts, if_neg Bool.false_ne_true]
  split
  · next he => exact absurd (List.cons.inj (List.cons.inj he).2).1 hc
  · next he => exact absurd (List.cons.inj (List.cons.inj he).2).1 hc
  · next he =>
      obtain ⟨rfl, rfl⟩ := List.cons.inj (List.cons.inj he).2
      rfl
  · next hnone => exact absurd rfl (hnone c [])

end Level

/-- Words of a level, each for an option that it gives. -/
structure Words (level : Level σ) (φ : Type) where
  word : φ → String
  option : φ → String
  update : φ → σ → σ
  gives : ∀ f, level.Gives (word f) (option f) (update f)
  commute : ∀ f g, option f ≠ option g → ∀ s, update f (update g s) = update g (update f s)

namespace Words

variable {level : Level σ} (w : Words level φ)

/-- Words for different options are taken one after the other. -/
theorem scan_append {flags : List φ} (hdistinct : (flags.map w.option).Nodup) {s : State σ}
    (hs : s.Clear) (hnew : ∀ f ∈ flags, w.option f ∉ s.given) (rest : List String) :
    ∃ s' : State σ, level.scan s (flags.map w.word ++ rest) = level.scan s' rest ∧ s'.Clear ∧
      s'.settings = flags.foldl (fun t f => w.update f t) s.settings := by
  induction flags generalizing s with
  | nil => exact ⟨s, rfl, hs, rfl⟩
  | cons f flags ih =>
      rw [List.map_cons, List.nodup_cons] at hdistinct
      obtain ⟨hf, hnew'⟩ := List.forall_mem_cons.mp hnew
      have hnext : ∀ g ∈ flags, w.option g ∉ (s.give (w.option f) (w.update f)).given := by
        intro g hg
        have hne : w.option g ≠ w.option f := fun he => hdistinct.1 (he ▸ List.mem_map_of_mem hg)
        simp [State.give, hne, hnew' g hg]
      obtain ⟨s', hscan, hclear, hsettings⟩ := ih hdistinct.2 (hs.give _ _) hnext
      refine ⟨s', ?_, hclear, hsettings⟩
      have hcommand : level.isCommand s (w.word f) = false := by
        rw [Level.isCommand, (w.gives f).not_command, Bool.and_false]
      rw [List.map_cons, List.cons_append, Level.scan, hcommand, (w.gives f).take_eq s hs hf]
      exact hscan

/-- Words for different options may be taken in any order. -/
theorem scan_perm {flags : List φ} (hdistinct : (flags.map w.option).Nodup) {words : List String}
    (hwords : words.Perm (flags.map w.word)) (settings : σ) (rest : List String) :
    ∃ s : State σ, level.scan { settings } (words ++ rest) = level.scan s rest ∧ s.Clear ∧
      s.settings = flags.foldl (fun t f => w.update f t) settings := by
  have hcomp := (congrFun₂ (List.eq_map_comp_perm w.word) words flags).mpr hwords
  obtain ⟨flags', rfl, hperm⟩ := hcomp
  have hdistinct' : (flags'.map w.option).Nodup := (hperm.map w.option).nodup_iff.mpr hdistinct
  obtain ⟨s, hscan, hclear, hsettings⟩ :=
    w.scan_append hdistinct' (s := { settings }) ⟨rfl, rfl⟩ (by simp) rest
  refine ⟨s, hscan, hclear, hsettings.trans ?_⟩
  apply hperm.foldl_eq'
  intro f hf g hg t
  by_cases heq : f = g
  · rw [heq]
  · have hne : w.option g ≠ w.option f := by
      intro he
      exact heq (List.inj_on_of_nodup_map hdistinct' hf hg he.symm)
    exact w.commute g f hne t

end Words

end ResourceAgent.CommandLine
