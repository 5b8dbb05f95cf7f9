import ResourceAgent.Report
import Mathlib.Data.List.Basic

/-!
# Attaching one dump after another

A report is coherent if its tree and its reason are those of the dump that it holds. A report
without a dump is coherent, and so is what one query makes of it. Attaching a further dump replaces
the dump, but of the tree and the reason only the one that the new dump has: what the dumps before
it left in the other place stays there. So a report holds the last dump, the last tree and the last
reason of all that was attached to it, and these belong together exactly if all dumps are outlines
or none is. An operation attaches at most one dump, to a report that has none.
-/
namespace ResourceAgent

namespace Outline

variable {dump : String}

/-- The dump is an outline. -/
def Readable (dump : String) : Prop := ∃ tree, parse dump = .ok tree

/-- The tree of a dump, if it is an outline. -/
def tree? (dump : String) : Option Tree :=
  match parse dump with
  | .ok tree => some tree
  | .error _ => none

/-- Why a dump is no outline, if it is none. -/
def reason? (dump : String) : Option String :=
  match parse dump with
  | .ok _ => none
  | .error e => some e.message

theorem tree?_eq_some_iff {tree : Tree} : tree? dump = some tree ↔ parse dump = .ok tree := by
  unfold tree?
  split <;> simp_all

theorem tree?_eq_none_iff : tree? dump = none ↔ ¬ Readable dump := by
  unfold tree? Readable
  split <;> simp_all

theorem reason?_eq_some_iff {message : String} :
    reason? dump = some message ↔ ∃ e, parse dump = .error e ∧ e.message = message := by
  unfold reason?
  split <;> simp_all

theorem reason?_eq_none_iff : reason? dump = none ↔ Readable dump := by
  unfold reason? Readable
  split <;> simp_all

instance (dump : String) : Decidable (Readable dump) := decidable_of_iff _ reason?_eq_none_iff

end Outline

/-- The dump that a query found. -/
def Pcs.Lookup.dump? : Pcs.Lookup → Option String
  | .found raw => some raw
  | .missing _ => none

namespace Report

variable {report : Report} {dumps : List String}

/-- The tree and the reason are those of the dump. -/
structure Coherent (report : Report) : Prop where
  resource_iff : ∀ {tree}, report.resource = some tree ↔
    ∃ raw, report.raw = some raw ∧ Outline.parse raw = .ok tree
  parseError_iff : ∀ {message}, report.parseError = some message ↔
    ∃ raw e, report.raw = some raw ∧ Outline.parse raw = .error e ∧ e.message = message

theorem coherent_iff : report.Coherent ↔ report.resource = report.raw.bind Outline.tree? ∧
    report.parseError = report.raw.bind Outline.reason? := by
  have htree : ∀ tree, report.raw.bind Outline.tree? = some tree ↔
      ∃ raw, report.raw = some raw ∧ Outline.parse raw = .ok tree := by
    simp [Option.bind_eq_some_iff, Outline.tree?_eq_some_iff]
  have hreason : ∀ message, report.raw.bind Outline.reason? = some message ↔
      ∃ raw e, report.raw = some raw ∧ Outline.parse raw = .error e ∧ e.message = message := by
    simp [Option.bind_eq_some_iff, Outline.reason?_eq_some_iff]
  constructor
  · rintro ⟨hr, he⟩
    exact ⟨Option.ext fun tree => hr.trans (htree tree).symm,
      Option.ext fun message => he.trans (hreason message).symm⟩
  · rintro ⟨hr, he⟩
    rw [← hr] at htree
    rw [← he] at hreason
    exact ⟨htree _, hreason _⟩

theorem coherent_bare (changed : Bool) (message : String) :
    ({ changed, message } : Report).Coherent :=
  coherent_iff.mpr ⟨rfl, rfl⟩

/-- The report with these dumps in place of its own: the last dump, the last tree that one of them
has, and the last reason. -/
def holding (report : Report) (dumps : List String) : Report :=
  { report with
    raw := dumps.getLast?
    resource := (dumps.filterMap Outline.tree?).getLast?
    parseError := (dumps.filterMap Outline.reason?).getLast? }

theorem getLast?_filterMap_concat {α β : Type} (f : α → Option β) (before : List α) (last : α) :
    ((before ++ [last]).filterMap f).getLast? = (f last).or (before.filterMap f).getLast? := by
  rw [List.filterMap_append, List.filterMap_cons, List.filterMap_nil]
  cases f last <;> simp

/-- A single dump is held with what it has. -/
theorem holding_toList (report : Report) (dump : Option String) :
    report.holding dump.toList =
      { report with
        raw := dump
        resource := dump.bind Outline.tree?
        parseError := dump.bind Outline.reason? } := by
  cases dump with
  | none => rfl
  | some dump =>
      have hone : ∀ {α : Type} (f : String → Option α), ([dump].filterMap f).getLast? = f dump :=
        fun f => (getLast?_filterMap_concat f [] dump).trans (by simp)
      simp only [holding, Option.toList_some, hone]
      rfl

/-- A report is coherent exactly if it holds nothing but its dump. -/
theorem coherent_iff_holding : report.Coherent ↔ report = report.holding report.raw.toList := by
  rw [coherent_iff, holding_toList]
  constructor
  · rintro ⟨hr, he⟩
    rw [← hr, ← he]
  · intro h
    exact ⟨congrArg resource h, congrArg parseError h⟩

instance (report : Report) : Decidable report.Coherent :=
  decidable_of_iff _ coherent_iff_holding.symm

/-- What is held belongs together exactly if all dumps are outlines or none is. -/
theorem coherent_holding_iff : (report.holding dumps).Coherent ↔
    (∀ dump ∈ dumps, Outline.Readable dump) ∨ ∀ dump ∈ dumps, ¬ Outline.Readable dump := by
  rw [coherent_iff]
  rcases dumps.eq_nil_or_concat with rfl | ⟨before, last, rfl⟩
  · simp [holding]
  simp only [holding, List.concat_eq_append, getLast?_filterMap_concat, List.getLast?_concat,
    Option.bind_some]
  cases hp : Outline.parse last with
  | ok tree =>
      have hlast : Outline.Readable last := ⟨tree, hp⟩
      rw [Outline.tree?_eq_some_iff.mpr hp, Outline.reason?_eq_none_iff.mpr hlast]
      simp [Outline.reason?_eq_none_iff, or_imp, forall_and, hlast]
  | error e =>
      have hlast : ¬ Outline.Readable last := by simp [Outline.Readable, hp]
      rw [Outline.tree?_eq_none_iff.mpr hlast, Outline.reason?_eq_some_iff.mpr ⟨e, hp, rfl⟩]
      simp [Outline.tree?_eq_none_iff, or_imp, forall_and, hlast]

/-- A further dump is held with those before it. -/
theorem withLookup_holding (report : Report) (dumps : List String) (lookup : Pcs.Lookup) :
    (report.holding dumps).withLookup lookup = report.holding (dumps ++ lookup.dump?.toList) := by
  cases lookup with
  | missing message => simp [withLookup, Pcs.Lookup.dump?]
  | found raw =>
      simp only [Pcs.Lookup.dump?, Option.toList_some, holding, getLast?_filterMap_concat]
      cases hp : Outline.parse raw with
      | ok tree => simp [withLookup, Outline.tree?, Outline.reason?, hp]
      | error e => simp [withLookup, Outline.tree?, Outline.reason?, hp]

/-- What the first query finds is all that a report holds then. -/
theorem withLookup_bare (changed : Bool) (message : String) (lookup : Pcs.Lookup) :
    ({ changed, message } : Report).withLookup lookup =
      ({ changed, message } : Report).holding lookup.dump?.toList :=
  withLookup_holding { changed, message } [] lookup

theorem coherent_withLookup_bare (changed : Bool) (message : String) (lookup : Pcs.Lookup) :
    (({ changed, message } : Report).withLookup lookup).Coherent := by
  rw [withLookup_bare, coherent_iff, holding_toList]
  exact ⟨rfl, rfl⟩

theorem foldl_withLookup_holding (report : Report) (dumps : List String)
    (lookups : List Pcs.Lookup) :
    lookups.foldl withLookup (report.holding dumps) =
      report.holding (dumps ++ lookups.filterMap Pcs.Lookup.dump?) := by
  induction lookups generalizing dumps with
  | nil => simp
  | cons lookup rest ih =>
      rw [List.foldl_cons, withLookup_holding, ih, List.append_assoc]
      cases lookup <;> rfl

/-- A coherent report holds its own dump, and after that those that were attached. -/
theorem Coherent.foldl_withLookup (h : report.Coherent) (lookups : List Pcs.Lookup) :
    lookups.foldl withLookup report =
      report.holding (report.raw.toList ++ lookups.filterMap Pcs.Lookup.dump?) := by
  have hown := coherent_iff_holding.mp h
  rw [← foldl_withLookup_holding, ← hown]

/-- A single dump keeps a report coherent unless it is of another kind than the report's own. -/
theorem Coherent.withLookup_iff (h : report.Coherent) (lookup : Pcs.Lookup) :
    (report.withLookup lookup).Coherent ↔
      ∀ old new, report.raw = some old → lookup = .found new →
        (Outline.Readable old ↔ Outline.Readable new) := by
  have hone : report.withLookup lookup =
      report.holding (report.raw.toList ++ [lookup].filterMap Pcs.Lookup.dump?) :=
    h.foldl_withLookup [lookup]
  rw [hone, coherent_holding_iff]
  cases report.raw with
  | none => cases lookup <;> simp [Pcs.Lookup.dump?, em]
  | some old =>
      cases lookup with
      | missing message => simp [Pcs.Lookup.dump?, em]
      | found new => simp [Pcs.Lookup.dump?, iff_iff_and_or_not_and_not]

/-- Attaching what queries find keeps a report coherent exactly as long as all its dumps are
outlines or none is. Then it holds nothing but the last dump; otherwise it also holds what a dump
before the last one has and the last one has not. A report that only has a message is coherent to
begin with. -/
theorem coherent_foldl_withLookup_iff (hr : report.Coherent) (lookups : List Pcs.Lookup) :
    (∀ lookup, (report.withLookup lookup).Coherent ↔
      ∀ old new, report.raw = some old → lookup = .found new →
        (Outline.Readable old ↔ Outline.Readable new)) ∧
    (let dumps := report.raw.toList ++ lookups.filterMap Pcs.Lookup.dump?
      let attached := lookups.foldl withLookup report
      attached = report.holding dumps ∧
        (attached.Coherent ↔ attached = report.holding dumps.getLast?.toList) ∧
        (attached.Coherent ↔ (∀ dump ∈ dumps, Outline.Readable dump) ∨
          ∀ dump ∈ dumps, ¬ Outline.Readable dump)) ∧
    ∀ message, (ofChanged message).Coherent ∧ (ofUnchanged message).Coherent := by
  refine ⟨hr.withLookup_iff, ?_, fun message => ⟨coherent_bare _ _, coherent_bare _ _⟩⟩
  intro dumps attached
  have hall : attached = report.holding dumps := hr.foldl_withLookup lookups
  refine ⟨hall, ?_, ?_⟩
  · rw [hall]
    exact coherent_iff_holding
  · rw [hall]
    exact coherent_holding_iff

/-- Dumps that are outlines, and a query that finds nothing, are attached to a report that has a
dump already. -/
theorem coherent_foldl_withLookup_iff_updated :
    let report := (ofChanged "created").withLookup (.found "db:1")
    let lookups : List Pcs.Lookup := [.found "db:2", .missing "gone", .found "db:3"]
    report.Coherent ∧ (lookups.foldl withLookup report).Coherent ∧
      lookups.foldl withLookup report = report.holding ["db:3"] := by
  intro report lookups
  have hr : report.Coherent := by decide +kernel
  obtain ⟨-, ⟨-, hlast, hiff⟩, -⟩ := coherent_foldl_withLookup_iff hr lookups
  have hc := hiff.mpr (.inl (by decide +kernel))
  refine ⟨hr, hc, (hlast.mp hc).trans ?_⟩
  have hraw : report.raw = some "db:1" := by decide +kernel
  rw [hraw]
  rfl

/-- A dump that is no outline takes the place of one that is, and the tree stays. -/
theorem withLookup_keeps_tree :
    let outline := "Resource: vip\n"
    let malformed := "Attributes:\n  ip=10.0.0.1\n"
    let report := (ofChanged "created").withLookup (.found outline)
    let attached := report.withLookup (.found malformed)
    report.Coherent ∧ attached.raw = some malformed ∧
      Outline.parse malformed = .error (.malformedLine 2) ∧
      attached.resource = some (.cons "Resource" (.leaf "vip") .nil) ∧ ¬ attached.Coherent := by
  decide +kernel

end Report

end ResourceAgent
