import ResourceAgent.Proofs.Outline.Diagnosis
import ResourceAgent.Proofs.Pcs.Verdict
import ResourceAgent.Proofs.Reconcile.Commands
import ResourceAgent.Proofs.Report

/-!
# A found resource can be parsed

Two tests tell whether a dump is empty. The client trims it as a whole, and the parser looks at it
line by line. Line endings are made of blanks, so the tests agree: however a text is divided into
lines, it is blank exactly if all its lines are. A dump that the client lets through therefore has a
line for the parser, and that there are none is said in no document.
-/
namespace ResourceAgent

/-- A text is blank exactly if each of its lines is. -/
theorem Text.isBlankText_iff_lines {text : String} :
    isBlankText text = true ↔ ∀ line ∈ lines text.toList, trim line = [] := by
  rw [isBlankText_iff, ← forall_mem_lines_iff (by decide) (by decide)]
  exact forall₂_congr fun line _ => trim_eq_nil_iff.symm

/-- A text has nothing to parse exactly if it is blank. -/
theorem Outline.parse_eq_emptyInput_iff_isBlankText {text : String} :
    parse text = .error .emptyInput ↔ Text.isBlankText text = true := by
  rw [parse_eq_emptyInput_iff, linesOf_eq_nil_iff, Text.isBlankText_iff_lines]
  refine forall₂_congr fun line _ => ?_
  rw [List.all_eq_true, Text.trim_eq_nil_iff]

namespace Pcs.Client

variable {client : Client} {name raw : String}

/-- What the client takes for a resource has a line for the parser. -/
theorem parse_ne_emptyInput_of_lookupOf {answer : Answer}
    (h : client.lookupOf name answer = .ok (.found raw)) :
    Outline.parse raw ≠ .error .emptyInput := by
  intro hp
  have hblank := Outline.parse_eq_emptyInput_iff_isBlankText.mp hp
  cases answer with
  | error failure => cases h
  | ok output =>
      have hclass := classified_classify client (.config name) output
      rw [lookupOf_ok] at h
      rw [h] at hclass
      cases hclass with
      | found _ _ _ hprints => exact hprints (isBlankText_stdout_iff.mp hblank)

theorem lookupOf_of_getResource {σ : Type} {runner : Runner σ} {state : σ} {lookup : Lookup}
    (h : ((client.getResource name).run.hold runner state).value = .ok lookup) :
    ∃ answer, client.lookupOf name answer = .ok lookup := by
  let answer := (runner (client.invocation (.config name) client.limit) state).answer
  have hv : .ok lookup = (client.lookupOf name answer).mapError Abort.failed :=
    h.symm.trans (congrArg Outcome.value (outcome_getResource runner state client name))
  refine ⟨answer, ?_⟩
  cases hl : client.lookupOf name answer with
  | error failure =>
      rw [hl] at hv
      cases hv
  | ok found =>
      rw [hl] at hv
      cases hv
      rfl

end Pcs.Client

/-- The document of the outcome says that there was nothing to parse. -/
def ReportsNoLines (value : Except Abort Report) : Prop :=
  ∃ document, documentOf value = some document ∧ document.parseError = some "no lines to parse"

/-- The report of a success never says so. -/
theorem Report.Concludes.parseError_ne {client : Pcs.Client} {name : String}
    {x : List (Invocation × Answer)} {report : Report} (h : report.Concludes client name x) :
    report.parseError ≠ some Outline.Error.emptyInput.message := by
  intro he
  cases h with
  | bare => cases he
  | @described changed message call answer lookup hq hl =>
      cases lookup with
      | missing text => cases he
      | found raw =>
          cases hp : Outline.parse raw with
          | ok tree =>
              rw [Manager.withLookup_of_parse_ok hp] at he
              cases he
          | error e =>
              rw [Manager.withLookup_of_parse_error hp, Option.some.injEq] at he
              have hempty := Outline.Error.message_injective he
              exact Pcs.Client.parse_ne_emptyInput_of_lookupOf hl (hempty ▸ hp)

/-- So only the document of a failure does. -/
theorem reportsNoLines_iff {client : Pcs.Client} {name : String}
    {x : List (Invocation × Answer)} {value : Except Abort Report}
    (h : ∀ {report}, value = .ok report → report.Concludes client name x) :
    ReportsNoLines value ↔ value = .error (.failed (.outline .emptyInput)) := by
  constructor
  · intro hr
    obtain ⟨document, hd, he⟩ := hr
    match value, hd with
    | .ok report, rfl => exact absurd he (h rfl).parseError_ne
    | .error (.failed failure), rfl =>
        obtain ⟨e, rfl, hm⟩ := (Report.fails_ofFailure failure).parseError_iff.mp he
        have hempty : e = .emptyInput := Outline.Error.message_injective hm
        rw [hempty]
  · intro hv
    rw [hv]
    exact ⟨_, rfl, rfl⟩

namespace Manager

variable {m : Manager} {p : Params} {name : String} {answer : Answer}
  {x : List (Invocation × Answer)} {value : Except Abort Report} {call : Invocation}

/-- An operation ends with the failure of the runner. -/
theorem Course.value_of_error (hc : Course m p x value) {failure : Failure}
    (hx : (call, .error failure) ∈ x) : value = .error (.failed failure) := by
  obtain ⟨i, hi⟩ := List.mem_iff_getElem?.mp hx
  refine (hc.failing hi ?_).2
  cases (hc.issues hx).2 with
  | query => exact m.client.fails_of_error _ _ failure
  | change _ _ => exact m.client.fails_of_error _ _ failure

theorem Course.reportsNoLines_iff (hc : Course m p x value) :
    ReportsNoLines value ↔ ∃ call, (call, .error (.outline .emptyInput)) ∈ x := by
  rw [ResourceAgent.reportsNoLines_iff hc.concludes]
  constructor
  · exact hc.exists_outline
  · intro h
    obtain ⟨call, hx⟩ := h
    exact hc.value_of_error hx

theorem Inspection.reportsNoLines_iff (hc : Inspection m name answer x value) :
    ReportsNoLines value ↔ ∃ call, (call, .error (.outline .emptyInput)) ∈ x := by
  rw [ResourceAgent.reportsNoLines_iff hc.concludes]
  constructor
  · intro hv
    cases hc with
    | queryFailed hl =>
        cases hv
        rcases Pcs.Client.lookupOf_eq_error hl with rfl | hb
        · exact ⟨_, List.mem_cons_self⟩
        · cases hb
    | missing hl => cases hv
    | unreadable hl hp =>
        cases hv
        exact absurd hp (Pcs.Client.parse_ne_emptyInput_of_lookupOf hl)
    | described hl hp => cases hv
  · intro h
    obtain ⟨call, hx⟩ := h
    rw [hc.exchanges_eq] at hx
    cases List.mem_singleton.mp hx
    cases hc with
    | queryFailed hl =>
        cases hl
        rfl
    | missing hl => cases hl
    | unreadable hl hp => cases hl
    | described hl hp => cases hl

variable {σ : Type} (runner : Runner σ) (state : σ)

/-- The tests for an empty dump agree on every text, and what the client takes for a resource has
something to parse. So no document of an operation or of a report on a resource says that there was
nothing, unless a runner says so in place of an answer, which that of a machine never does. -/
theorem found_parsable (m : Manager) (p : Params) (name : String) :
    (∀ text : String,
      (Text.isBlankText text = true ↔
        ∀ line ∈ Text.lines text.toList, Text.trim line = []) ∧
      (Outline.parse text = .error .emptyInput ↔ Text.isBlankText text = true)) ∧
    (∀ (client : Pcs.Client) (raw : String),
      ((client.getResource name).run.hold runner state).value = .ok (.found raw) →
        Outline.parse raw ≠ .error .emptyInput) ∧
    ∀ work ∈ [m.ensure p, m.info name],
      (ReportsNoLines (work.run.hold runner state).value ↔
        ∃ call, (call, .error (.outline .emptyInput)) ∈ work.run.exchanges runner state) ∧
      ∀ machine : Machine σ, ¬ ReportsNoLines (work.run.hold machine.run state).value := by
  have hreports : ∀ (runner : Runner σ), ∀ work ∈ [m.ensure p, m.info name],
      (ReportsNoLines (work.run.hold runner state).value ↔
        ∃ call, (call, .error (.outline .emptyInput)) ∈ work.run.exchanges runner state) := by
    intro runner
    rw [List.forall_mem_cons, List.forall_mem_singleton]
    exact ⟨(ensure_course runner state m p).reportsNoLines_iff,
      (info_course runner state m name).reportsNoLines_iff⟩
  refine ⟨?_, ?_, ?_⟩
  · intro text
    exact ⟨Text.isBlankText_iff_lines, Outline.parse_eq_emptyInput_iff_isBlankText⟩
  · intro client raw hfound
    obtain ⟨answer, hl⟩ := Pcs.Client.lookupOf_of_getResource hfound
    exact Pcs.Client.parse_ne_emptyInput_of_lookupOf hl
  · intro work hw
    refine ⟨hreports runner work hw, ?_⟩
    intro machine h
    obtain ⟨call, hx⟩ := (hreports machine.run work hw).mp h
    cases Machine.ofRunner_of_mem_exchanges hx

/-- Characters that are trimmed and end no line: alone they are no resource, and with a word among
them they are one, although not an outline. -/
theorem found_parsable_unbroken :
    let m : Manager := { }
    let p : Params := { name := "db", resources := [{ type := "Dummy" }] }
    let blank := "\x0b\r\x85\u2028"
    let raw := "\x0b\r\x85\u2028db"
    let answers : List Answer := [.ok { stdout := raw }]
    Outline.parse blank = .error .emptyInput ∧
      ((m.client.getResource "db").run.hold scripted answers).value = .ok (.found raw) ∧
      Outline.parse raw ≠ .error .emptyInput ∧
      ∀ work ∈ [m.ensure p, m.info "db"],
        ¬ ReportsNoLines (work.run.hold scripted answers).value := by
  intro m p blank raw answers
  have hblank : Text.isBlankText blank = true := by decide +kernel
  have hfound : ((m.client.getResource "db").run.hold scripted answers).value =
      .ok (.found raw) := by decide +kernel
  obtain ⟨htexts, hlookup, hreports⟩ := found_parsable scripted answers m p "db"
  refine ⟨(htexts blank).2.mpr hblank, hfound, hlookup m.client raw hfound, ?_⟩
  intro work hw h
  obtain ⟨call, hx⟩ := (hreports work hw).1.mp h
  rw [List.mem_cons, List.mem_singleton] at hw
  rcases hw with rfl | rfl
  · have hanswers : ((m.ensure p).run.exchanges scripted answers).map Prod.snd = answers := by
      decide +kernel
    cases List.mem_singleton.mp (hanswers ▸ List.mem_map_of_mem hx)
  · have hanswers : ((m.info "db").run.exchanges scripted answers).map Prod.snd = answers := by
      decide +kernel
    cases List.mem_singleton.mp (hanswers ▸ List.mem_map_of_mem hx)

end Manager

end ResourceAgent
