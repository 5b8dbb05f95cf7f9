import ResourceAgent.Machine.Local
import ResourceAgent.Proofs.Reconcile.Discipline
import ResourceAgent.Proofs.Report.Attachment

/-!
# The document of an operation

Work on a resource ends with one document: its report, or the report of its failure. Only a move
whose time limit cannot be extended ends without one. What a document says agrees with itself and
with the last query; but a change that was made is missing from it where the query after the change
fails, because the document is then that of the failure.
-/
namespace ResourceAgent

/-- The document that is handed to the caller. -/
def documentOf : Except Abort Report → Option Report
  | .ok report => some report
  | .error (.failed failure) => some (.ofFailure failure)
  | .error .limitOverflow | .error .garbledVariable => none

theorem documentOf_eq_none {value : Except Abort Report} (h : documentOf value = none) :
    value = .error .limitOverflow ∨ value = .error .garbledVariable := by
  cases value with
  | ok report => cases h
  | error abort =>
      cases abort with
      | failed failure => cases h
      | limitOverflow => exact .inl rfl
      | garbledVariable => exact .inr rfl

/-- The command asks for the configuration of a resource, as its arguments tell. -/
def Invocation.queries (call : Invocation) : Bool := call.args[1]? == some "config"

/-- The last query, with its answer. -/
def lastQuery (x : List (Invocation × Answer)) : Option (Invocation × Answer) :=
  (x.filter (·.1.queries)).getLast?

theorem lastQuery_concat (x : List (Invocation × Answer)) {call : Invocation} {answer : Answer}
    (h : call.queries = true) : lastQuery (x ++ [(call, answer)]) = some (call, answer) := by
  simp [lastQuery, h]

theorem Pcs.Lookup.exists_raw {lookup : Pcs.Lookup} (h : lookup.exists? = true) :
    ∃ raw, lookup = .found raw := by
  cases lookup with
  | found raw => exact ⟨raw, rfl⟩
  | missing message => cases h

theorem Duration.addSeconds?_eq_none_iff {d : Duration} {n : Nat} :
    d.addSeconds? n = none ↔ Text.wordLimit ≤ d.seconds.toNat + n := by
  unfold addSeconds?
  split_ifs with h
  · simpa using h
  · simpa using h

/-- Only the time of a move has to be extended. -/
theorem Params.Prescribes.deadline?_eq_none_iff {p : Params} {found : Bool} {change : Pcs.Command}
    (h : p.Prescribes found change) : p.deadline? change = none ↔
      p.state = .relocated ∧ Text.wordLimit ≤ p.timeout.toNat + Pcs.moveGrace ∧ found = true := by
  cases h with
  | move hs hn =>
      rw [deadline?, Duration.addSeconds?_eq_none_iff]
      simp [Duration.ofSeconds, hs]
  | create hs _ => simp [deadline?, hs]
  | update hs _ => simp [deadline?, hs]
  | delete hs => simp [deadline?, hs]

namespace Pcs.Client

variable {client : Client} {name : String} {answer : Answer}

/-- The dump of a resource that is found is what the query printed. -/
theorem stdout_of_lookupOf {raw : String} (h : client.lookupOf name answer = .ok (.found raw)) :
    ∃ output, answer = .ok output ∧ output.stdout = raw := by
  cases answer with
  | error failure => cases h
  | ok output =>
      refine ⟨output, rfl, ?_⟩
      simp only [lookupOf_ok, classify] at h
      split_ifs at h <;> cases h
      rfl

end Pcs.Client

/-- A failure to run a command to its end: it cannot be started, or it takes too long. -/
def Failure.ofRunner : Failure → Bool
  | .process _ none _ _ => true
  | .timeout _ => true
  | _ => false

/-- The runner of a machine fails in no other way. -/
theorem Machine.ofRunner_of_run {σ : Type} {machine : Machine σ} {call : Invocation} {state : σ}
    {failure : Failure} (h : (machine.run call state).answer = .error failure) :
    failure.ofRunner = true := by
  have hstart : machine.start call = .error failure → failure.ofRunner = true := by
    intro hs
    unfold Machine.start at hs
    split_ifs at hs
    · cases hs
      rfl
    · cases hs
      rfl
    · cases hs
      rfl
    · split at hs
      · cases hs
        rfl
      · split at hs
        · cases hs
        · cases hs
          rfl
  unfold Machine.run at h
  split at h
  · next failure' hs =>
      cases h
      exact hstart hs
  · dsimp only at h
    split_ifs at h
    cases h
    rfl

theorem Machine.ofRunner_of_mem_exchanges {σ α : Type} {machine : Machine σ} {state : σ}
    {work : Work α} {call : Invocation} {failure : Failure}
    (hx : (call, .error failure) ∈ work.run.exchanges machine.run state) :
    failure.ofRunner = true := by
  obtain ⟨s, hs⟩ := (Dialogue.answered_exchanges machine.run state work.run).exists_state hx
  exact ofRunner_of_run hs.symm

theorem Machine.run_ne_outline {σ : Type} (machine : Machine σ) (call : Invocation) (state : σ)
    (e : Outline.Error) : (machine.run call state).answer ≠ .error (.outline e) := by
  intro h
  cases ofRunner_of_run h

namespace Report

variable {x : List (Invocation × Answer)} {value : Except Abort Report} {report : Report}

/-- What the document of a success holds. -/
structure Succeeds (report : Report) (x : List (Invocation × Answer)) : Prop where
  exitCode : report.exitCode = none
  output : report.output = none
  errorOutput : report.errorOutput = none
  /-- The dump is what the last query printed. -/
  raw : ∀ {raw}, report.raw = some raw →
    ∃ call output, lastQuery x = some (call, .ok output) ∧ output.stdout = raw
  resource_iff : ∀ {tree}, report.resource = some tree ↔
    ∃ raw, report.raw = some raw ∧ Outline.parse raw = .ok tree
  parseError_iff : ∀ {message}, report.parseError = some message ↔
    ∃ raw e, report.raw = some raw ∧ Outline.parse raw = .error e ∧ e.message = message

structure Fails (report : Report) (failure : Failure) : Prop where
  changed : report.changed = false
  resource : report.resource = none
  raw : report.raw = none
  /-- Both streams are there exactly for a failed command. -/
  streams_iff : ∀ {stdout stderr}, report.output = some stdout ∧ report.errorOutput = some stderr ↔
    ∃ command exitCode, failure = .process command exitCode stdout stderr
  exitCode : ∀ {command exitCode stdout stderr},
    failure = .process command exitCode stdout stderr → report.exitCode = exitCode
  parseError_iff : ∀ {message}, report.parseError = some message ↔
    ∃ e, failure = .outline e ∧ e.message = message

/-- A document agrees with what was asked and answered and with what came of it. -/
structure Consistent (report : Report) (x : List (Invocation × Answer))
    (value : Except Abort Report) : Prop where
  success : report.failed = false → report.Succeeds x
  failure : report.failed = true →
    ∃ failure, value = .error (.failed failure) ∧ report.Fails failure

/-- The report of a success: a flag and a message, and it may be what the last query found. -/
inductive Concludes (client : Pcs.Client) (name : String) (x : List (Invocation × Answer)) :
    Report → Prop
  | bare {changed : Bool} {message : String} : Concludes client name x { changed, message }
  | described {changed : Bool} {message : String} {call : Invocation} {answer : Answer}
      {lookup : Pcs.Lookup} : lastQuery x = some (call, answer) →
      client.lookupOf name answer = .ok lookup →
      Concludes client name x (({ changed, message } : Report).withLookup lookup)

variable {client : Pcs.Client} {name : String}

theorem succeeds_bare (changed : Bool) (message : String) :
    ({ changed, message } : Report).Succeeds x where
  exitCode := rfl
  output := rfl
  errorOutput := rfl
  raw := nofun
  resource_iff := by simp
  parseError_iff := by simp

theorem Concludes.succeeds (h : Concludes client name x report) :
    report.failed = false ∧ report.Succeeds x := by
  cases h with
  | bare => exact ⟨rfl, succeeds_bare _ _⟩
  | @described changed message call answer lookup hq hl =>
      have hc := coherent_withLookup_bare changed message lookup
      rw [withLookup_bare] at hc ⊢
      refine ⟨rfl, rfl, rfl, rfl, ?_, hc.resource_iff, hc.parseError_iff⟩
      intro raw hraw
      cases lookup with
      | missing text => cases hraw
      | found raw' =>
          cases hraw
          obtain ⟨output, rfl, hs⟩ := Pcs.Client.stdout_of_lookupOf hl
          exact ⟨call, output, hq, hs⟩

theorem fails_ofFailure (failure : Failure) : (ofFailure failure).Fails failure := by
  cases failure with
  | process command exitCode stdout stderr =>
      refine ⟨rfl, rfl, rfl, by simp [ofFailure], ?_, by simp [ofFailure]⟩
      rintro _ _ _ _ ⟨⟩
      rfl
  | outline e => exact ⟨rfl, rfl, rfl, by simp [ofFailure], nofun, by simp [ofFailure]⟩
  | _ => exact ⟨rfl, rfl, rfl, by simp [ofFailure], nofun, by simp [ofFailure]⟩

theorem failed_ofFailure (failure : Failure) : (ofFailure failure).failed = true := by
  cases failure <;> rfl

/-- A document is consistent if every report of a success is made from the last query. -/
theorem consistent_of_concludes
    (h : ∀ {report}, value = .ok report → Concludes client name x report)
    (hd : documentOf value = some report) : report.Consistent x value := by
  match value, hd with
  | .ok _, rfl =>
      obtain ⟨hf, hs⟩ := (h rfl).succeeds
      exact ⟨fun _ => hs, fun ht => by cases hf.symm.trans ht⟩
  | .error (.failed failure), rfl =>
      have hf := failed_ofFailure failure
      refine ⟨fun ht => ?_, fun _ => ⟨failure, rfl, fails_ofFailure failure⟩⟩
      cases hf.symm.trans ht

end Report

namespace Manager

variable {m : Manager} {p : Params} {lookup : Pcs.Lookup} {x : List (Invocation × Answer)}
  {value : Except Abort Report} {report : Report} {name : String} {answer : Answer}

theorem queries_query (m : Manager) (p : Params) : (m.query p).queries = true := rfl

theorem Course.concludes (hc : Course m p x value) (hr : value = .ok report) :
    report.Concludes m.client p.name x := by
  cases hc with
  | refused hv => cases hr
  | queryFailed hv hl => cases hr
  | onward hv hl ho =>
      cases ho with
      | settled hs =>
          cases hr
          exact .described rfl hl
      | missing hn he => cases hr
      | foreseen hp hm =>
          cases hr
          unfold Params.foreseenReport
          split
          · exact .bare
          · exact .described rfl hl
      | overflow hp hm hd => cases hr
      | change hp hm hd ha =>
          cases ha with
          | failed ho => cases hr
          | deleted ho hs =>
              cases hr
              exact .bare
          | queryFailed ho hs hq => cases hr
          | described ho hs hq =>
              cases hr
              exact .described (lastQuery_concat [_, _] (queries_query m p)) hq

theorem Inspection.concludes (hc : Inspection m name answer x value) (hr : value = .ok report) :
    report.Concludes m.client name x := by
  cases hc with
  | queryFailed hl => cases hr
  | missing hl =>
      cases hr
      exact .bare
  | unreadable hl hp => cases hr
  | described hl hp =>
      cases hr
      exact .described rfl hl

/-- A report on a resource is never made from a dump that is no outline. -/
theorem Inspection.parseError_eq_none (hc : Inspection m name answer x value)
    (hr : value = .ok report) : report.parseError = none := by
  cases hc with
  | queryFailed hl => cases hr
  | missing hl =>
      cases hr
      rfl
  | unreadable hl hp => cases hr
  | described hl hp =>
      cases hr
      rw [withLookup_of_parse_ok hp]
      rfl

/-- Where the failure of an operation comes from. -/
theorem Course.failure (hc : Course m p x value) {failure : Failure}
    (he : value = .error (.failed failure)) :
    (∃ defect, p.validate = .error defect ∧ failure = .validation defect.message) ∨
      failure = .resourceMissing p.missingReason ∨
      ∃ call answer, (call, answer) ∈ x ∧ m.client.Fails call answer failure := by
  cases hc with
  | refused hv =>
      cases he
      exact .inl ⟨_, hv, rfl⟩
  | queryFailed hv hl =>
      cases he
      exact .inr (.inr ⟨_, _, by simp, fails_query_iff.mpr hl⟩)
  | onward hv hl ho =>
      cases ho with
      | settled hs => cases he
      | missing hn hm =>
          cases he
          exact .inr (.inl rfl)
      | foreseen hp hm => cases he
      | overflow hp hm hd => cases he
      | change hp hm hd ha =>
          cases ha with
          | failed hr =>
              cases he
              exact .inr (.inr ⟨_, _, List.mem_cons_of_mem _ List.mem_cons_self,
                .change hp.mutates hr⟩)
          | deleted hr hs => cases he
          | queryFailed hr hs hq =>
              cases he
              exact .inr (.inr ⟨_, _, by simp, fails_query_iff.mpr hq⟩)
          | described hr hs hq => cases he

/-- A failure that no other part of the operation comes to is the failure of the runner. -/
theorem Course.exists_answer (hc : Course m p x value) {failure : Failure}
    (he : value = .error (.failed failure))
    (hvalid : ∀ defect, p.validate = .error defect → failure ≠ .validation defect.message)
    (hmissing : failure ≠ .resourceMissing p.missingReason)
    (hblames : Pcs.Client.blamesOutput failure = false) :
    ∃ call, (call, .error failure) ∈ x := by
  rcases hc.failure he with ⟨defect, hv, hd⟩ | hd | ⟨call, answer, hmem, hf⟩
  · exact absurd hd (hvalid defect hv)
  · exact absurd hd hmissing
  · rcases hf.eq_error_or_blames with rfl | hb
    · exact ⟨call, hmem⟩
    · cases hblames.symm.trans hb

/-- That a dump is no outline never ends an operation, unless the runner itself fails so. -/
theorem Course.exists_outline (hc : Course m p x value) {e : Outline.Error}
    (he : value = .error (.failed (.outline e))) : ∃ call, (call, .error (.outline e)) ∈ x :=
  hc.exists_answer he (fun _ _ h => nomatch h) (fun h => nomatch h) rfl

theorem Course.ne_outline (hc : Course m p x value)
    (hx : ∀ call e, (call, .error (.outline e)) ∉ x) (e : Outline.Error) :
    value ≠ .error (.failed (.outline e)) := by
  intro he
  obtain ⟨call, hmem⟩ := hc.exists_outline he
  exact hx call e hmem

/-- A change that went well is followed by a query that tells what came of it, or by one that
fails, and then the operation fails with it. -/
theorem Course.committed (hc : Course m p x value) {call : Invocation} {output : Output}
    (hx : (call, .ok output) ∈ x) (hm : call.mutates = true) (h0 : output.exitCode = 0) :
    (∃ report, value = .ok report ∧ report.changed = true ∧
        ∀ requeried failure, x[2]? = some (m.query p, requeried) →
          m.client.lookupOf p.name requeried ≠ .error failure) ∨
      ∃ requeried failure, x[2]? = some (m.query p, requeried) ∧
        m.client.lookupOf p.name requeried = .error failure ∧
        value = .error (.failed failure) := by
  cases hc with
  | refused hv => cases hx
  | queryFailed hv hl =>
      cases List.mem_singleton.mp hx
      cases hm.symm.trans (mutates_query m p)
  | onward hv hl ho =>
      rcases List.mem_cons.mp hx with he | hx
      · cases he
        cases hm.symm.trans (mutates_query m p)
      · cases ho with
        | change hp hc hd ha =>
            cases ha with
            | failed hr =>
                cases List.mem_singleton.mp hx
                cases hr.symm.trans (Pcs.Client.resultOf_eq_ok_iff.mpr ⟨rfl, h0⟩)
            | deleted hr hs =>
                refine .inl ⟨_, rfl, rfl, ?_⟩
                intro requeried failure hq
                cases hq
            | queryFailed hr hs hq => exact .inr ⟨_, _, rfl, hq, rfl⟩
            | described hr hs hq =>
                refine .inl ⟨_, rfl, changed_withLookup _ _, ?_⟩
                rintro requeried failure ⟨⟩ hf
                cases hq.symm.trans hf
        | _ => cases hx

/-- An operation does not look at the environment. -/
theorem Course.ne_garbledVariable (hc : Course m p x value) : value ≠ .error .garbledVariable := by
  rintro rfl
  cases hc with
  | onward hv hl ho =>
      cases ho with
      | change hp hm hd ha => cases ha

variable {σ : Type} (runner : Runner σ) (state : σ)

/-- An operation is given up without a document for one reason: a resource that was found cannot be
moved, because the time of the move cannot be extended. -/
theorem Course.overflow_iff {runner : Runner σ} {state final : σ} (hc : Course m p x value)
    (ha : Dialogue.Answered runner state x final) :
    value = .error .limitOverflow ↔ p.validate = .ok () ∧ m.checkMode = false ∧
      p.state = .relocated ∧ Text.wordLimit ≤ p.timeout.toNat + Pcs.moveGrace ∧
      ∃ raw, m.client.lookupOf p.name (runner (m.query p) state).answer = .ok (.found raw) := by
  constructor
  · rintro rfl
    cases hc with
    | onward hv hl ho =>
        cases ha with
        | cons ha =>
            cases ho with
            | overflow hp hm hd =>
                obtain ⟨hs, ht, he⟩ := hp.deadline?_eq_none_iff.mp hd
                obtain ⟨raw, rfl⟩ := Pcs.Lookup.exists_raw he
                exact ⟨hv, hm, hs, ht, raw, hl⟩
            | change hp hm hd ha' => cases ha'
  · rintro ⟨hv, hm, hs, ht, raw, hf⟩
    cases hc with
    | refused hd => cases hd.symm.trans hv
    | queryFailed _ hl =>
        cases ha with
        | cons ha => cases hl.symm.trans hf
    | onward _ hl ho =>
        cases ha with
        | cons ha =>
            cases hl.symm.trans hf
            cases ho with
            | settled hs' =>
                cases hs' with
                | present hp => cases hs.symm.trans hp
            | missing hn he => cases he
            | foreseen hp hc => cases hc.symm.trans hm
            | overflow hp hc hd => rfl
            | change hp hc hd ha' =>
                cases hd.symm.trans (hp.deadline?_eq_none_iff.mpr ⟨hs, ht, rfl⟩)

/-- Every document is consistent. That a dump is no outline ends no operation, unless a runner
says so in place of an answer, which that of a machine never does. -/
theorem documents_consistent (m : Manager) (p : Params) (name : String) :
    (let t := (m.ensure p).run.hold runner state
      let x := (m.ensure p).run.exchanges runner state
      t.calls = x.map Prod.fst ∧
        (∀ document, documentOf t.value = some document → document.Consistent x t.value) ∧
        ((∀ call e, (call, .error (.outline e)) ∉ x) →
          ∀ e, t.value ≠ .error (.failed (.outline e)))) ∧
      (∀ (machine : Machine σ) (e : Outline.Error),
        ((m.ensure p).run.hold machine.run state).value ≠ .error (.failed (.outline e))) ∧
      (let t := (m.info name).run.hold runner state
        let x := (m.info name).run.exchanges runner state
        t.calls = x.map Prod.fst ∧
          ∀ document, documentOf t.value = some document → document.Consistent x t.value ∧
            (document.failed = false → document.parseError = none)) := by
  refine ⟨?_, ?_, ?_⟩
  · intro t x
    have hc : Course m p x t.value := ensure_course runner state m p
    exact ⟨Dialogue.calls_hold runner state _,
      fun document hd => Report.consistent_of_concludes hc.concludes hd, hc.ne_outline⟩
  · intro machine e
    have hc := ensure_course machine.run state m p
    refine hc.ne_outline ?_ e
    intro call e hx
    have ha := Dialogue.answered_exchanges machine.run state (m.ensure p).run
    obtain ⟨s, hs⟩ := ha.exists_state hx
    exact machine.run_ne_outline call s e hs.symm
  · intro t x
    have hc := info_course runner state m name
    refine ⟨Dialogue.calls_hold runner state _, fun document hd => ?_⟩
    have hd' := Report.consistent_of_concludes hc.concludes hd
    refine ⟨hd', fun hf => ?_⟩
    cases hv : t.value with
    | ok report =>
        rw [hv] at hd
        cases hd
        exact hc.parseError_eq_none hv
    | error abort =>
        rw [hv] at hd
        cases abort with
        | limitOverflow => cases hd
        | garbledVariable => cases hd
        | failed failure =>
            cases hd
            cases hf.symm.trans (Report.failed_ofFailure failure)

/-- A dump that is no outline: the operation succeeds and the report on the resource fails. -/
theorem documents_consistent_unreadable :
    let m : Manager := { }
    let p : Params := { name := "db", resources := [{ type := "Dummy" }] }
    let answers : List Answer := [.ok { stdout := "Attributes:" }]
    let t := (m.ensure p).run.hold scripted answers
    let t' := (m.info "db").run.hold scripted answers
    let e : Outline.Error := .incompleteSection 1 "Attributes"
    let document : Report :=
      { message := "Resource db already exists", raw := some "Attributes:",
        parseError := some e.message }
    documentOf t.value = some document ∧ documentOf t'.value = some (.ofFailure (.outline e)) ∧
      document.Consistent ((m.ensure p).run.exchanges scripted answers) t.value ∧
      (Report.ofFailure (.outline e)).Consistent
        ((m.info "db").run.exchanges scripted answers) t'.value := by
  intro m p answers t t' e document
  have hd : documentOf t.value = some document := by decide +kernel
  have hd' : documentOf t'.value = some (.ofFailure (.outline e)) := by decide +kernel
  obtain ⟨⟨-, h, -⟩, -, -, h'⟩ := documents_consistent scripted answers m p "db"
  exact ⟨hd, hd', h _ hd, (h' _ hd').1⟩

/-- Valid parameters are no guarantee of a document: the validation bounds the time limit from below
only. In all other cases there is one. -/
theorem ensure_overflow_iff (m : Manager) (p : Params) :
    let value := ((m.ensure p).run.hold runner state).value
    (value = .error .limitOverflow ↔
      p.validate = .ok () ∧ m.checkMode = false ∧ p.state = .relocated ∧
        Text.wordLimit ≤ p.timeout.toNat + Pcs.moveGrace ∧
        ∃ raw, m.client.lookupOf p.name (runner (m.query p) state).answer = .ok (.found raw)) ∧
      (documentOf value = none → value = .error .limitOverflow) := by
  intro value
  have hc : Course m p _ value := ensure_course runner state m p
  refine ⟨hc.overflow_iff (Dialogue.answered_exchanges runner state _), fun hd => ?_⟩
  exact (documentOf_eq_none hd).resolve_right hc.ne_garbledVariable

/-- The longest time limit that can be written is valid, and a move with it is given up. -/
theorem ensure_overflow_move :
    let m : Manager := { }
    let p : Params :=
      { name := "vip", state := .relocated, node := some "node2", timeout := 18446744073709551615 }
    let answers : List Answer := [.ok { stdout := "Resource: vip" }]
    p.validate = .ok () ∧
      ((m.ensure p).run.hold scripted answers).value = .error .limitOverflow := by
  decide +kernel

/-- A change that went well is in the document, except where the query after it fails. -/
theorem ensure_reports_change_iff (m : Manager) (p : Params) {call : Invocation} {output : Output}
    (hx : (call, .ok output) ∈ (m.ensure p).run.exchanges runner state)
    (hm : call.mutates = true) (h0 : output.exitCode = 0) :
    let t := (m.ensure p).run.hold runner state
    let x := (m.ensure p).run.exchanges runner state
    ∃ document, documentOf t.value = some document ∧ (document.changed = true ↔
      ∀ requeried failure, x[2]? = some (m.query p, requeried) →
        m.client.lookupOf p.name requeried ≠ .error failure) := by
  intro t x
  have hc : Course m p x t.value := ensure_course runner state m p
  rcases hc.committed hx hm h0 with ⟨report, hv, hr, hq⟩ | ⟨requeried, failure, hq, hl, hv⟩
  · rw [hv]
    exact ⟨report, rfl, fun _ => hq, fun _ => hr⟩
  · rw [hv]
    refine ⟨_, rfl, fun ht => ?_, fun h => absurd hl (h requeried failure hq)⟩
    cases ht.symm.trans (Report.fails_ofFailure failure).changed

/-- A resource is created and found, and the document says so. -/
theorem ensure_reports_change_create :
    let m : Manager := { }
    let p : Params := { name := "db", resources := [{ type := "Dummy" }] }
    let answers : List Answer :=
      [.ok { exitCode := 1, stderr := "Error: No resource found" }, .ok { },
        .ok { stdout := "db:1" }]
    let t := (m.ensure p).run.hold scripted answers
    let create := m.client.invocation (.create "db" { type := "Dummy" }) (.ofSeconds 300)
    (create, .ok { }) ∈ (m.ensure p).run.exchanges scripted answers ∧
      ∃ document, documentOf t.value = some document ∧ document.changed = true := by
  intro m p answers t create
  have hx : (create, .ok { }) ∈ (m.ensure p).run.exchanges scripted answers := by decide +kernel
  have hlast : ((m.ensure p).run.exchanges scripted answers)[2]? =
      some (m.query p, .ok { stdout := "db:1" }) := by decide +kernel
  obtain ⟨document, hd, hiff⟩ := ensure_reports_change_iff scripted answers m p hx rfl rfl
  refine ⟨hx, document, hd, hiff.mpr ?_⟩
  intro requeried failure hq hf
  cases hlast.symm.trans hq
  have hl : m.client.lookupOf p.name (.ok { stdout := "db:1" }) = .ok (.found "db:1") := by
    decide +kernel
  cases hl.symm.trans hf

/-- A resource is created, the query after that runs out of time, and the document tells of no
change. -/
theorem ensure_loses_change :
    let m : Manager := { }
    let p : Params := { name := "db", resources := [{ type := "Dummy" }] }
    let answers : List Answer :=
      [.ok { exitCode := 1, stderr := "Error: No resource found" }, .ok { },
        .error (.timeout "slow")]
    let t := (m.ensure p).run.hold scripted answers
    let create := m.client.invocation (.create "db" { type := "Dummy" }) (.ofSeconds 300)
    (create, .ok { }) ∈ (m.ensure p).run.exchanges scripted answers ∧ create.mutates = true ∧
      ∃ document, documentOf t.value = some document ∧ document.changed = false := by
  intro m p answers t create
  exact ⟨by decide +kernel, rfl, .ofFailure (.timeout "slow"), by decide +kernel, rfl⟩

end Manager

end ResourceAgent
