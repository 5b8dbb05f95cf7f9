import ResourceAgent.Proofs.Reconcile.Document

/-!
# A report and an operation on the same answer

A report on a resource and an operation that keeps it present ask the same query, with time limits
of their own. On the same answer they agree: what the one describes the other leaves alone and
describes alike, and what the one misses the other creates, or would create. They differ in one
point. A dump that is no outline is a failure of the report, since there is nothing else to tell;
for the operation the resource exists, and the reason goes with the dump.
-/
namespace ResourceAgent

namespace Manager

/-- What a report tells about an operation that keeps the resource present. The report came to
`informed` and the operation, after its commands, to `ensured`; both got `answer` to their query. -/
structure Concurs (m : Manager) (p : Params) (answer : Answer) (informed : Except Abort Report)
    (calls : List Invocation) (ensured : Except Abort Report) : Prop where
  described : ∀ {report tree}, informed = .ok report → report.resource = some tree →
    calls = [m.query p] ∧ ∃ report', ensured = .ok report' ∧ report'.changed = false ∧
      report'.resource = some tree ∧ report'.raw = report.raw ∧ report'.parseError = none
  /-- A resource that is missing would be created in check mode, and is created outside of it. -/
  missing : ∀ {report}, informed = .ok report → report.resource = none →
    (m.checkMode = true → calls = [m.query p] ∧
      ensured = .ok (.ofChanged ("Resource " ++ p.name ++ " would be created"))) ∧
    (m.checkMode = false → ∃ spec rest, p.resources = [spec] ∧ calls =
      m.query p :: m.client.invocation (.create p.name spec) (.ofSeconds p.timeout) :: rest)
  /-- The dump is no outline, and it is not the runner that says so; that of a machine never does
  (`Machine.run_ne_outline`). -/
  unreadable : ∀ {e}, informed = .error (.failed (.outline e)) → answer ≠ .error (.outline e) →
    calls = [m.query p] ∧ ∃ output report', answer = .ok output ∧ ensured = .ok report' ∧
      report'.changed = false ∧ report'.resource = none ∧ report'.raw = some output.stdout ∧
      report'.parseError = some e.message ∧
      report'.parseError = (Report.ofFailure (.outline e)).parseError
  failed : ∀ {abort}, informed = .error abort → (∀ e, abort ≠ .failed (.outline e)) →
    calls = [m.query p] ∧ ensured = .error abort
  /-- A failure of the runner is passed on, whichever it is. -/
  passed : ∀ {failure}, answer = .error failure → informed = .error (.failed failure) ∧
    calls = [m.query p] ∧ ensured = .error (.failed failure)

variable {m : Manager} {p : Params} {name : String} {x y rest : List (Invocation × Answer)}
  {answer : Answer} {value informed : Except Abort Report}

/-- A resource is described because it was found. -/
theorem Inspection.exists_found (hi : Inspection m name answer y informed) {report : Report}
    {tree : Outline.Tree} (hr : informed = .ok report) (ht : report.resource = some tree) :
    ∃ raw, m.client.lookupOf name answer = .ok (.found raw) ∧ Outline.parse raw = .ok tree ∧
      report.raw = some raw := by
  cases hi with
  | queryFailed _ => cases hr
  | missing _ =>
      cases hr
      cases ht
  | unreadable _ _ => cases hr
  | described hl hp =>
      cases hr
      rw [withLookup_of_parse_ok hp] at ht ⊢
      cases ht
      exact ⟨_, hl, hp, rfl⟩

theorem Inspection.exists_missing (hi : Inspection m name answer y informed) {report : Report}
    (hr : informed = .ok report) (ht : report.resource = none) :
    ∃ text, m.client.lookupOf name answer = .ok (.missing text) := by
  cases hi with
  | queryFailed _ => cases hr
  | missing hl => exact ⟨_, hl⟩
  | unreadable _ _ => cases hr
  | described hl hp =>
      cases hr
      rw [withLookup_of_parse_ok hp] at ht
      cases ht

/-- A report fails because the query does, or because the dump is no outline. -/
theorem Inspection.lookup_failed_or_unreadable (hi : Inspection m name answer y informed)
    {abort : Abort} (he : informed = .error abort) :
    (∃ failure, m.client.lookupOf name answer = .error failure ∧ abort = .failed failure) ∨
      ∃ raw e, m.client.lookupOf name answer = .ok (.found raw) ∧ Outline.parse raw = .error e ∧
        abort = .failed (.outline e) := by
  cases hi with
  | queryFailed hl =>
      cases he
      exact .inl ⟨_, hl, rfl⟩
  | missing _ => cases he
  | unreadable hl hp =>
      cases he
      exact .inr ⟨_, _, hl, hp, rfl⟩
  | described _ _ => cases he

theorem Course.of_lookup_error (hc : Course m p x value)
    (hx : x[0]? = some (m.query p, answer)) {failure : Failure}
    (hl : m.client.lookupOf p.name answer = .error failure) :
    x.map Prod.fst = [m.query p] ∧ value = .error (.failed failure) := by
  obtain ⟨hlen, hvalue⟩ := hc.failing hx (fails_query_iff.mpr hl)
  obtain ⟨exchange, rfl⟩ := List.length_eq_one_iff.mp hlen
  cases hx
  exact ⟨rfl, hvalue⟩

/-- A resource that is missing is to be created. -/
theorem Onward.of_missing {text : String} (ho : Onward m p (.missing text) rest value)
    (hs : p.state = .present) :
    m.checkMode = true ∧ rest = [] ∧
        value = .ok (.ofChanged ("Resource " ++ p.name ++ " would be created")) ∨
      m.checkMode = false ∧ ∃ spec answer after, p.resources = [spec] ∧
        rest = (m.client.invocation (.create p.name spec) (.ofSeconds p.timeout), answer) ::
          after := by
  cases ho with
  | settled hset =>
      cases hset with
      | absent h => cases hs.symm.trans h
  | missing hn _ =>
      unfold Params.NeedsResource at hn
      simp [hs] at hn
  | foreseen _ hm =>
      have hnot : (Pcs.Lookup.missing text).exists? = false := rfl
      refine .inl ⟨hm, rfl, ?_⟩
      simp [Params.foreseenReport, Params.foreseenMessage, hs, withLookup_of_not_exists hnot]
  | overflow hp _ hd =>
      cases hp with
      | create _ _ => cases hd
  | change hp hm hd _ =>
      cases hp with
      | create _ hspec =>
          cases hd
          exact .inr ⟨hm, _, _, _, hspec, rfl⟩

/-- The courses of both, on the same answer. -/
theorem Course.concurs (hc : Course m p x value) (hi : Inspection m p.name answer y informed)
    (hx : x[0]? = some (m.query p, answer)) (hs : p.state = .present) :
    Concurs m p answer informed (x.map Prod.fst) value where
  described := by
    intro report tree hr ht
    obtain ⟨raw, hl, hp, hraw⟩ := hi.exists_found hr ht
    obtain ⟨rest, rfl, ho⟩ := hc.onward_of_lookup hx hl
    obtain ⟨rfl, rfl⟩ := ho.of_settled (.present hs)
    rw [withLookup_of_parse_ok hp]
    exact ⟨rfl, _, rfl, rfl, rfl, hraw.symm, rfl⟩
  missing := by
    intro report hr ht
    obtain ⟨text, hl⟩ := hi.exists_missing hr ht
    obtain ⟨rest, rfl, ho⟩ := hc.onward_of_lookup hx hl
    rcases ho.of_missing hs with ⟨hm, rfl, rfl⟩ | ⟨hm, spec, answer', after, hspec, rfl⟩
    · exact ⟨fun _ => ⟨rfl, rfl⟩, fun hm' => by cases hm.symm.trans hm'⟩
    · exact ⟨fun hm' => (by cases hm.symm.trans hm'), fun _ => ⟨spec, _, hspec, rfl⟩⟩
  unreadable := by
    intro e he hne
    rcases hi.lookup_failed_or_unreadable he with ⟨failure, hl, habort⟩ | ⟨raw, e', hl, hp, habort⟩
    · cases habort
      rcases Pcs.Client.lookupOf_eq_error hl with hanswer | hblames
      · exact absurd hanswer hne
      · cases hblames
    · cases habort
      obtain ⟨output, rfl, rfl⟩ := Pcs.Client.stdout_of_lookupOf hl
      obtain ⟨rest, rfl, ho⟩ := hc.onward_of_lookup hx hl
      obtain ⟨rfl, rfl⟩ := ho.of_settled (.present hs)
      rw [withLookup_of_parse_error hp]
      exact ⟨rfl, output, _, rfl, rfl, rfl, rfl, rfl, rfl, rfl⟩
  failed := by
    intro abort he hne
    rcases hi.lookup_failed_or_unreadable he with ⟨failure, hl, rfl⟩ | ⟨raw, e, hl, hp, rfl⟩
    · exact hc.of_lookup_error hx hl
    · exact absurd rfl (hne e)
  passed := by
    rintro failure rfl
    refine ⟨?_, hc.of_lookup_error hx rfl⟩
    cases hi with
    | queryFailed hl =>
        cases hl
        rfl
    | missing hl => cases hl
    | unreadable hl _ => cases hl
    | described hl _ => cases hl

variable {σ : Type} (runner : Runner σ) (state : σ)

theorem calls_info (m : Manager) (name : String) :
    ((m.info name).run.hold runner state).calls = [m.inspect name] := by
  have hi : Inspection m name _ ((m.info name).run.exchanges runner state) _ :=
    info_course runner state m name
  rw [Dialogue.calls_hold, hi.exchanges_eq, List.map_singleton]

/-- A report asks one query. If the query of an operation gets the same answer, the report tells
what the operation does to keep the resource present. -/
theorem info_concurs (m : Manager) (p : Params) :
    (∀ name, ((m.info name).run.hold runner state).calls = [m.inspect name] ∧
      (m.inspect name).args = ["resource", "config", name]) ∧
    (p.validate = .ok () → p.state = .present →
      (runner (m.inspect p.name) state).answer = (runner (m.query p) state).answer →
      let t := (m.ensure p).run.hold runner state
      Concurs m p (runner (m.query p) state).answer
        ((m.info p.name).run.hold runner state).value t.calls t.value) := by
  refine ⟨fun name => ⟨calls_info runner state m name, rfl⟩, ?_⟩
  intro hv hs ha t
  have hi : Inspection m p.name _ _ ((m.info p.name).run.hold runner state).value :=
    info_course runner state m p.name
  have hc : Course m p ((m.ensure p).run.exchanges runner state) t.value :=
    ensure_course runner state m p
  obtain ⟨answer, rest, hx⟩ := hc.exists_first hv
  obtain rfl := Dialogue.answer_of_exchanges_cons runner state hx
  rw [show t.calls = _ from Dialogue.calls_hold runner state _]
  rw [ha] at hi
  refine hc.concurs hi ?_ hs
  rw [hx]
  rfl

/-- A dump that is no outline is a failure of the report, and the operation leaves the resource
alone. -/
theorem info_concurs_unreadable :
    let m : Manager := { checkMode := true }
    let p : Params := { name := "db", resources := [{ type := "Dummy" }] }
    let answers : List Answer := [.ok { stdout := "db is running" }]
    let e : Outline.Error := .malformedLine 1
    let t := (m.ensure p).run.hold scripted answers
    p.validate = .ok () ∧ p.state = .present ∧
      ((m.info "db").run.hold scripted answers).value = .error (.failed (.outline e)) ∧
      ∃ report, t.value = .ok report ∧ report.changed = false ∧
        report.raw = some "db is running" ∧ report.parseError = some e.message := by
  intro m p answers e t
  have hv : p.validate = .ok () := by decide +kernel
  have he : ((m.info "db").run.hold scripted answers).value = .error (.failed (.outline e)) := by
    decide +kernel
  have h := (info_concurs scripted answers m p).2 hv rfl rfl
  obtain ⟨-, output, report, ho, hr, hchanged, -, hraw, hparse, -⟩ := h.unreadable he nofun
  cases ho
  exact ⟨hv, rfl, he, report, hr, hchanged, hraw, hparse⟩

end Manager

end ResourceAgent
