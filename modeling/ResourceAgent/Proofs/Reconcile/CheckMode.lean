import ResourceAgent.Proofs.Reconcile.Discipline

/-!
# What check mode tells about the real run

An operation is held twice with one runner, in check mode and outside of it. Both runs start with
the same query, so the runner gives both the same answer. From there the courses are compared:
either they agree to the end, and nothing was or would be changed, or the run in check mode ends
with a report of a change and the real run goes on to make it.
-/
namespace ResourceAgent

namespace Manager

/-- What a run in check mode, given by its commands and its value, tells about the real run. -/
structure Foretells (p : Params) (calls : List Invocation) (value : Except Abort Report)
    (realCalls : List Invocation) (realValue : Except Abort Report) : Prop where
  /-- Nothing is run in check mode but one query. -/
  queries : calls.map Invocation.args <+: [["resource", "config", p.name]]
  harmless : ∀ call ∈ calls, call.mutates = false
  error : ∀ {abort}, value = .error abort → realValue = .error abort ∧ realCalls = calls
  unchanged : ∀ {report}, value = .ok report → report.changed = false →
    realValue = .ok report ∧ realCalls = calls
  changed : ∀ {report}, value = .ok report → report.changed = true →
    realCalls.countP Invocation.mutates = 1
  /-- A real run that succeeds was foretold, with the same flag. -/
  success : ∀ {report}, realValue = .ok report →
    ∃ foreseen, value = .ok foreseen ∧ foreseen.changed = report.changed

variable {client : Pcs.Client} {p : Params} {lookup : Pcs.Lookup}
  {x y : List (Invocation × Answer)} {value realValue : Except Abort Report}

/-- The two runs are one, and nothing was changed. -/
structure Agreed (x : List (Invocation × Answer)) (value : Except Abort Report)
    (y : List (Invocation × Answer)) (realValue : Except Abort Report) : Prop where
  exchanges_eq : y = x
  value_eq : realValue = value
  unchanged : ∀ {report : Report}, value = .ok report → report.changed = false

/-- A change was foreseen, and the real run goes on to make it. -/
structure Foreseen (value : Except Abort Report) (y : List (Invocation × Answer))
    (realValue : Except Abort Report) : Prop where
  report : ∃ report : Report, value = .ok report ∧ report.changed = true
  change : (y.map Prod.fst).countP Invocation.mutates = 1
  realReport : ∀ {report : Report}, realValue = .ok report → report.changed = true

theorem changed_foreseenReport (p : Params) (lookup : Pcs.Lookup) :
    (p.foreseenReport lookup).changed = true := by
  unfold Params.foreseenReport
  split
  · rfl
  · exact changed_withLookup _ _

theorem Aftermath.changed {m : Manager} {change : Pcs.Command} {answer : Answer}
    (ha : Aftermath m p change answer x value) {report : Report} (hr : value = .ok report) :
    report.changed = true := by
  cases ha with
  | failed _ => cases hr
  | deleted _ _ =>
      cases hr
      rfl
  | queryFailed _ _ _ => cases hr
  | described _ _ _ =>
      cases hr
      exact changed_withLookup _ _

theorem Onward.foreseen_of_prescribes (ho : Onward ⟨client, false⟩ p lookup y realValue)
    (ht : p.timeout.toNat + Pcs.moveGrace < Text.wordLimit) {change : Pcs.Command}
    (hp : p.Prescribes lookup.exists? change) :
    Foreseen (.ok (p.foreseenReport lookup)) y realValue := by
  cases ho with
  | settled hs => exact absurd hp hs.not_prescribes
  | missing hn he => exact absurd (he ▸ hp) hn.not_prescribes
  | foreseen _ hm => cases hm
  | overflow _ _ hd => cases hd.symm.trans (Params.deadline?_eq_some ht _)
  | change hp' _ _ ha =>
      refine ⟨⟨_, rfl, changed_foreseenReport p lookup⟩, ?_, ha.changed⟩
      rcases ha.eq_nil_or with rfl | ⟨requeried, rfl⟩
      · simp [Pcs.Client.mutates_invocation, hp'.mutates]
      · simp [Pcs.Client.mutates_invocation, hp'.mutates, mutates_query]

/-- After the same query, the runs agree or the change is foreseen. -/
theorem Onward.agreed_or_foreseen (hc : Onward ⟨client, true⟩ p lookup x value)
    (ho : Onward ⟨client, false⟩ p lookup y realValue)
    (ht : p.timeout.toNat + Pcs.moveGrace < Text.wordLimit) :
    x = [] ∧ (Agreed x value y realValue ∨ Foreseen value y realValue) := by
  cases hc with
  | settled hs =>
      obtain ⟨rfl, rfl⟩ := ho.of_settled hs
      refine ⟨rfl, .inl ⟨rfl, rfl, ?_⟩⟩
      intro report hr
      cases hr
      exact changed_withLookup _ _
  | missing hn he =>
      obtain ⟨rfl, rfl⟩ := ho.of_needsResource hn he
      exact ⟨rfl, .inl ⟨rfl, rfl, nofun⟩⟩
  | foreseen hp _ => exact ⟨rfl, .inr (ho.foreseen_of_prescribes ht hp)⟩
  | overflow _ hm _ => cases hm
  | change _ hm _ _ => cases hm

/-- The runs agree from the start, or after the first query, which both answer alike, a change is
foreseen. -/
theorem Course.agreed_or_foreseen (hc : Course ⟨client, true⟩ p x value)
    (ho : Course ⟨client, false⟩ p y realValue)
    (ht : p.timeout.toNat + Pcs.moveGrace < Text.wordLimit)
    (hxy : ∀ {call answer answer'}, x.head? = some (call, answer) →
      y.head? = some (call, answer') → answer = answer') :
    x.map Prod.fst <+: [query ⟨client, true⟩ p] ∧
      (Agreed x value y realValue ∨ Foreseen value y realValue) := by
  cases hc with
  | refused hv =>
      refine ⟨List.nil_prefix, .inl ?_⟩
      cases ho with
      | refused hv' =>
          cases hv.symm.trans hv'
          exact ⟨rfl, rfl, nofun⟩
      | queryFailed hv' _ => cases hv.symm.trans hv'
      | onward hv' _ _ => cases hv.symm.trans hv'
  | queryFailed hv hl =>
      refine ⟨List.prefix_rfl, .inl ?_⟩
      cases ho with
      | refused hv' => cases hv.symm.trans hv'
      | queryFailed _ hl' =>
          cases hxy rfl rfl
          cases hl.symm.trans hl'
          exact ⟨rfl, rfl, nofun⟩
      | onward _ hl' _ =>
          cases hxy rfl rfl
          cases hl.symm.trans hl'
  | onward hv hl hc =>
      cases ho with
      | refused hv' => cases hv.symm.trans hv'
      | queryFailed _ hl' =>
          cases hxy rfl rfl
          cases hl.symm.trans hl'
      | onward _ hl' ho =>
          cases hxy rfl rfl
          cases hl.symm.trans hl'
          obtain ⟨rfl, ⟨rfl, rfl, hu⟩ | ⟨hr, hcount, hreal⟩⟩ := hc.agreed_or_foreseen ho ht
          · exact ⟨List.prefix_rfl, .inl ⟨rfl, rfl, hu⟩⟩
          · refine ⟨List.prefix_rfl, .inr ⟨hr, ?_, hreal⟩⟩
            rw [List.map_cons, List.countP_cons_of_neg (by simp [mutates_query])]
            exact hcount

theorem Course.foretells (hc : Course ⟨client, true⟩ p x value)
    (ho : Course ⟨client, false⟩ p y realValue)
    (ht : p.timeout.toNat + Pcs.moveGrace < Text.wordLimit)
    (hxy : ∀ {call answer answer'}, x.head? = some (call, answer) →
      y.head? = some (call, answer') → answer = answer') :
    Foretells p (x.map Prod.fst) value (y.map Prod.fst) realValue := by
  obtain ⟨hfirst, h⟩ := hc.agreed_or_foreseen ho ht hxy
  have hqueries := hfirst.map Invocation.args
  have hharmless : ∀ call ∈ x.map Prod.fst, call.mutates = false := by
    intro call hcall
    rw [List.mem_singleton.mp (hfirst.subset hcall)]
    exact mutates_query _ p
  rcases h with ⟨rfl, rfl, hu⟩ | ⟨⟨report, rfl, hchanged⟩, hcount, hreal⟩
  · exact
      { queries := hqueries
        harmless := hharmless
        error := fun he => ⟨he, rfl⟩
        unchanged := fun hr _ => ⟨hr, rfl⟩
        changed := fun hr hchanged => by
          cases (hu hr).symm.trans hchanged
        success := fun hr => ⟨_, hr, rfl⟩ }
  · exact
      { queries := hqueries
        harmless := hharmless
        error := nofun
        unchanged := fun hr hunchanged => by
          cases hr
          cases hchanged.symm.trans hunchanged
        changed := fun _ _ => hcount
        success := fun hr => ⟨report, rfl, hchanged.trans (hreal hr).symm⟩ }

variable {σ : Type} (runner : Runner σ) (state : σ)

/-- Whatever the runner answers, check mode changes nothing and tells what the real run does. -/
theorem ensure_foretells (m : Manager) (p : Params)
    (ht : p.timeout.toNat + Pcs.moveGrace < Text.wordLimit) :
    let check := ({ m with checkMode := true }.ensure p).run.hold runner state
    let real := ({ m with checkMode := false }.ensure p).run.hold runner state
    Foretells p check.calls check.value real.calls real.value := by
  intro check real
  have hc := ensure_course runner state { m with checkMode := true } p
  have ho := ensure_course runner state { m with checkMode := false } p
  have h := hc.foretells ho ht (by
    intro call answer answer' hx hy
    obtain ⟨rest, hx⟩ := List.head?_eq_some_iff.mp hx
    obtain ⟨rest', hy⟩ := List.head?_eq_some_iff.mp hy
    rw [Dialogue.answer_of_exchanges_cons runner state hx,
      Dialogue.answer_of_exchanges_cons runner state hy])
  rw [show check.calls = _ from Dialogue.calls_hold runner state _,
    show real.calls = _ from Dialogue.calls_hold runner state _]
  exact h

/-- A resource that would be created is created. -/
theorem ensure_foretells_create :
    let m : Manager := { }
    let p : Params := { name := "db", timeout := 60, resources := [{ type := "Dummy" }] }
    let answers : List Answer :=
      [.ok { exitCode := 1, stderr := "Error: No resource found" }, .ok { }, .ok { stdout := "db" }]
    let check := ({ m with checkMode := true }.ensure p).run.hold scripted answers
    let real := ({ m with checkMode := false }.ensure p).run.hold scripted answers
    Foretells p check.calls check.value real.calls real.value ∧
      check.calls.length = 1 ∧ real.calls.length = 3 := by
  intro m p answers check real
  exact ⟨ensure_foretells scripted answers m p (by decide), by decide +kernel, by decide +kernel⟩

end Manager

end ResourceAgent
