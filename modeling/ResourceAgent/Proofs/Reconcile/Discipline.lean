import ResourceAgent.Proofs.Reconcile.Course

/-!
# The discipline of an operation

Outside check mode an operation runs a query, at most one command that changes the resource, and a
last query, and it stops early for no reason but an answer that amounts to a failure, a resource
that is missing, or one that is in the requested state. Each field of `Disciplined` is a lemma
about the courses an operation can take.
-/
namespace ResourceAgent

namespace Params

variable {p : Params}

/-- The time a command may take, where the time of a move can be extended. -/
def deadline (p : Params) : Pcs.Command → Duration
  | .move _ _ _ => .ofSeconds (p.timeout + UInt64.ofNat Pcs.moveGrace)
  | _ => .ofSeconds p.timeout

theorem deadline?_eq_some (ht : p.timeout.toNat + Pcs.moveGrace < Text.wordLimit)
    (command : Pcs.Command) : p.deadline? command = some (p.deadline command) := by
  cases command with
  | move name node wait => exact if_pos ht
  | _ => rfl

theorem Prescribes.mutates {found : Bool} {change : Pcs.Command} (h : p.Prescribes found change) :
    change.mutates = true := by
  cases h <;> rfl

theorem Prescribes.unique {found : Bool} {change change' : Pcs.Command}
    (h : p.Prescribes found change) (h' : p.Prescribes found change') : change = change' := by
  cases h <;> cases h' <;> simp_all

theorem Prescribes.verb_eq_delete_iff {found : Bool} {change : Pcs.Command}
    (h : p.Prescribes found change) : change.verb = "delete" ↔ p.state = .absent := by
  cases h <;> simp_all [Pcs.Command.verb]

theorem Settled.not_prescribes {found : Bool} {change : Pcs.Command} (h : p.Settled found) :
    ¬ p.Prescribes found change := by
  intro hp
  cases h <;> cases hp <;> simp_all

theorem NeedsResource.not_prescribes {change : Pcs.Command} (h : p.NeedsResource) :
    ¬ p.Prescribes false change := by
  intro hp
  unfold NeedsResource at h
  cases hp
  simp_all

theorem NeedsResource.not_settled (h : p.NeedsResource) : ¬ p.Settled false := by
  intro hs
  unfold NeedsResource at h
  cases hs
  simp_all

end Params

namespace Manager

/-- What an operation outside check mode asks of a runner, and what it comes to, given the answers
it got. -/
structure Disciplined (m : Manager) (p : Params) (x : List (Invocation × Answer))
    (value : Except Abort Report) : Prop where
  /-- The commands are a query, one change and a query, as far as they go. -/
  shape : ∃ change limit, change.mutates = true ∧
    x.map Prod.fst <+: [m.query p, m.client.invocation change limit, m.query p]
  /-- Parameters that make no sense are refused before the first command. -/
  refused : ∀ {defect}, p.validate = .error defect →
    x = [] ∧ value = .error (.failed (.validation defect.message))
  asked : p.validate = .ok () → x ≠ []
  /-- The change is the one that the state prescribes for what the query found. -/
  change_iff : ∀ {call}, (∃ answer, x[1]? = some (call, answer)) ↔
    ∃ answer lookup change, x[0]? = some (m.query p, answer) ∧
      m.client.lookupOf p.name answer = .ok lookup ∧ p.Prescribes lookup.exists? change ∧
      call = m.client.invocation change (p.deadline change)
  missing : ∀ {answer lookup}, x[0]? = some (m.query p, answer) →
    m.client.lookupOf p.name answer = .ok lookup → lookup.exists? = false → p.NeedsResource →
    x.length = 1 ∧ value = .error (.failed (.resourceMissing p.missingReason))
  /-- The last query follows a change that exited with code zero and was no deletion. -/
  closing_iff : x.length = 3 ↔ ∃ call output, x[1]? = some (call, .ok output) ∧
    output.exitCode = 0 ∧ call.args[1]? ≠ some "delete"
  /-- An answer that amounts to a failure is the last one, and its failure is what comes of it. -/
  failing : ∀ {i : ℕ} {call answer failure}, x[i]? = some (call, answer) →
    m.client.Fails call answer failure → x.length = i + 1 ∧ value = .error (.failed failure)
  /-- The operation is given up for no other reason. -/
  cause : ∀ {abort}, value = .error abort → (∃ defect, p.validate = .error defect) ∨
    (∃ (i : ℕ) (call : Invocation) (answer : Answer) (failure : Failure),
      x[i]? = some (call, answer) ∧ m.client.Fails call answer failure) ∨
    ∃ answer lookup, x[0]? = some (m.query p, answer) ∧
      m.client.lookupOf p.name answer = .ok lookup ∧ lookup.exists? = false ∧ p.NeedsResource
  changed_iff : ∀ {report}, value = .ok report → (report.changed = true ↔
    ∃ call output, x[1]? = some (call, .ok output) ∧ output.exitCode = 0)

variable {m : Manager} {p : Params} {lookup : Pcs.Lookup} {x : List (Invocation × Answer)}
  {value : Except Abort Report}

/-- A change that is prescribed is what an operation goes on with. -/
theorem Onward.exists_change (ho : Onward m p lookup x value) (hm : m.checkMode = false)
    (ht : p.timeout.toNat + Pcs.moveGrace < Text.wordLimit) {change : Pcs.Command}
    (hp : p.Prescribes lookup.exists? change) :
    ∃ answer rest, x = (m.client.invocation change (p.deadline change), answer) :: rest := by
  have hd := Params.deadline?_eq_some ht change
  cases ho with
  | settled hs => exact absurd hp hs.not_prescribes
  | missing hn he => exact absurd (he ▸ hp) hn.not_prescribes
  | foreseen _ hc => exact absurd hc (by simp [hm])
  | overflow hp' _ ho =>
      rw [← hp.unique hp', hd] at ho
      cases ho
  | change hp' _ hl ha =>
      cases hp.unique hp'
      cases hd.symm.trans hl
      exact ⟨_, _, rfl⟩

/-- In the requested state a resource is left alone. -/
theorem Onward.of_settled (ho : Onward m p lookup x value) (hs : p.Settled lookup.exists?) :
    x = [] ∧ value = .ok ((Report.ofUnchanged p.settledMessage).withLookup lookup) := by
  cases ho with
  | settled _ => exact ⟨rfl, rfl⟩
  | missing hn he => exact absurd (he ▸ hs) hn.not_settled
  | foreseen hp _ => exact absurd hp hs.not_prescribes
  | overflow hp _ _ => exact absurd hp hs.not_prescribes
  | change hp _ _ _ => exact absurd hp hs.not_prescribes

theorem Onward.of_needsResource (ho : Onward m p lookup x value) (hn : p.NeedsResource)
    (he : lookup.exists? = false) :
    x = [] ∧ value = .error (.failed (.resourceMissing p.missingReason)) := by
  cases ho with
  | settled hs => exact absurd (he ▸ hs) hn.not_settled
  | missing _ _ => exact ⟨rfl, rfl⟩
  | foreseen hp _ => exact absurd (he ▸ hp) hn.not_prescribes
  | overflow hp _ _ => exact absurd (he ▸ hp) hn.not_prescribes
  | change hp _ _ _ => exact absurd (he ▸ hp) hn.not_prescribes

/-- After a change there is nothing to ask but the last query. -/
theorem Aftermath.eq_nil_or {change : Pcs.Command} {answer : Answer}
    (ha : Aftermath m p change answer x value) :
    x = [] ∨ ∃ requeried, x = [(m.query p, requeried)] := by
  cases ha with
  | failed hr => exact .inl rfl
  | deleted hr hs => exact .inl rfl
  | queryFailed hr hs hl => exact .inr ⟨_, rfl⟩
  | described hr hs hl => exact .inr ⟨_, rfl⟩

/-- It is asked exactly if the change went well and left something to query. -/
theorem Aftermath.length_eq_one_iff {change : Pcs.Command} {answer : Answer}
    (ha : Aftermath m p change answer x value) :
    x.length = 1 ↔ (∃ output, m.client.resultOf change answer = .ok output) ∧
      p.state ≠ .absent := by
  cases ha with
  | failed hr => simp [hr]
  | deleted hr hs => simp [hs]
  | queryFailed hr hs hl => simp [hr, hs]
  | described hr hs hl => simp [hr, hs]

theorem Course.shape (hc : Course m p x value) : ∃ change limit, change.mutates = true ∧
    x.map Prod.fst <+: [m.query p, m.client.invocation change limit, m.query p] := by
  have hnone : (Pcs.Command.delete p.name p.force).mutates = true := rfl
  cases hc with
  | refused hv => exact ⟨_, .ofSeconds p.timeout, hnone, List.nil_prefix⟩
  | queryFailed hv hl => exact ⟨_, .ofSeconds p.timeout, hnone, _, rfl⟩
  | onward hv hl ho =>
      cases ho with
      | settled hs => exact ⟨_, .ofSeconds p.timeout, hnone, _, rfl⟩
      | missing hn he => exact ⟨_, .ofSeconds p.timeout, hnone, _, rfl⟩
      | foreseen hp hm => exact ⟨_, .ofSeconds p.timeout, hnone, _, rfl⟩
      | overflow hp hm hd => exact ⟨_, .ofSeconds p.timeout, hnone, _, rfl⟩
      | change hp hm hd ha =>
          rcases ha.eq_nil_or with rfl | ⟨requeried, rfl⟩
          · exact ⟨_, _, hp.mutates, _, rfl⟩
          · exact ⟨_, _, hp.mutates, _, rfl⟩

theorem Course.of_refused (hc : Course m p x value) {defect : Defect}
    (hd : p.validate = .error defect) :
    x = [] ∧ value = .error (.failed (.validation defect.message)) := by
  cases hc with
  | refused hv =>
      cases hv.symm.trans hd
      exact ⟨rfl, rfl⟩
  | queryFailed hv hl => cases hv.symm.trans hd
  | onward hv hl ho => cases hv.symm.trans hd

/-- An operation with valid parameters starts with its query. -/
theorem Course.exists_first (hc : Course m p x value) (hv : p.validate = .ok ()) :
    ∃ answer rest, x = (m.query p, answer) :: rest := by
  cases hc with
  | refused hd => cases hd.symm.trans hv
  | queryFailed _ _ => exact ⟨_, _, rfl⟩
  | onward _ _ _ => exact ⟨_, _, rfl⟩

theorem Course.ne_nil (hc : Course m p x value) (hv : p.validate = .ok ()) : x ≠ [] := by
  obtain ⟨answer, rest, rfl⟩ := hc.exists_first hv
  exact List.cons_ne_nil _ _

/-- What the first query found is what the operation goes on with. -/
theorem Course.onward_of_lookup (hc : Course m p x value) {answer : Answer}
    (hx : x[0]? = some (m.query p, answer)) {lookup : Pcs.Lookup}
    (hl : m.client.lookupOf p.name answer = .ok lookup) :
    ∃ rest, x = (m.query p, answer) :: rest ∧ Onward m p lookup rest value := by
  cases hc with
  | refused _ => cases hx
  | queryFailed _ hf =>
      cases hx
      cases hl.symm.trans hf
  | onward _ hl' ho =>
      cases hx
      cases hl.symm.trans hl'
      exact ⟨_, rfl, ho⟩

theorem Course.change_iff (hc : Course m p x value) (hm : m.checkMode = false)
    (ht : p.timeout.toNat + Pcs.moveGrace < Text.wordLimit) {call : Invocation} :
    (∃ answer, x[1]? = some (call, answer)) ↔
      ∃ answer lookup change, x[0]? = some (m.query p, answer) ∧
        m.client.lookupOf p.name answer = .ok lookup ∧ p.Prescribes lookup.exists? change ∧
        call = m.client.invocation change (p.deadline change) := by
  constructor
  · rintro ⟨answer, hx⟩
    cases hc with
    | refused hv => cases hx
    | queryFailed hv hl => cases hx
    | onward hv hl ho =>
        cases ho with
        | change hp _ hd ha =>
            cases hx
            cases hd.symm.trans (Params.deadline?_eq_some ht _)
            exact ⟨_, _, _, rfl, hl, hp, rfl⟩
        | _ => cases hx
  · rintro ⟨answer, lookup, change, hx, hl, hp, rfl⟩
    obtain ⟨rest, rfl, ho⟩ := hc.onward_of_lookup hx hl
    obtain ⟨answer, rest, rfl⟩ := ho.exists_change hm ht hp
    exact ⟨answer, rfl⟩

theorem Course.of_missing (hc : Course m p x value) {answer : Answer} {lookup : Pcs.Lookup}
    (hx : x[0]? = some (m.query p, answer)) (hl : m.client.lookupOf p.name answer = .ok lookup)
    (he : lookup.exists? = false) (hn : p.NeedsResource) :
    x.length = 1 ∧ value = .error (.failed (.resourceMissing p.missingReason)) := by
  obtain ⟨rest, rfl, ho⟩ := hc.onward_of_lookup hx hl
  obtain ⟨rfl, rfl⟩ := ho.of_needsResource hn he
  exact ⟨rfl, rfl⟩

theorem Course.closing_iff (hc : Course m p x value) : x.length = 3 ↔
    ∃ call output, x[1]? = some (call, .ok output) ∧ output.exitCode = 0 ∧
      call.args[1]? ≠ some "delete" := by
  cases hc with
  | refused hv => simp
  | queryFailed hv hl => simp
  | onward hv hl ho =>
      cases ho with
      | change hp hm hd ha =>
          have hlen := ha.length_eq_one_iff
          have hdel := hp.verb_eq_delete_iff
          simp only [Pcs.Client.resultOf_eq_ok_iff] at hlen
          constructor
          · intro h
            obtain ⟨⟨output, rfl, h0⟩, hs⟩ := hlen.mp (by simpa using h)
            refine ⟨_, output, rfl, h0, ?_⟩
            rw [Pcs.Client.verb_invocation, Ne, Option.some.injEq, hdel]
            exact hs
          · rintro ⟨call, output, hx, h0, hv⟩
            cases hx
            rw [Pcs.Client.verb_invocation, Ne, Option.some.injEq, hdel] at hv
            simpa using hlen.mpr ⟨⟨output, rfl, h0⟩, hv⟩
      | _ => simp

theorem fails_query_iff {answer : Answer} {failure : Failure} :
    m.client.Fails (m.query p) answer failure ↔
      m.client.lookupOf p.name answer = .error failure :=
  Pcs.Client.fails_query_iff

theorem Aftermath.failing {change : Pcs.Command} {answer requeried : Answer}
    (ha : Aftermath m p change answer x value) {i : ℕ} {call : Invocation} {failure : Failure}
    (hx : x[i]? = some (call, requeried)) (hf : m.client.Fails call requeried failure) :
    x.length = i + 1 ∧ value = .error (.failed failure) := by
  rcases ha.eq_nil_or with rfl | ⟨answer', rfl⟩
  · cases hx
  · rcases i with _ | i
    · cases hx
      rw [fails_query_iff] at hf
      cases ha with
      | queryFailed hr hs hl =>
          cases hf.symm.trans hl
          exact ⟨rfl, rfl⟩
      | described hr hs hl => cases hf.symm.trans hl
    · cases hx

theorem Onward.failing (ho : Onward m p lookup x value) {i : ℕ} {call : Invocation}
    {answer : Answer} {failure : Failure} (hx : x[i]? = some (call, answer))
    (hf : m.client.Fails call answer failure) :
    x.length = i + 1 ∧ value = .error (.failed failure) := by
  cases ho with
  | change hp hm hd ha =>
      rcases i with _ | i
      · cases hx
        rw [Pcs.Client.fails_change_iff hp.mutates] at hf
        cases ha with
        | failed hr =>
            cases hf.symm.trans hr
            exact ⟨rfl, rfl⟩
        | deleted hr hs => cases hf.symm.trans hr
        | queryFailed hr hs hl => cases hf.symm.trans hr
        | described hr hs hl => cases hf.symm.trans hr
      · obtain ⟨hlen, hvalue⟩ := ha.failing hx hf
        exact ⟨congrArg (· + 1) hlen, hvalue⟩
  | _ => cases hx

theorem Course.failing (hc : Course m p x value) {i : ℕ} {call : Invocation} {answer : Answer}
    {failure : Failure} (hx : x[i]? = some (call, answer))
    (hf : m.client.Fails call answer failure) :
    x.length = i + 1 ∧ value = .error (.failed failure) := by
  cases hc with
  | refused hv => cases hx
  | queryFailed hv hl =>
      rcases i with _ | i
      · cases hx
        cases (fails_query_iff.mp hf).symm.trans hl
        exact ⟨rfl, rfl⟩
      · cases hx
  | onward hv hl ho =>
      rcases i with _ | i
      · cases hx
        cases (fails_query_iff.mp hf).symm.trans hl
      · obtain ⟨hlen, hvalue⟩ := ho.failing hx hf
        exact ⟨congrArg (· + 1) hlen, hvalue⟩

theorem Course.cause (hc : Course m p x value)
    (ht : p.timeout.toNat + Pcs.moveGrace < Text.wordLimit) {abort : Abort}
    (he : value = .error abort) : (∃ defect, p.validate = .error defect) ∨
      (∃ (i : ℕ) (call : Invocation) (answer : Answer) (failure : Failure),
        x[i]? = some (call, answer) ∧ m.client.Fails call answer failure) ∨
      ∃ answer lookup, x[0]? = some (m.query p, answer) ∧
        m.client.lookupOf p.name answer = .ok lookup ∧ lookup.exists? = false ∧
        p.NeedsResource := by
  cases hc with
  | refused hv => exact .inl ⟨_, hv⟩
  | queryFailed hv hl => exact .inr (.inl ⟨0, _, _, _, rfl, fails_query_iff.mpr hl⟩)
  | onward hv hl ho =>
      cases ho with
      | settled hs => cases he
      | missing hn hm => exact .inr (.inr ⟨_, _, rfl, hl, hm, hn⟩)
      | foreseen hp hm => cases he
      | overflow hp hm hd => cases hd.symm.trans (Params.deadline?_eq_some ht _)
      | change hp hm hd ha =>
          cases ha with
          | failed hr => exact .inr (.inl ⟨1, _, _, _, rfl, .change hp.mutates hr⟩)
          | deleted hr hs => cases he
          | queryFailed hr hs hq => exact .inr (.inl ⟨2, _, _, _, rfl, fails_query_iff.mpr hq⟩)
          | described hr hs hq => cases he

theorem Course.changed_iff (hc : Course m p x value) (hm : m.checkMode = false) {report : Report}
    (hr : value = .ok report) : report.changed = true ↔
      ∃ call output, x[1]? = some (call, .ok output) ∧ output.exitCode = 0 := by
  cases hc with
  | refused hv => cases hr
  | queryFailed hv hl => cases hr
  | onward hv hl ho =>
      cases ho with
      | settled hs =>
          cases hr
          simp [changed_withLookup, Report.ofUnchanged]
      | missing hn he => cases hr
      | foreseen hp hc => exact absurd hc (by simp [hm])
      | overflow hp hc hd => cases hr
      | change hp hc hd ha =>
          cases ha with
          | failed hf => cases hr
          | deleted ho hs =>
              cases hr
              obtain ⟨rfl, h0⟩ := Pcs.Client.resultOf_eq_ok_iff.mp ho
              exact ⟨fun _ => ⟨_, _, rfl, h0⟩, fun _ => rfl⟩
          | queryFailed ho hs hq => cases hr
          | described ho hs hq =>
              cases hr
              obtain ⟨rfl, h0⟩ := Pcs.Client.resultOf_eq_ok_iff.mp ho
              exact ⟨fun _ => ⟨_, _, rfl, h0⟩, fun _ => changed_withLookup _ _⟩

variable {σ : Type} (runner : Runner σ) (state : σ)

/-- Outside check mode every operation is disciplined, whatever the runner answers. -/
theorem ensure_disciplined (m : Manager) (p : Params) (hm : m.checkMode = false)
    (ht : p.timeout.toNat + Pcs.moveGrace < Text.wordLimit) :
    let t := (m.ensure p).run.hold runner state
    let x := (m.ensure p).run.exchanges runner state
    t.calls = x.map Prod.fst ∧ Disciplined m p x t.value := by
  intro t x
  have hc : Course m p x t.value := ensure_course runner state m p
  refine ⟨Dialogue.calls_hold runner state _, ?_⟩
  exact
    { shape := hc.shape
      refused := hc.of_refused
      asked := hc.ne_nil
      change_iff := hc.change_iff hm ht
      missing := hc.of_missing
      closing_iff := hc.closing_iff
      failing := hc.failing
      cause := hc.cause ht
      changed_iff := hc.changed_iff hm }

/-- A resource that is found is moved and queried again. -/
theorem ensure_disciplined_move :
    let m : Manager := { }
    let p : Params := { name := "db", state := .relocated, node := some "b", timeout := 60 }
    let answers : List Answer := [.ok { stdout := "Resource: db" }, .ok { }, .ok { stdout := "db" }]
    let t := (m.ensure p).run.hold scripted answers
    Disciplined m p ((m.ensure p).run.exchanges scripted answers) t.value ∧
      t.calls.map Invocation.args = [["resource", "config", "db"],
        ["resource", "move", "db", "b", "--wait=60"], ["resource", "config", "db"]] := by
  intro m p answers t
  exact ⟨(ensure_disciplined scripted answers m p rfl (by decide)).2, by decide +kernel⟩

end Manager

end ResourceAgent
