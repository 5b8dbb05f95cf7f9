import ResourceAgent.Proofs.Cluster
import ResourceAgent.Proofs.Reconcile.Discipline

/-!
# Idempotence

On a cluster an operation that creates or deletes a resource succeeds, and whatever is asked about
the resource afterwards finds it in the requested state, changes nothing and tells the same. What
one request keeps is `Steady`; a session of any length keeps it by induction on the requests.
-/
namespace ResourceAgent

variable {σ : Type} {runner : Runner σ} {cluster : σ → Cluster}

namespace Params

variable {p : Params}

theorem not_needsResource (hs : p.state = .present ∨ p.state = .absent) : ¬ p.NeedsResource := by
  rintro (hn | hn)
  · simp [hn] at hs
  · simp [hn] at hs

theorem Prescribes.create_or_delete {found : Bool} {change : Pcs.Command}
    (h : p.Prescribes found change) (hs : p.state = .present ∨ p.state = .absent) :
    (∃ spec, p.state = .present ∧ change = .create p.name spec ∧ found = false) ∨
      p.state = .absent ∧ change = .delete p.name p.force ∧ found = true := by
  cases h with
  | create h _ => exact .inl ⟨_, h, rfl, rfl⟩
  | update h _ => simp [h] at hs
  | delete h => exact .inr ⟨h, rfl, rfl⟩
  | move h _ => simp [h] at hs

theorem Prescribes.deadline?_eq {found : Bool} {change : Pcs.Command}
    (h : p.Prescribes found change) (hs : p.state = .present ∨ p.state = .absent) :
    p.deadline? change = some (.ofSeconds p.timeout) := by
  rcases h.create_or_delete hs with ⟨spec, -, rfl, -⟩ | ⟨-, rfl, -⟩
  · rfl
  · rfl

end Params

/-- What a report tells about a resource: its tree, its dump, and why the dump is no outline. -/
def Report.description (report : Report) : Option Outline.Tree × Option String × Option String :=
  (report.resource, report.raw, report.parseError)

/-- What is to be told about a resource with this dump. -/
def Dump.description (dump : Dump) : Option Outline.Tree × Option String × Option String :=
  match Outline.parse dump.text with
  | .ok tree => (some tree, some dump.text, none)
  | .error e => (none, some dump.text, some e.message)

theorem description_withLookup (changed : Bool) (message : String) (dump : Dump) :
    (({ changed, message } : Report).withLookup (.found dump.text)).description =
      dump.description := by
  unfold Dump.description
  cases h : Outline.parse dump.text with
  | ok tree =>
      rw [Manager.withLookup_of_parse_ok h]
      rfl
  | error e =>
      rw [Manager.withLookup_of_parse_error h]
      rfl

namespace Manager

variable {m : Manager} {p : Params} {x : List (Invocation × Answer)} {answer : Answer}
  {value : Except Abort Report} {state final : σ} {limit : Duration}

/-- On a cluster every operation with valid parameters goes on with what the cluster has. -/
theorem Course.exists_onward (hr : Simulates m.client.binary runner cluster)
    (hc : Course m p x value) (hx : Dialogue.Answered runner state x final)
    (hv : p.validate = .ok ()) :
    ∃ answer lookup rest next, x = (m.query p, answer) :: rest ∧
      Agrees (cluster state) p.name lookup ∧ cluster next = cluster state ∧
      Dialogue.Answered runner next rest final ∧ Onward m p lookup rest value := by
  obtain ⟨found, hf, hl'⟩ := hr.exists_lookup p.name (.ofSeconds p.timeout) state
  have hk := hr.cluster_query p.name (.ofSeconds p.timeout) state
  cases hc with
  | refused hd => cases hd.symm.trans hv
  | queryFailed _ hl =>
      cases hx with
      | cons hx => cases hl.symm.trans hl'
  | onward _ hl ho =>
      cases hx with
      | cons hx =>
          cases hl.symm.trans hl'
          exact ⟨_, _, _, _, rfl, hf, hk, hx, ho⟩

/-- An operation on a resource in the requested state asks once and changes nothing. -/
theorem Course.steady (hr : Simulates m.client.binary runner cluster) (hc : Course m p x value)
    (hx : Dialogue.Answered runner state x final) (hv : p.validate = .ok ())
    (hs : p.Settled (decide (p.name ∈ cluster state))) :
    x.map Prod.fst = [m.query p] ∧ cluster final = cluster state ∧
      ∃ lookup, Agrees (cluster state) p.name lookup ∧
        value = .ok ((Report.ofUnchanged p.settledMessage).withLookup lookup) := by
  obtain ⟨answer, lookup, rest, next, rfl, hl, hk, hx, ho⟩ := hc.exists_onward hr hx hv
  rw [← hl.exists?_eq] at hs
  obtain ⟨rfl, rfl⟩ := ho.of_settled hs
  cases hx
  exact ⟨rfl, hk, lookup, hl, rfl⟩

/-- A resource that is created is found by the query after that. -/
theorem Aftermath.created (hr : Simulates m.client.binary runner cluster) {spec : ResourceSpec}
    (ha : Aftermath m p (.create p.name spec) answer x value)
    (hx : Dialogue.Answered runner state
      ((m.client.invocation (.create p.name spec) limit, answer) :: x) final)
    (hn : p.name ∉ cluster state) (hs : p.state = .present) :
    ∃ dump, (cluster final).lookup p.name = some dump ∧
      value = .ok ((Report.ofChanged p.doneMessage).withLookup (.found dump.text)) := by
  let call := m.client.invocation (.create p.name spec) limit
  have hcreate : ["resource", "create", p.name] <+: call.args := by
    simp [call, Pcs.Client.invocation, Pcs.Command.args]
  obtain ⟨output, dump, ho, h0, hk⟩ := hr.creates rfl hcreate hn
  have hok : m.client.resultOf (.create p.name spec) (runner call state).answer = .ok output :=
    Pcs.Client.resultOf_eq_ok_iff.mpr ⟨ho, h0⟩
  have hd : (cluster (runner call state).state).lookup p.name = some dump := by
    rw [hk, Finmap.lookup_insert]
  obtain ⟨found, hf, hl'⟩ :=
    hr.exists_lookup p.name (.ofSeconds p.timeout) (runner call state).state
  have hk' := hr.cluster_query p.name (.ofSeconds p.timeout) (runner call state).state
  cases hx with
  | cons hx =>
      cases ha with
      | failed hfail => cases hfail.symm.trans hok
      | deleted _ habsent => cases hs.symm.trans habsent
      | queryFailed _ _ hl =>
          cases hx with
          | cons hx => cases hl.symm.trans hl'
      | described _ _ hl =>
          cases hx with
          | cons hx =>
              cases hx
              cases hl.symm.trans hl'
              cases hf.eq_found hd
              exact ⟨dump, hk' ▸ hd, rfl⟩

theorem Aftermath.removed (hr : Simulates m.client.binary runner cluster)
    (ha : Aftermath m p (.delete p.name p.force) answer x value)
    (hx : Dialogue.Answered runner state
      ((m.client.invocation (.delete p.name p.force) limit, answer) :: x) final)
    (hf : p.name ∈ cluster state) (hs : p.state = .absent) :
    p.name ∉ cluster final ∧ value = .ok (.ofChanged p.doneMessage) := by
  let call := m.client.invocation (.delete p.name p.force) limit
  have hdelete : ["resource", "delete", p.name] <+: call.args := by
    simp [call, Pcs.Client.invocation, Pcs.Command.args]
  obtain ⟨output, ho, h0, hk⟩ := hr.deletes rfl hdelete hf
  have hok : m.client.resultOf (.delete p.name p.force) (runner call state).answer = .ok output :=
    Pcs.Client.resultOf_eq_ok_iff.mpr ⟨ho, h0⟩
  have hgone : p.name ∉ cluster (runner call state).state := by
    rw [hk]
    exact Finmap.notMem_erase_self
  cases hx with
  | cons hx =>
      cases ha with
      | failed hfail => cases hfail.symm.trans hok
      | deleted _ _ =>
          cases hx
          exact ⟨hgone, rfl⟩
      | queryFailed _ hpresent _ => exact absurd hs hpresent
      | described _ hpresent _ => exact absurd hs hpresent

/-- What a finished operation leaves behind: the resource in the requested state, and a report that
tells of it. -/
structure Settles (p : Params) (c : Cluster) (report : Report) : Prop where
  settled : p.Settled (decide (p.name ∈ c))
  tells : ∀ {dump}, p.state = .present → c.lookup p.name = some dump →
    report.description = dump.description

theorem Course.settles (hr : Simulates m.client.binary runner cluster) (hc : Course m p x value)
    (hx : Dialogue.Answered runner state x final) (hv : p.validate = .ok ())
    (hm : m.checkMode = false) (hs : p.state = .present ∨ p.state = .absent) :
    ∃ report, value = .ok report ∧ Settles p (cluster final) report := by
  by_cases hset : p.Settled (decide (p.name ∈ cluster state))
  · obtain ⟨-, hk, lookup, hl, rfl⟩ := hc.steady hr hx hv hset
    refine ⟨_, rfl, hk ▸ hset, ?_⟩
    intro dump _ hd
    rw [hk] at hd
    cases hl.eq_found hd
    exact description_withLookup _ _ _
  · obtain ⟨answer, lookup, rest, next, rfl, hl, hk, hx, ho⟩ := hc.exists_onward hr hx hv
    have he := hl.exists?_eq
    rw [← hk] at hset he
    cases ho with
    | settled h => exact absurd (he ▸ h) hset
    | missing hn _ => exact absurd hn (Params.not_needsResource hs)
    | foreseen _ hm' => cases hm'.symm.trans hm
    | overflow hp _ hd => cases hd.symm.trans (hp.deadline?_eq hs)
    | change hp _ _ ha =>
        rw [he] at hp
        rcases hp.create_or_delete hs with ⟨spec, hs, rfl, hf⟩ | ⟨hs, rfl, hf⟩
        · obtain ⟨dump, hd, rfl⟩ := ha.created hr hx (of_decide_eq_false hf) hs
          refine ⟨_, rfl, ?_, ?_⟩
          · rw [decide_eq_true (Finmap.mem_of_lookup_eq_some hd)]
            exact .present hs
          · intro dump' _ hd'
            cases hd.symm.trans hd'
            exact description_withLookup _ _ _
        · obtain ⟨hn, rfl⟩ := ha.removed hr hx (of_decide_eq_true hf) hs
          refine ⟨_, rfl, ?_, fun h => by cases hs.symm.trans h⟩
          rw [decide_eq_false hn]
          exact .absent hs

/-- A report on a resource asks once and changes nothing. -/
theorem Inspection.steady (hr : Simulates m.client.binary runner cluster)
    (hi : Inspection m p.name (runner (m.inspect p.name) state).answer x value)
    (hx : Dialogue.Answered runner state x final) :
    x.map Prod.fst = [m.inspect p.name] ∧ cluster final = cluster state ∧
      ∀ report, value = .ok report → ∃ lookup message, Agrees (cluster state) p.name lookup ∧
        report = (Report.ofUnchanged message).withLookup lookup := by
  obtain rfl := hi.exchanges_eq
  cases hx with
  | cons hx =>
      cases hx
      refine ⟨rfl, hr.cluster_query p.name m.client.limit state, ?_⟩
      intro report hreport
      obtain ⟨found, hf, hl'⟩ := hr.exists_lookup p.name m.client.limit state
      cases hi with
      | queryFailed hl => cases hreport
      | missing hl =>
          cases hl.symm.trans hl'
          cases hreport
          exact ⟨_, _, hf, (withLookup_of_not_exists rfl _).symm⟩
      | unreadable hl hp => cases hreport
      | described hl hp =>
          cases hl.symm.trans hl'
          cases hreport
          exact ⟨_, _, hf, rfl⟩

inductive Request
  | ensure (m : Manager)
  | info (m : Manager)

namespace Request

def manager : Request → Manager
  | .ensure m => m
  | .info m => m

def work (p : Params) : Request → Work Report
  | .ensure m => m.ensure p
  | .info m => m.info p.name

end Request

/-- Requests about one resource in their order, each with what came of it. -/
def session (runner : Runner σ) (p : Params) :
    σ → List Request → List (Request × Transcript σ (Except Abort Report))
  | _, [] => []
  | state, request :: rest =>
      let t := (request.work p).run.hold runner state
      (request, t) :: session runner p t.state rest

/-- A request that changes nothing and tells what is known already. -/
structure Steady (cluster : σ → Cluster) (p : Params) (c : Cluster) (first : Report)
    (request : Request) (t : Transcript σ (Except Abort Report)) : Prop where
  asks : ∃ limit, t.calls = [request.manager.client.invocation (.config p.name) limit]
  keeps : cluster t.state = c
  /-- Only a report on the resource can fail. -/
  succeeds : ∀ {m}, request = .ensure m → ∃ report, t.value = .ok report
  unchanged : ∀ {report}, t.value = .ok report → report.changed = false
  tells : ∀ {report}, t.value = .ok report → p.state = .present →
    report.description = first.description

namespace Settles

variable {c : Cluster} {first : Report}

/-- Whoever finds what the cluster has tells what is known already. -/
theorem description_eq (h : Settles p c first) (hs : p.state = .present) {lookup : Pcs.Lookup}
    (hl : Agrees c p.name lookup) (message : String) :
    ((Report.ofUnchanged message).withLookup lookup).description = first.description := by
  cases hl with
  | found hd => exact (description_withLookup _ _ _).trans (h.tells hs hd).symm
  | missing hn =>
      have hset := h.settled
      rw [decide_eq_false hn] at hset
      cases hset with
      | absent ha => cases hs.symm.trans ha

theorem steady (h : Settles p (cluster state) first) (hv : p.validate = .ok ())
    (request : Request) (hr : Simulates request.manager.client.binary runner cluster) :
    Steady cluster p (cluster state) first request
      ((request.work p).run.hold runner state) := by
  let x := (request.work p).run.exchanges runner state
  have hx := Dialogue.answered_exchanges runner state (request.work p).run
  have hcalls := Dialogue.calls_hold runner state (request.work p).run
  cases request with
  | ensure m =>
      obtain ⟨hq, hk, lookup, hl, hval⟩ :=
        (ensure_course runner state m p).steady hr hx hv h.settled
      refine ⟨⟨_, hcalls.trans hq⟩, hk, fun _ => ⟨_, hval⟩, ?_, ?_⟩
      · rintro report hreport
        cases hval.symm.trans hreport
        exact changed_withLookup _ _
      · rintro report hreport hs
        cases hval.symm.trans hreport
        exact h.description_eq hs hl _
  | info m =>
      obtain ⟨hq, hk, hval⟩ := (info_course runner state m p.name).steady hr hx
      refine ⟨⟨_, hcalls.trans hq⟩, hk, (fun h => by cases h), ?_, ?_⟩
      · intro report hreport
        obtain ⟨lookup, message, -, rfl⟩ := hval report hreport
        exact changed_withLookup _ _
      · intro report hreport hs
        obtain ⟨lookup, message, hl, rfl⟩ := hval report hreport
        exact h.description_eq hs hl _

end Settles

/-- Requests of any number are steady, because each leaves the cluster to the next as it was. -/
theorem session_steady {binary : String} (hr : Simulates binary runner cluster)
    (hv : p.validate = .ok ()) {first : Report} (requests : List Request)
    (hb : ∀ request ∈ requests, request.manager.client.binary = binary)
    (h : Settles p (cluster state) first) :
    ∀ visit ∈ session runner p state requests,
      Steady cluster p (cluster state) first visit.1 visit.2 := by
  induction requests generalizing state with
  | nil =>
      intro visit hvisit
      cases hvisit
  | cons request rest ih =>
      have hr' : Simulates request.manager.client.binary runner cluster :=
        hb request List.mem_cons_self ▸ hr
      have hstep := h.steady hv request hr'
      intro visit hvisit
      rcases List.mem_cons.mp hvisit with rfl | hvisit
      · exact hstep
      · have h' := ih (fun r hm => hb r (List.mem_cons_of_mem _ hm)) (hstep.keeps ▸ h) visit hvisit
        rwa [hstep.keeps] at h'

/-- Creating or deleting a resource is idempotent: it succeeds, and every later request of a session
of any length asks once, leaves the cluster as it is and tells what the first operation told. -/
theorem ensure_idempotent (m : Manager) (hm : m.checkMode = false) (p : Params)
    (hv : p.validate = .ok ()) (hs : p.state = .present ∨ p.state = .absent)
    (hr : Simulates m.client.binary runner cluster) (state : σ) :
    let t := (m.ensure p).run.hold runner state
    ∃ first, t.value = .ok first ∧ ∀ requests : List Request,
      (∀ request ∈ requests, request.manager.client.binary = m.client.binary) →
      ∀ visit ∈ session runner p t.state requests,
        Steady cluster p (cluster t.state) first visit.1 visit.2 := by
  intro t
  have hx := Dialogue.answered_exchanges runner state (m.ensure p).run
  obtain ⟨first, hfirst, hset⟩ := (ensure_course runner state m p).settles hr hx hv hm hs
  exact ⟨first, hfirst, fun requests hb => session_steady hr hv requests hb hset⟩

/-- A resource is created in an empty cluster; then it is asked for again, in check mode too, and
reported on. -/
theorem ensure_idempotent_create :
    let m : Manager := { }
    let p : Params := { name := "db", resources := [{ type := "Dummy" }] }
    let runner := Cluster.runner fun _ => ⟨"db:1", by decide +kernel, by decide +kernel⟩
    let t := (m.ensure p).run.hold runner ∅
    let requests : List Request := [.ensure m, .ensure { m with checkMode := true }, .info m]
    m.checkMode = false ∧ p.validate = .ok () ∧ p.state = .present ∧
      ∃ first, t.value = .ok first ∧ ∀ visit ∈ session runner p t.state requests,
        Steady (fun c => c) p t.state first visit.1 visit.2 := by
  intro m p runner t requests
  have hv : p.validate = .ok () := by decide +kernel
  have hb : ∀ request ∈ requests, request.manager.client.binary = m.client.binary := by
    simp [requests, Request.manager, m]
  obtain ⟨first, hfirst, hsteady⟩ :=
    ensure_idempotent m rfl p hv (.inl rfl) (Cluster.simulates _ _) ∅
  exact ⟨rfl, hv, rfl, first, hfirst, hsteady requests hb⟩

end Manager

end ResourceAgent
