import ResourceAgent.Proofs.Params.Validation
import ResourceAgent.Proofs.Pcs.Client
import ResourceAgent.Reconcile

/-!
# The course of an operation

Whatever the answers are, bringing a resource into its state takes one of the courses listed here:
nothing is asked because the parameters make no sense, or the resource is queried and the operation
ends there, or one command changes the resource, and unless that removes it, it is queried again.
`ensure_course` is the only place where the operation is followed through its branches; everything
that is said about its runs is read off the list. A report on a resource is one query, and takes one
of the courses of `Inspection`.
-/
namespace ResourceAgent

namespace Params

/-- The one command that brings a resource into the requested state, given whether it exists. -/
inductive Prescribes (p : Params) : Bool → Pcs.Command → Prop
  | create {spec : ResourceSpec} : p.state = .present → p.resources = [spec] →
      Prescribes p false (.create p.name spec)
  | update {spec : ResourceSpec} : p.state = .updated → p.resources = [spec] →
      Prescribes p true (.update p.name spec)
  | delete : p.state = .absent → Prescribes p true (.delete p.name p.force)
  | move {node : String} : p.state = .relocated → p.node = some node →
      Prescribes p true (.move p.name node (some p.timeout))

/-- The resource is in the requested state, given whether it exists. -/
inductive Settled (p : Params) : Bool → Prop
  | present : p.state = .present → Settled p true
  | absent : p.state = .absent → Settled p false

/-- The requested state is one that only an existing resource can be brought into. -/
def NeedsResource (p : Params) : Prop := p.state = .updated ∨ p.state = .relocated

/-- The time a command may take; none if it is a move whose time cannot be extended. -/
def deadline? (p : Params) : Pcs.Command → Option Duration
  | .move _ _ _ => (Duration.ofSeconds p.timeout).addSeconds? Pcs.moveGrace
  | _ => some (.ofSeconds p.timeout)

def settledMessage (p : Params) : String :=
  match p.state with
  | .absent => "Resource " ++ p.name ++ " is already absent"
  | _ => "Resource " ++ p.name ++ " already exists"

def missingReason (p : Params) : String :=
  match p.state with
  | .relocated => p.name ++ " does not exist to relocate"
  | _ => p.name ++ " does not exist to update"

def foreseenMessage (p : Params) : String :=
  match p.state with
  | .present => "Resource " ++ p.name ++ " would be created"
  | .updated => "Resource " ++ p.name ++ " would be updated"
  | .absent => "Resource " ++ p.name ++ " would be deleted"
  | .relocated => "Resource " ++ p.name ++ " would be moved to " ++ p.node.getD ""

def doneMessage (p : Params) : String :=
  match p.state with
  | .present => "Resource " ++ p.name ++ " created"
  | .updated => "Resource " ++ p.name ++ " updated"
  | .absent => "Resource " ++ p.name ++ " deleted"
  | .relocated => "Resource " ++ p.name ++ " moved to " ++ p.node.getD ""

/-- What check mode reports: a resource that would be deleted is not described any more. -/
def foreseenReport (p : Params) (lookup : Pcs.Lookup) : Report :=
  match p.state with
  | .absent => .ofChanged p.foreseenMessage
  | _ => (Report.ofChanged p.foreseenMessage).withLookup lookup

end Params

namespace Manager

/-- The query that starts an operation, and ends it where there is something left to query. -/
def query (m : Manager) (p : Params) : Invocation :=
  m.client.invocation (.config p.name) (.ofSeconds p.timeout)

theorem mutates_query (m : Manager) (p : Params) : (m.query p).mutates = false :=
  Pcs.Client.mutates_invocation _ _ _

/-- The course after a change, given its answer. -/
inductive Aftermath (m : Manager) (p : Params) (change : Pcs.Command) (answer : Answer) :
    List (Invocation × Answer) → Except Abort Report → Prop
  | failed {failure : Failure} : m.client.resultOf change answer = .error failure →
      Aftermath m p change answer [] (.error (.failed failure))
  | deleted {output : Output} : m.client.resultOf change answer = .ok output →
      p.state = .absent → Aftermath m p change answer [] (.ok (.ofChanged p.doneMessage))
  | queryFailed {output : Output} {requeried : Answer} {failure : Failure} :
      m.client.resultOf change answer = .ok output → p.state ≠ .absent →
      m.client.lookupOf p.name requeried = .error failure →
      Aftermath m p change answer [(m.query p, requeried)] (.error (.failed failure))
  | described {output : Output} {requeried : Answer} {after : Pcs.Lookup} :
      m.client.resultOf change answer = .ok output → p.state ≠ .absent →
      m.client.lookupOf p.name requeried = .ok after →
      Aftermath m p change answer [(m.query p, requeried)]
        (.ok ((Report.ofChanged p.doneMessage).withLookup after))

/-- The course after the first query, given what it found. -/
inductive Onward (m : Manager) (p : Params) (lookup : Pcs.Lookup) :
    List (Invocation × Answer) → Except Abort Report → Prop
  | settled : p.Settled lookup.exists? →
      Onward m p lookup [] (.ok ((Report.ofUnchanged p.settledMessage).withLookup lookup))
  | missing : p.NeedsResource → lookup.exists? = false →
      Onward m p lookup [] (.error (.failed (.resourceMissing p.missingReason)))
  | foreseen {change : Pcs.Command} : p.Prescribes lookup.exists? change → m.checkMode = true →
      Onward m p lookup [] (.ok (p.foreseenReport lookup))
  | overflow {change : Pcs.Command} : p.Prescribes lookup.exists? change → m.checkMode = false →
      p.deadline? change = none → Onward m p lookup [] (.error .limitOverflow)
  | change {change : Pcs.Command} {limit : Duration} {answer : Answer} {rest value} :
      p.Prescribes lookup.exists? change → m.checkMode = false →
      p.deadline? change = some limit → Aftermath m p change answer rest value →
      Onward m p lookup ((m.client.invocation change limit, answer) :: rest) value

/-- The course of an operation: what is asked and answered, and what comes of it. -/
inductive Course (m : Manager) (p : Params) :
    List (Invocation × Answer) → Except Abort Report → Prop
  | refused {defect : Defect} : p.validate = .error defect →
      Course m p [] (.error (.failed (.validation defect.message)))
  | queryFailed {answer : Answer} {failure : Failure} : p.validate = .ok () →
      m.client.lookupOf p.name answer = .error failure →
      Course m p [(m.query p, answer)] (.error (.failed failure))
  | onward {answer : Answer} {lookup : Pcs.Lookup} {rest value} : p.validate = .ok () →
      m.client.lookupOf p.name answer = .ok lookup → Onward m p lookup rest value →
      Course m p ((m.query p, answer) :: rest) value

/-- The query that a report is made from. -/
def inspect (m : Manager) (name : String) : Invocation :=
  m.client.invocation (.config name) m.client.limit

/-- The course of a report on a resource. -/
inductive Inspection (m : Manager) (name : String) (answer : Answer) :
    List (Invocation × Answer) → Except Abort Report → Prop
  | queryFailed {failure : Failure} : m.client.lookupOf name answer = .error failure →
      Inspection m name answer [(m.inspect name, answer)] (.error (.failed failure))
  | missing {message : String} : m.client.lookupOf name answer = .ok (.missing message) →
      Inspection m name answer [(m.inspect name, answer)]
        (.ok (.ofUnchanged ("Resource " ++ name ++ " not found")))
  | unreadable {raw : String} {e : Outline.Error} :
      m.client.lookupOf name answer = .ok (.found raw) → Outline.parse raw = .error e →
      Inspection m name answer [(m.inspect name, answer)] (.error (.failed (.outline e)))
  | described {raw : String} {tree : Outline.Tree} :
      m.client.lookupOf name answer = .ok (.found raw) → Outline.parse raw = .ok tree →
      Inspection m name answer [(m.inspect name, answer)]
        (.ok ((Report.ofUnchanged ("Resource " ++ name ++ " found")).withLookup (.found raw)))

/-- A report asks one question, and none but this. -/
theorem Inspection.exchanges_eq {m : Manager} {name : String} {answer : Answer}
    {x : List (Invocation × Answer)} {value : Except Abort Report}
    (hi : Inspection m name answer x value) : x = [(m.inspect name, answer)] := by
  cases hi <;> rfl

variable {σ : Type} (runner : Runner σ) (state : σ)

theorem withLookup_of_not_exists {lookup : Pcs.Lookup} (h : lookup.exists? = false)
    (report : Report) : report.withLookup lookup = report := by
  cases lookup with
  | found raw => cases h
  | missing message => rfl

theorem withLookup_of_parse_ok {raw : String} {tree : Outline.Tree}
    (h : Outline.parse raw = .ok tree) (report : Report) :
    report.withLookup (.found raw) = { report with raw := some raw, resource := some tree } := by
  simp only [Report.withLookup, h]

theorem withLookup_of_parse_error {raw : String} {e : Outline.Error}
    (h : Outline.parse raw = .error e) (report : Report) :
    report.withLookup (.found raw) =
      { report with raw := some raw, parseError := some e.message } := by
  simp only [Report.withLookup, h]

theorem changed_withLookup (report : Report) (lookup : Pcs.Lookup) :
    (report.withLookup lookup).changed = report.changed := by
  unfold Report.withLookup
  split
  · rfl
  · split <;> rfl

theorem outcome_attach (report : Report) (lookup : Pcs.Lookup) :
    (attach report lookup).outcome runner state = ⟨.ok (report.withLookup lookup), [], state⟩ := by
  unfold attach
  split <;> simp

/-- A change, and if it goes well the query after it, as three of the four states compose them. -/
theorem onward_change {m : Manager} {p : Params} {lookup : Pcs.Lookup} {change : Pcs.Command}
    {limit : Duration} (hp : p.Prescribes lookup.exists? change) (hm : m.checkMode = false)
    (hs : p.state ≠ .absent) (hd : p.deadline? change = some limit) {o : Outcome σ Report}
    (ho : o = (((m.client.withLimit (.ofSeconds p.timeout)).invokeChecked change limit).outcome
      runner state).andThen fun _ s =>
        (((m.client.withLimit (.ofSeconds p.timeout)).getResource p.name).outcome
          runner s).andThen fun after s =>
            (attach (.ofChanged p.doneMessage) after).outcome runner s) :
    Onward m p lookup o.exchanges o.value := by
  simp only [Pcs.Client.outcome_invokeChecked, Pcs.Client.outcome_getResource, outcome_attach,
    Pcs.Client.limit_withLimit, Pcs.Client.invocation_withLimit, Pcs.Client.lookupOf_withLimit,
    Pcs.Client.resultOf_withLimit] at ho
  cases hr : m.client.resultOf change (runner (m.client.invocation change limit) state).answer with
  | error failure =>
      rw [hr] at ho
      rw [ho]
      exact .change hp hm hd (.failed hr)
  | ok output =>
      rw [hr] at ho
      simp only [Except.mapError, Outcome.andThen_ok] at ho
      cases hl : m.client.lookupOf p.name (runner (m.query p)
          (runner (m.client.invocation change limit) state).state).answer with
      | error failure =>
          unfold query at hl
          rw [hl] at ho
          rw [ho]
          exact .change hp hm hd (.queryFailed hr hs hl)
      | ok after =>
          unfold query at hl
          rw [hl] at ho
          rw [ho]
          exact .change hp hm hd (.described hr hs hl)

variable {m : Manager} {p : Params} (lookup : Pcs.Lookup)

/-- Work that asks nothing takes the course that its value has without questions. -/
theorem onward_of_eq {lookup : Pcs.Lookup} {value : Except Abort Report}
    (h : Onward m p lookup [] value) {o : Outcome σ Report} (ho : o = ⟨value, [], state⟩) :
    Onward m p lookup o.exchanges o.value := by
  rw [ho]
  exact h

theorem onward_present (hv : p.validate = .ok ()) (hs : p.state = .present) :
    let o := (m.reconcilePresent (m.client.withLimit (.ofSeconds p.timeout)) p lookup).outcome
      runner state
    Onward m p lookup o.exchanges o.value := by
  intro o
  obtain ⟨spec, hspec, -⟩ := (Params.validate_eq_ok_iff.mp hv).defined (.inl hs)
  cases he : lookup.exists? with
  | true =>
      refine onward_of_eq state (.settled (he ▸ .present hs)) ?_
      simp [o, reconcilePresent, he, leaveAlone, outcome_attach, Params.settledMessage, hs]
  | false =>
      have hp : p.Prescribes lookup.exists? (.create p.name spec) := he ▸ .create hs hspec
      cases hm : m.checkMode with
      | true =>
          refine onward_of_eq state (.foreseen hp hm) ?_
          simp [o, reconcilePresent, he, hm, Params.foreseenReport, Params.foreseenMessage, hs,
            withLookup_of_not_exists he]
      | false =>
          refine onward_change runner state hp hm (by simp [hs]) rfl ?_
          simp [o, reconcilePresent, he, hm, Params.resource, hspec, failOnDefect,
            Pcs.Client.outcome_create, Params.doneMessage, hs]

theorem onward_updated (hv : p.validate = .ok ()) (hs : p.state = .updated) :
    let o := (m.reconcileUpdated (m.client.withLimit (.ofSeconds p.timeout)) p lookup).outcome
      runner state
    Onward m p lookup o.exchanges o.value := by
  intro o
  obtain ⟨spec, hspec, -⟩ := (Params.validate_eq_ok_iff.mp hv).defined (.inr hs)
  cases he : lookup.exists? with
  | false =>
      refine onward_of_eq state (.missing (.inl hs) he) ?_
      simp [o, reconcileUpdated, he, Params.missingReason, hs]
  | true =>
      have hp : p.Prescribes lookup.exists? (.update p.name spec) := he ▸ .update hs hspec
      cases hm : m.checkMode with
      | true =>
          refine onward_of_eq state (.foreseen hp hm) ?_
          simp [o, reconcileUpdated, he, hm, Params.foreseenReport, Params.foreseenMessage, hs,
            outcome_attach]
      | false =>
          refine onward_change runner state hp hm (by simp [hs]) rfl ?_
          simp [o, reconcileUpdated, he, hm, Params.resource, hspec, failOnDefect,
            Pcs.Client.outcome_update, Params.doneMessage, hs]

theorem onward_relocated (hv : p.validate = .ok ()) (hs : p.state = .relocated) :
    let o := (m.reconcileRelocated (m.client.withLimit (.ofSeconds p.timeout)) p lookup).outcome
      runner state
    Onward m p lookup o.exchanges o.value := by
  intro o
  have hsensible := Params.validate_eq_ok_iff.mp hv
  obtain ⟨node, hnode, -⟩ := hsensible.directed hs
  cases he : lookup.exists? with
  | false =>
      refine onward_of_eq state (.missing (.inr hs) he) ?_
      simp [o, reconcileRelocated, he, Params.missingReason, hs]
  | true =>
      have hp : p.Prescribes lookup.exists? (.move p.name node (some p.timeout)) :=
        he ▸ .move hs hnode
      have hw : Pcs.Client.moveWait (.ofSeconds p.timeout) = some p.timeout :=
        if_neg (UInt64.pos_iff_ne_zero.mp hsensible.timeout)
      cases hm : m.checkMode with
      | true =>
          refine onward_of_eq state (.foreseen hp hm) ?_
          simp [o, reconcileRelocated, he, hm, Params.foreseenReport, Params.foreseenMessage, hs,
            outcome_attach]
      | false =>
          cases hd : (Duration.ofSeconds p.timeout).addSeconds? Pcs.moveGrace with
          | none =>
              refine onward_of_eq state (.overflow hp hm hd) ?_
              simp [o, reconcileRelocated, he, hm, Pcs.Client.outcome_relocate, hd]
          | some limit =>
              refine onward_change runner state hp hm (by simp [hs]) hd ?_
              simp [o, reconcileRelocated, he, hm, Pcs.Client.outcome_relocate, hd, hw, hnode,
                Params.doneMessage, hs]

theorem onward_absent (hs : p.state = .absent) :
    let o := (m.reconcileAbsent (m.client.withLimit (.ofSeconds p.timeout)) p lookup).outcome
      runner state
    Onward m p lookup o.exchanges o.value := by
  intro o
  cases he : lookup.exists? with
  | false =>
      refine onward_of_eq state (.settled (he ▸ .absent hs)) ?_
      simp [o, reconcileAbsent, he, leaveAlone, Params.settledMessage, hs,
        withLookup_of_not_exists he]
  | true =>
      have hp : p.Prescribes lookup.exists? (.delete p.name p.force) := he ▸ .delete hs
      cases hm : m.checkMode with
      | true =>
          refine onward_of_eq state (.foreseen hp hm) ?_
          simp [o, reconcileAbsent, he, hm, Params.foreseenReport, Params.foreseenMessage, hs]
      | false =>
          let call := m.client.invocation (.delete p.name p.force) (.ofSeconds p.timeout)
          let reply := runner call state
          have ho : o = (Outcome.mk
              ((m.client.resultOf (.delete p.name p.force) reply.answer).mapError Abort.failed)
              [(call, reply.answer)] reply.state).andThen
              fun _ s => ⟨.ok (.ofChanged p.doneMessage), [], s⟩ := by
            simp [o, reconcileAbsent, he, hm, Pcs.Client.outcome_delete,
              Pcs.Client.outcome_invokeChecked, Params.doneMessage, hs, call, reply]
          cases hr : m.client.resultOf (.delete p.name p.force) reply.answer with
          | error failure =>
              rw [hr] at ho
              rw [ho]
              exact .change hp hm rfl (.failed hr)
          | ok output =>
              rw [hr] at ho
              rw [ho]
              exact .change hp hm rfl (.deleted hr hs)

/-- What is done about what the first query found. -/
def goOn (m : Manager) (client : Pcs.Client) (p : Params) (lookup : Pcs.Lookup) : Work Report :=
  match p.state with
  | .present => m.reconcilePresent client p lookup
  | .updated => m.reconcileUpdated client p lookup
  | .absent => m.reconcileAbsent client p lookup
  | .relocated => m.reconcileRelocated client p lookup

theorem reconcile_eq (m : Manager) (client : Pcs.Client) (p : Params) :
    m.reconcile client p = client.getResource p.name >>= m.goOn client p := rfl

theorem onward_goOn (hv : p.validate = .ok ()) :
    let o := (m.goOn (m.client.withLimit (.ofSeconds p.timeout)) p lookup).outcome runner state
    Onward m p lookup o.exchanges o.value := by
  unfold goOn
  cases hs : p.state with
  | present => exact onward_present runner state lookup hv hs
  | updated => exact onward_updated runner state lookup hv hs
  | absent => exact onward_absent runner state lookup hs
  | relocated => exact onward_relocated runner state lookup hv hs

/-- Every operation takes one of the courses, whatever the runner answers. -/
theorem ensure_course (m : Manager) (p : Params) :
    let o := (m.ensure p).outcome runner state
    Course m p o.exchanges o.value := by
  intro o
  cases hv : p.validate with
  | error defect =>
      have ho : o = ⟨.error (.failed (.validation defect.message)), [], state⟩ := by
        simp [o, ensure, hv, failOnDefect]
      rw [ho]
      exact .refused hv
  | ok u =>
      let reply := runner (m.query p) state
      have ho : o = (Outcome.mk ((m.client.lookupOf p.name reply.answer).mapError Abort.failed)
          [(m.query p, reply.answer)] reply.state).andThen fun lookup s =>
          (m.goOn (m.client.withLimit (.ofSeconds p.timeout)) p lookup).outcome runner s := by
        simp [o, ensure, hv, failOnDefect, reconcile_eq, Pcs.Client.outcome_getResource, query,
          reply]
      cases hl : m.client.lookupOf p.name reply.answer with
      | error failure =>
          rw [hl] at ho
          rw [ho]
          exact .queryFailed hv hl
      | ok lookup =>
          rw [hl] at ho
          rw [ho]
          exact .onward hv hl (onward_goOn runner reply.state lookup hv)

/-- What a report tells about what its query found. -/
def tell (name : String) : Pcs.Lookup → Work Report
  | .missing _ => return .ofUnchanged ("Resource " ++ name ++ " not found")
  | .found raw =>
      match Outline.parse raw with
      | .error e => Work.fail (.outline e)
      | .ok tree =>
          return { Report.ofUnchanged ("Resource " ++ name ++ " found") with
            resource := some tree, raw := some raw }

theorem describe_eq (m : Manager) (name : String) :
    m.describe name = m.client.getResource name >>= tell name := rfl

/-- Every report takes one of the courses of an inspection. -/
theorem info_course (m : Manager) (name : String) :
    let o := (m.info name).outcome runner state
    Inspection m name (runner (m.inspect name) state).answer o.exchanges o.value := by
  intro o
  let reply := runner (m.inspect name) state
  have ho : o = (Outcome.mk ((m.client.lookupOf name reply.answer).mapError Abort.failed)
      [(m.inspect name, reply.answer)] reply.state).andThen fun lookup s =>
      (tell name lookup).outcome runner s := by
    simp [o, info, describe_eq, Pcs.Client.outcome_getResource, inspect, reply]
  cases hl : m.client.lookupOf name reply.answer with
  | error failure =>
      rw [hl] at ho
      rw [ho]
      exact .queryFailed hl
  | ok lookup =>
      rw [hl] at ho
      rw [ho]
      cases lookup with
      | missing message => exact .missing hl
      | found raw =>
          cases hp : Outline.parse raw with
          | error e =>
              simp only [Except.mapError, Outcome.andThen_ok, tell, hp]
              exact .unreadable hl hp
          | ok tree =>
              have h := Inspection.described hl hp
              rw [withLookup_of_parse_ok hp] at h
              simp only [Except.mapError, Outcome.andThen_ok, tell, hp]
              exact h

end Manager

end ResourceAgent
