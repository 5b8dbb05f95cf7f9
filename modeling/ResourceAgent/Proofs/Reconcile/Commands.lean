import ResourceAgent.Proofs.Reconcile.Document

/-!
# The commands of an operation

Whichever course an operation takes, its commands are the query and the change that the requested
state prescribes. So what holds of these two holds of every command that is run. Validation is what
makes the change well-formed: after it an operation has no use for the failures and the empty node
that it would otherwise fall back on.
-/
namespace ResourceAgent

open Text (NotBlank)

namespace Pcs.Command

/-- The resource that a command is about. -/
def resource : Command → String
  | .config name => name
  | .create name _ => name
  | .update name _ => name
  | .delete name _ => name
  | .move name _ _ => name

theorem args_resource (command : Command) : command.args[2]? = some command.resource := by
  cases command <;> rfl

end Pcs.Command

namespace Params

variable {p : Params} {found : Bool} {change : Pcs.Command}

theorem Prescribes.resource_eq (h : p.Prescribes found change) : change.resource = p.name := by
  cases h <;> rfl

/-- Only a relocation prescribes a move, and it tells where to and how long to wait. -/
theorem Prescribes.eq_move (h : p.Prescribes found change) (hv : change.verb = "move") :
    p.state = .relocated ∧ ∃ node, p.node = some node ∧
      change = .move p.name node (some p.timeout) := by
  cases h with
  | create _ _ => exact absurd hv (by simp [Pcs.Command.verb])
  | update _ _ => exact absurd hv (by simp [Pcs.Command.verb])
  | delete _ => exact absurd hv (by simp [Pcs.Command.verb])
  | move hs hn => exact ⟨hs, _, hn, rfl⟩

end Params

namespace Manager

variable {m : Manager} {p : Params} {x : List (Invocation × Answer)}
  {value : Except Abort Report} {call : Invocation} {answer : Answer}

/-- A command that an operation may run: the query, or the change that is prescribed. -/
inductive Issues (m : Manager) (p : Params) : Invocation → Prop
  | query : Issues m p (m.query p)
  | change {found : Bool} {change : Pcs.Command} {limit : Duration} :
      p.Prescribes found change → p.deadline? change = some limit →
      Issues m p (m.client.invocation change limit)

theorem Onward.issues {lookup : Pcs.Lookup} (ho : Onward m p lookup x value)
    (hx : (call, answer) ∈ x) : Issues m p call := by
  cases ho with
  | change hp hm hd ha =>
      rcases List.mem_cons.mp hx with he | hrest
      · cases he
        exact .change hp hd
      · rcases ha.eq_nil_or with rfl | ⟨requeried, rfl⟩
        · cases hrest
        · cases List.mem_singleton.mp hrest
          exact .query
  | _ => cases hx

/-- No command is run for parameters that are refused, and none but these for the others. -/
theorem Course.issues (hc : Course m p x value) (hx : (call, answer) ∈ x) :
    p.validate = .ok () ∧ Issues m p call := by
  cases hc with
  | refused hv => cases hx
  | queryFailed hv hl =>
      cases List.mem_singleton.mp hx
      exact ⟨hv, .query⟩
  | onward hv hl ho =>
      rcases List.mem_cons.mp hx with he | hrest
      · cases he
        exact ⟨hv, .query⟩
      · exact ⟨hv, ho.issues hrest⟩

theorem Issues.resource (h : Issues m p call) : call.args[2]? = some p.name := by
  cases h with
  | query => rfl
  | @change found change limit hp hd =>
      rw [← hp.resource_eq]
      exact change.args_resource

/-- A move is the prescribed one. -/
theorem Issues.eq_move (h : Issues m p call) (hv : call.args[1]? = some "move") :
    p.state = .relocated ∧ ∃ node limit, p.node = some node ∧
      p.deadline? (.move p.name node (some p.timeout)) = some limit ∧
      call = m.client.invocation (.move p.name node (some p.timeout)) limit := by
  cases h with
  | query =>
      rw [Manager.query, Pcs.Client.verb_invocation, Option.some.injEq] at hv
      exact absurd hv (by simp [Pcs.Command.verb])
  | @change found change limit hp hd =>
      rw [Pcs.Client.verb_invocation, Option.some.injEq] at hv
      obtain ⟨hs, node, hn, rfl⟩ := hp.eq_move hv
      exact ⟨hs, node, limit, hn, hd, rfl⟩

/-- Once the parameters are accepted, only the runner can say that they make no sense. -/
theorem Course.exists_validation (hc : Course m p x value) (hv : p.validate = .ok ())
    {reason : String} (he : value = .error (.failed (.validation reason))) :
    ∃ call, (call, .error (.validation reason)) ∈ x := by
  refine hc.exists_answer he ?_ nofun rfl
  intro defect hd
  cases hv.symm.trans hd

/-- The command is about the resource of the parameters, and if it is a move, it goes to a node
that has a name. -/
structure WellAddressed (p : Params) (call : Invocation) : Prop where
  name : call.args[2]? = some p.name
  name_ne_empty : p.name ≠ ""
  name_unbroken : ∀ c ∈ p.name.toList, Text.isBlank c = false
  node : call.args[1]? = some "move" → ∃ node, call.args[3]? = some node ∧ NotBlank node

theorem Issues.wellAddressed (h : Issues m p call) (hp : p.Sensible) : WellAddressed p call where
  name := h.resource
  name_ne_empty := hp.name_ne_empty
  name_unbroken := hp.name_unbroken
  node := by
    intro hv
    obtain ⟨hs, node, limit, hn, -, rfl⟩ := h.eq_move hv
    obtain ⟨node', hn', hnode⟩ := hp.directed hs
    cases hn.symm.trans hn'
    exact ⟨node, rfl, hnode⟩

variable {σ : Type} (runner : Runner σ) (state : σ)

theorem issues_of_mem_calls (h : call ∈ ((m.ensure p).run.hold runner state).calls) :
    p.validate = .ok () ∧ Issues m p call := by
  rw [Dialogue.calls_hold] at h
  obtain ⟨exchange, hx, rfl⟩ := List.mem_map.mp h
  exact (ensure_course runner state m p).issues hx

/-- Validation accepts exactly the sensible parameters and looks at nothing else. What it accepts is
enough for every operation: none fails for a defect of the parameters, unless a runner says so in
place of an answer, which that of a machine never does, and every command is well addressed. -/
theorem validation_exact (p : Params) :
    (p.validate = .ok () ↔ p.Sensible) ∧
    (∀ p' : Params, p.ChecksAlike p' → p'.validate = p.validate) ∧
    (p.validate = .ok () → ∀ m : Manager,
      (let t := (m.ensure p).run.hold runner state
        let x := (m.ensure p).run.exchanges runner state
        t.calls = x.map Prod.fst ∧ (∀ call ∈ t.calls, WellAddressed p call) ∧
          ∀ reason, t.value = .error (.failed (.validation reason)) →
            ∃ call, (call, .error (.validation reason)) ∈ x) ∧
      ∀ (machine : Machine σ) (reason : String),
        ((m.ensure p).run.hold machine.run state).value ≠
          .error (.failed (.validation reason))) := by
  refine ⟨Params.validate_eq_ok_iff, fun p' => Params.ChecksAlike.validate_eq, ?_⟩
  intro hv m
  have hp := Params.validate_eq_ok_iff.mp hv
  constructor
  · intro t x
    have hc : Course m p x t.value := ensure_course runner state m p
    refine ⟨Dialogue.calls_hold runner state _, ?_, fun reason => hc.exists_validation hv⟩
    intro call hcall
    exact (issues_of_mem_calls runner state hcall).2.wellAddressed hp
  · intro machine reason he
    obtain ⟨call, hx⟩ := (ensure_course machine.run state m p).exists_validation hv he
    cases Machine.ofRunner_of_mem_exchanges hx

/-- A definition that makes no sense does not count for a relocation. -/
theorem validation_exact_move :
    let m : Manager := { }
    let p : Params :=
      { name := "db", state := .relocated, node := some " b", resources := [{ standard := ":" }] }
    let answers : List Answer := [.ok { stdout := "Resource: db" }, .ok { }, .error (.timeout "")]
    let t := (m.ensure p).run.hold scripted answers
    p.Sensible ∧ (∀ call ∈ t.calls, WellAddressed p call) ∧
      t.calls.map Invocation.args = [["resource", "config", "db"],
        ["resource", "move", "db", " b", "--wait=300"], ["resource", "config", "db"]] ∧
      ∀ reason, t.value ≠ .error (.failed (.validation reason)) := by
  intro m p answers t
  have hv : p.validate = .ok () := by decide
  have hcalls : t.calls.map Invocation.args = [["resource", "config", "db"],
      ["resource", "move", "db", " b", "--wait=300"], ["resource", "config", "db"]] := by
    decide +kernel
  have hvalue : t.value = .error (.failed (.timeout "")) := by decide +kernel
  obtain ⟨hiff, -, h⟩ := validation_exact scripted answers p
  obtain ⟨⟨-, haddressed, -⟩, -⟩ := h hv m
  refine ⟨hiff.mp hv, haddressed, hcalls, ?_⟩
  intro reason hreason
  cases hvalue.symm.trans hreason

end Manager

end ResourceAgent
