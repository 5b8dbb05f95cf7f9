import Mathlib.Data.List.Basic
import ResourceAgent.Dialogue

/-!
# What work comes to

When work is held with a runner it comes to a value, or is given up, after some commands were
asked and answered, and it leaves the runner in some state. These three are the outcome of the
work; the log is left out. Work that is composed of steps has an outcome composed of theirs, so an
operation can be followed step by step without unfolding how dialogues are held. What was asked and
answered also tells which states the runner went through.
-/
namespace ResourceAgent

variable {σ α β : Type}

namespace Dialogue

/-- The commands that are asked, each with its answer. -/
def exchanges (runner : Runner σ) (state : σ) : Dialogue α → List (Invocation × Answer)
  | .done _ => []
  | .note _ rest => rest.exchanges runner state
  | .ask _ call rest =>
      let reply := runner call state
      (call, reply.answer) :: (rest reply.answer).exchanges runner reply.state

variable (runner : Runner σ) (state : σ)

theorem calls_hold (d : Dialogue α) :
    (d.hold runner state).calls = (d.exchanges runner state).map Prod.fst := by
  induction d generalizing state with
  | done value => rfl
  | note entry rest ih => exact ih state
  | ask scope call rest ih => exact congrArg (call :: ·) (ih _ _)

theorem value_hold_bind (d : Dialogue α) (f : α → Dialogue β) :
    ((d.bind f).hold runner state).value =
      ((f (d.hold runner state).value).hold runner (d.hold runner state).state).value := by
  induction d generalizing state with
  | done value => rfl
  | note entry rest ih => exact ih state
  | ask scope call rest ih => exact ih _ _

theorem state_hold_bind (d : Dialogue α) (f : α → Dialogue β) :
    ((d.bind f).hold runner state).state =
      ((f (d.hold runner state).value).hold runner (d.hold runner state).state).state := by
  induction d generalizing state with
  | done value => rfl
  | note entry rest ih => exact ih state
  | ask scope call rest ih => exact ih _ _

theorem exchanges_bind (d : Dialogue α) (f : α → Dialogue β) :
    (d.bind f).exchanges runner state = d.exchanges runner state ++
      (f (d.hold runner state).value).exchanges runner (d.hold runner state).state := by
  induction d generalizing state with
  | done value => rfl
  | note entry rest ih => exact ih state
  | ask scope call rest ih => exact congrArg (_ :: ·) (ih _ _)

/-- A scope is seen in the log only. -/
theorem hold_within (scope : Log.Scope) (d : Dialogue α) :
    ((d.within scope).hold runner state).value = (d.hold runner state).value ∧
      ((d.within scope).hold runner state).state = (d.hold runner state).state ∧
      (d.within scope).exchanges runner state = d.exchanges runner state := by
  induction d generalizing state with
  | done value => exact ⟨rfl, rfl, rfl⟩
  | note entry rest ih => exact ih state
  | ask outer call rest ih =>
      obtain ⟨hv, hs, hx⟩ := ih _ (runner call state).state
      exact ⟨hv, hs, congrArg (_ :: ·) hx⟩

/-- The answers are those of the runner, which they take from one state to another. -/
inductive Answered (runner : Runner σ) : σ → List (Invocation × Answer) → σ → Prop
  | nil {state : σ} : Answered runner state [] state
  | cons {state final : σ} {call : Invocation} {rest : List (Invocation × Answer)} :
      Answered runner (runner call state).state rest final →
      Answered runner state ((call, (runner call state).answer) :: rest) final

theorem Answered.exists_state {runner : Runner σ} {state final : σ}
    {x : List (Invocation × Answer)} (h : Answered runner state x final) {call : Invocation}
    {answer : Answer} (hx : (call, answer) ∈ x) : ∃ s, answer = (runner call s).answer := by
  induction h with
  | nil => cases hx
  | cons _ ih =>
      rcases List.mem_cons.mp hx with he | hx
      · cases he
        exact ⟨_, rfl⟩
      · exact ih hx

theorem answered_exchanges (d : Dialogue α) :
    Answered runner state (d.exchanges runner state) (d.hold runner state).state := by
  induction d generalizing state with
  | done value => exact .nil
  | note entry rest ih => exact ih state
  | ask scope call rest ih => exact .cons (ih _ _)

/-- The first answer depends on the first command and the runner only. -/
theorem answer_of_exchanges_cons {d : Dialogue α} {call : Invocation} {answer : Answer}
    {rest : List (Invocation × Answer)} (h : d.exchanges runner state = (call, answer) :: rest) :
    answer = (runner call state).answer := by
  have ha := answered_exchanges runner state d
  rw [h] at ha
  cases ha with
  | cons _ => rfl

end Dialogue

/-- What work comes to: its value, what was asked and answered, and the state of the runner. -/
@[ext]
structure Outcome (σ α : Type) where
  value : Except Abort α
  exchanges : List (Invocation × Answer)
  state : σ

/-- Go on with the value in the state of the runner, unless the work was given up. -/
def Outcome.andThen (o : Outcome σ α) (f : α → σ → Outcome σ β) : Outcome σ β :=
  match o.value with
  | .error abort => ⟨.error abort, o.exchanges, o.state⟩
  | .ok a => ⟨(f a o.state).value, o.exchanges ++ (f a o.state).exchanges, (f a o.state).state⟩

@[simp] theorem Outcome.andThen_ok (a : α) (x : List (Invocation × Answer)) (s : σ)
    (f : α → σ → Outcome σ β) :
    (Outcome.mk (.ok a) x s).andThen f = ⟨(f a s).value, x ++ (f a s).exchanges, (f a s).state⟩ :=
  rfl

@[simp] theorem Outcome.andThen_error (abort : Abort) (x : List (Invocation × Answer)) (s : σ)
    (f : α → σ → Outcome σ β) : (Outcome.mk (.error abort) x s).andThen f = ⟨.error abort, x, s⟩ :=
  rfl

@[simp high] theorem Outcome.andThen_ok_nil (a : α) (s : σ) (f : α → σ → Outcome σ β) :
    (Outcome.mk (.ok a) [] s).andThen f = f a s := rfl

@[simp] theorem Outcome.andThen_assoc {γ : Type} (o : Outcome σ α) (f : α → σ → Outcome σ β)
    (g : β → σ → Outcome σ γ) :
    (o.andThen f).andThen g = o.andThen fun a s => (f a s).andThen g := by
  obtain ⟨value, x, s⟩ := o
  cases value with
  | error abort => rfl
  | ok a =>
      cases h : (f a s).value with
      | error abort => simp [Outcome.andThen, h]
      | ok b => simp [Outcome.andThen, h]

namespace Work

/-- The outcome of work that is held with a runner. -/
def outcome (runner : Runner σ) (state : σ) (work : Work α) : Outcome σ α where
  value := (work.run.hold runner state).value
  exchanges := work.run.exchanges runner state
  state := (work.run.hold runner state).state

variable (runner : Runner σ) (state : σ)

@[simp] theorem outcome_pure (a : α) :
    (pure a : Work α).outcome runner state = ⟨.ok a, [], state⟩ := rfl

@[simp] theorem outcome_throw (abort : Abort) :
    (throw abort : Work α).outcome runner state = ⟨.error abort, [], state⟩ := rfl

@[simp] theorem outcome_fail (failure : Failure) :
    (fail failure : Work α).outcome runner state = ⟨.error (.failed failure), [], state⟩ := rfl

@[simp] theorem outcome_write (level : Log.Level) (origin : Log.Origin) (message : String) :
    (write level origin message).outcome runner state = ⟨.ok (), [], state⟩ := rfl

/-- Steps one after the other. -/
@[simp] theorem outcome_bind (work : Work α) (f : α → Work β) :
    (work >>= f).outcome runner state =
      (work.outcome runner state).andThen fun a s => (f a).outcome runner s := by
  have hrun : (work >>= f).run = work.run.bind (ExceptT.bindCont f) := rfl
  have hv := Dialogue.value_hold_bind runner state work.run (ExceptT.bindCont f)
  have hx := Dialogue.exchanges_bind runner state work.run (ExceptT.bindCont f)
  have hs := Dialogue.state_hold_bind runner state work.run (ExceptT.bindCont f)
  rw [← hrun] at hv hx hs
  unfold Outcome.andThen outcome
  dsimp only
  cases h : (work.run.hold runner state).value with
  | ok a =>
      rw [h] at hv hx hs
      exact Outcome.ext hv hx hs
  | error abort =>
      rw [h] at hv hx hs
      exact Outcome.ext hv (hx.trans (List.append_nil _)) hs

@[simp] theorem outcome_discard (work : Work α) :
    (discard work).outcome runner state =
      (work.outcome runner state).andThen fun _ s => ⟨.ok (), [], s⟩ := by
  have h : (discard work) = (work >>= fun _ => pure ()) := rfl
  rw [h, outcome_bind]
  rfl

@[simp] theorem outcome_ofExcept (e : Except Failure α) :
    (ofExcept e).outcome runner state = ⟨e.mapError .failed, [], state⟩ := by
  cases e <;> rfl

/-- One command: the runner is asked once. -/
@[simp] theorem outcome_call (invocation : Invocation) :
    (call invocation).outcome runner state =
      ⟨(runner invocation state).answer.mapError .failed,
        [(invocation, (runner invocation state).answer)], (runner invocation state).state⟩ := by
  have h : (call invocation).outcome runner state =
      (Outcome.mk (.ok (runner invocation state).answer)
        [(invocation, (runner invocation state).answer)] (runner invocation state).state).andThen
      fun answer s => (ofExcept answer).outcome runner s := by
    rw [call, outcome_bind]
    rfl
  rw [h]
  simp

@[simp] theorem outcome_within (scope : Log.Scope) (work : Work α) :
    (work.within scope).outcome runner state = work.outcome runner state := by
  obtain ⟨hv, hs, hx⟩ := Dialogue.hold_within runner state scope work.run
  exact Outcome.ext hv hx hs

end Work

end ResourceAgent
