import ResourceAgent.Pcs.Client
import ResourceAgent.Proofs.Dialogue

/-!
# What the client makes of answers

Each operation of the client runs one command and judges its answer; the operations differ in the
command, the time limit and the judgement, and in nothing else that a runner could tell.
-/
namespace ResourceAgent

namespace Pcs.Command

/-- The word that tells commands apart. -/
def verb : Command → String
  | .config _ => "config"
  | .create _ _ => "create"
  | .update _ _ => "update"
  | .delete _ _ => "delete"
  | .move _ _ _ => "move"

/-- All commands change the resource, except for the query. -/
def mutates : Command → Bool
  | .config _ => false
  | _ => true

theorem args_verb (command : Command) : command.args[1]? = some command.verb := by
  cases command <;> rfl

theorem mutates_iff_verb (command : Command) :
    command.mutates = true ↔ command.verb ∈ ["create", "update", "delete", "move"] := by
  cases command <;> simp [mutates, verb]

theorem args_config_inj {name name' : String} :
    (config name).args = (config name').args ↔ name = name' := by
  simp [args]

end Pcs.Command

/-- The command changes the cluster, as its arguments tell. -/
def Invocation.mutates (call : Invocation) : Bool :=
  call.args[1]?.any (· ∈ ["create", "update", "delete", "move"])

theorem Output.succeeded_iff (o : Output) : o.succeeded = true ↔ o.exitCode = 0 := beq_iff_eq

namespace Pcs.Client

variable {σ : Type}

/-- The command as the client gives it to a runner. -/
def invocation (client : Client) (command : Command) (limit : Duration) : Invocation :=
  ⟨client.binary, command.args, limit⟩

/-- What the answer to a query of the resource tells. -/
def lookupOf (client : Client) (name : String) (answer : Answer) : Except Failure Lookup :=
  answer >>= client.classify (.config name)

/-- The output of a command that has to succeed, or the failure that it amounts to. -/
def judge (client : Client) (command : Command) (output : Output) : Except Failure Output :=
  if output.succeeded then .ok output
  else if Text.contains output.combined clusterDownMarker then
    .error (.clusterDown (client.line command))
  else .error (.process (client.line command) (some output.exitCode) output.stdout output.stderr)

/-- What the answer to a command that has to succeed tells. -/
def resultOf (client : Client) (command : Command) (answer : Answer) : Except Failure Output :=
  answer >>= client.judge command

section
variable (client : Client) (name : String) (command : Command)

@[simp] theorem lookupOf_ok (output : Output) :
    client.lookupOf name (.ok output) = client.classify (.config name) output := rfl

@[simp] theorem lookupOf_error (failure : Failure) :
    client.lookupOf name (.error failure) = .error failure := rfl

@[simp] theorem resultOf_ok (output : Output) :
    client.resultOf command (.ok output) = client.judge command output := rfl

@[simp] theorem resultOf_error (failure : Failure) :
    client.resultOf command (.error failure) = .error failure := rfl

@[simp] theorem limit_withLimit (limit : Duration) : (client.withLimit limit).limit = limit := rfl

@[simp] theorem invocation_withLimit (limit limit' : Duration) :
    (client.withLimit limit).invocation command limit' = client.invocation command limit' := rfl

@[simp] theorem lookupOf_withLimit (limit : Duration) (answer : Answer) :
    (client.withLimit limit).lookupOf name answer = client.lookupOf name answer := rfl

@[simp] theorem resultOf_withLimit (limit : Duration) (answer : Answer) :
    (client.withLimit limit).resultOf command answer = client.resultOf command answer := rfl

end

theorem judge_eq_ok_iff {client : Client} {command : Command} {output output' : Output} :
    client.judge command output = .ok output' ↔ output = output' ∧ output.exitCode = 0 := by
  have hs := output.succeeded_iff
  unfold judge
  split_ifs with h₁ h₂
  · rw [Except.ok.injEq, hs.mp h₁]
    simp
  · simp [hs.not.mp h₁]
  · simp [hs.not.mp h₁]

/-- A command has succeeded exactly if it was run to its end and exited with code zero. -/
theorem resultOf_eq_ok_iff {client : Client} {command : Command} {answer : Answer}
    {output : Output} :
    client.resultOf command answer = .ok output ↔ answer = .ok output ∧ output.exitCode = 0 := by
  cases answer with
  | error failure => simp
  | ok o =>
      rw [resultOf_ok, judge_eq_ok_iff, Except.ok.injEq]
      constructor
      · rintro ⟨rfl, h⟩
        exact ⟨rfl, h⟩
      · rintro ⟨rfl, h⟩
        exact ⟨rfl, h⟩

/-- A failure that the client makes of the output of a command. -/
def blamesOutput : Failure → Bool
  | .process _ _ _ _ => true
  | .clusterDown _ => true
  | _ => false

theorem lookupOf_eq_error {client : Client} {name : String} {answer : Answer} {failure : Failure}
    (h : client.lookupOf name answer = .error failure) :
    answer = .error failure ∨ blamesOutput failure = true := by
  cases answer with
  | error cause => exact .inl (by simpa using h)
  | ok output =>
      right
      simp only [lookupOf_ok, classify] at h
      split_ifs at h <;> cases h <;> rfl

theorem resultOf_eq_error {client : Client} {command : Command} {answer : Answer}
    {failure : Failure} (h : client.resultOf command answer = .error failure) :
    answer = .error failure ∨ blamesOutput failure = true := by
  cases answer with
  | error cause => exact .inl (by simpa using h)
  | ok output =>
      right
      simp only [resultOf_ok, judge] at h
      split_ifs at h <;> cases h <;> rfl

theorem verb_invocation (client : Client) (command : Command) (limit : Duration) :
    (client.invocation command limit).args[1]? = some command.verb :=
  command.args_verb

theorem mutates_invocation (client : Client) (command : Command) (limit : Duration) :
    (client.invocation command limit).mutates = command.mutates := by
  have hv := command.mutates_iff_verb
  unfold Invocation.mutates invocation
  simp only [command.args_verb, Option.any_some]
  rw [Bool.eq_iff_iff, hv, decide_eq_true_iff]

/-- The failure that the answer to a command amounts to: that of the runner, or what the judgement
of the output makes of it. -/
inductive Fails (client : Client) : Invocation → Answer → Failure → Prop
  | query {name : String} {limit : Duration} {answer : Answer} {failure : Failure} :
      client.lookupOf name answer = .error failure →
      Fails client (client.invocation (.config name) limit) answer failure
  | change {command : Command} {limit : Duration} {answer : Answer} {failure : Failure} :
      command.mutates = true → client.resultOf command answer = .error failure →
      Fails client (client.invocation command limit) answer failure

theorem Fails.eq_error_or_blames {client : Client} {call : Invocation} {answer : Answer}
    {failure : Failure} (h : client.Fails call answer failure) :
    answer = .error failure ∨ blamesOutput failure = true := by
  cases h with
  | query hl => exact lookupOf_eq_error hl
  | change _ hr => exact resultOf_eq_error hr

theorem resultOf_congr {client : Client} {command command' : Command}
    (h : command.args = command'.args) (answer : Answer) :
    client.resultOf command answer = client.resultOf command' answer := by
  have hl : client.line command = client.line command' := congrArg (commandLine client.binary) h
  cases answer with
  | error failure => rfl
  | ok output => simp only [resultOf_ok, judge, hl]

theorem fails_query_iff {client : Client} {name : String} {limit : Duration} {answer : Answer}
    {failure : Failure} :
    client.Fails (client.invocation (.config name) limit) answer failure ↔
      client.lookupOf name answer = .error failure := by
  constructor
  · intro h
    generalize hc : client.invocation (.config name) limit = call at h
    cases h with
    | query hl =>
        obtain ⟨-, hargs, -⟩ := Invocation.mk.inj hc
        exact Command.args_config_inj.mp hargs ▸ hl
    | change hm hr =>
        have := congrArg Invocation.mutates hc
        rw [mutates_invocation, mutates_invocation, hm] at this
        cases this
  · exact .query

theorem fails_change_iff {client : Client} {command : Command} (hm : command.mutates = true)
    {limit : Duration} {answer : Answer} {failure : Failure} :
    client.Fails (client.invocation command limit) answer failure ↔
      client.resultOf command answer = .error failure := by
  constructor
  · intro h
    generalize hc : client.invocation command limit = call at h
    cases h with
    | query hl =>
        have := congrArg Invocation.mutates hc
        rw [mutates_invocation, mutates_invocation, hm] at this
        cases this
    | change hm' hr =>
        obtain ⟨-, hargs, -⟩ := Invocation.mk.inj hc
        exact resultOf_congr hargs answer ▸ hr
  · exact .change hm

/-- The failure of a runner is the failure of the command, whichever it is. -/
theorem fails_of_error (client : Client) (command : Command) (limit : Duration)
    (failure : Failure) :
    client.Fails (client.invocation command limit) (.error failure) failure := by
  cases hm : command.mutates with
  | true => exact .change hm rfl
  | false =>
      cases command with
      | config name => exact .query rfl
      | _ => cases hm

variable (runner : Runner σ) (state : σ)

theorem outcome_invoke (client : Client) (command : Command) (limit : Duration) :
    (client.invoke command limit).outcome runner state =
      let call := client.invocation command limit
      ⟨(runner call state).answer.mapError .failed, [(call, (runner call state).answer)],
        (runner call state).state⟩ := by
  unfold invoke
  simp [invocation]

theorem outcome_lookupNote (name : String) (answer : Except Failure Lookup) :
    (lookupNote name answer).outcome runner state = ⟨.ok (), [], state⟩ := by
  unfold lookupNote
  split <;> simp

/-- A query runs one command and tells what its answer tells. -/
theorem outcome_getResource (client : Client) (name : String) :
    (client.getResource name).outcome runner state =
      let call := client.invocation (.config name) client.limit
      ⟨(client.lookupOf name (runner call state).answer).mapError .failed,
        [(call, (runner call state).answer)], (runner call state).state⟩ := by
  unfold getResource
  rw [Work.outcome_bind, outcome_invoke]
  cases h : (runner (client.invocation (.config name) client.limit) state).answer with
  | error failure => simp [h, Except.mapError]
  | ok output => simp [h, outcome_lookupNote, Except.mapError]

/-- So does a command that has to succeed. -/
theorem outcome_invokeChecked (client : Client) (command : Command) (limit : Duration) :
    (client.invokeChecked command limit).outcome runner state =
      let call := client.invocation command limit
      ⟨(client.resultOf command (runner call state).answer).mapError .failed,
        [(call, (runner call state).answer)], (runner call state).state⟩ := by
  unfold invokeChecked
  rw [Work.outcome_bind, outcome_invoke]
  cases h : (runner (client.invocation command limit) state).answer with
  | error failure => simp [h, Except.mapError]
  | ok output =>
      by_cases h₁ : output.succeeded = true
      · simp [h, h₁, judge, Except.mapError]
      · by_cases h₂ : Text.contains output.combined clusterDownMarker = true
        · simp [h, h₁, h₂, judge, Except.mapError]
        · simp [h, h₁, h₂, judge, Except.mapError]

theorem outcome_create (client : Client) (name : String) (spec : ResourceSpec) :
    (client.create name spec).outcome runner state =
      (client.invokeChecked (.create name spec) client.limit).outcome runner state := by
  simp [create]

theorem outcome_update (client : Client) (name : String) (spec : ResourceSpec) :
    (client.update name spec).outcome runner state =
      (client.invokeChecked (.update name spec) client.limit).outcome runner state := by
  simp [update]

theorem outcome_delete (client : Client) (name : String) (force : Bool) :
    (client.delete name force).outcome runner state =
      (client.invokeChecked (.delete name force) client.limit).outcome runner state := by
  simp [delete]

/-- A move is given up before its command if its time limit cannot be extended. -/
theorem outcome_relocate (client : Client) (name node : String) :
    (client.relocate name node).outcome runner state =
      match client.limit.addSeconds? moveGrace with
      | none => ⟨.error .limitOverflow, [], state⟩
      | some limit =>
          (client.invokeChecked (.move name node (moveWait client.limit)) limit).outcome
            runner state := by
  unfold relocate
  split <;> simp [*]

end Pcs.Client

end ResourceAgent
