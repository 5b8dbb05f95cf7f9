import ResourceAgent.Proofs.Cluster
import ResourceAgent.Proofs.Text.Blank

/-!
# Verdicts of the client

What the client makes of an output is told by the streams and the exit code alone. The messages of
`pcs` are looked for in both streams joined together, which is the same as looking into each of
them, since no message reaches across the line break between the two. A query is judged by the
messages first and by the exit code after them; a command that changes something is judged by its
exit code first. That is the only difference between the operations, apart from the command.
-/
namespace ResourceAgent

/-- The text stands in one of the streams as a whole. -/
def Output.Says (o : Output) (text : String) : Prop :=
  text.toList <:+: o.stdout.toList ∨ text.toList <:+: o.stderr.toList

theorem Output.contains_combined_iff {text : String} (h : '\n' ∉ text.toList) (o : Output) :
    Text.contains o.combined text = true ↔ o.Says text := by
  rw [contains_combined h, Bool.or_eq_true, Text.contains_iff, Text.contains_iff, Says]

namespace Pcs

/-- The output says that there is no such resource. -/
def SaysUnknown (o : Output) : Prop := o.Says noResourceMarker ∨ o.Says unableToFindMarker

/-- Nothing was printed but blanks. -/
def PrintsNothing (o : Output) : Prop := ∀ c ∈ o.stdout.toList, Text.isBlank c = true

variable {o : Output}

theorem contains_marker_iff {marker : String} (h : marker ∈ markers) :
    Text.contains o.combined marker = true ↔ o.Says marker :=
  o.contains_combined_iff (Client.newline_not_mem_markers marker h)

theorem isBlankText_stdout_iff : Text.isBlankText o.stdout = true ↔ PrintsNothing o :=
  Text.isBlankText_iff

/-- Every message of `pcs` has a character that is not blank, so trimming leaves something of an
output that has one. -/
theorem trimmed_combined_ne_empty {marker : String} (h : marker ∈ markers) (hs : o.Says marker) :
    Text.trimmed o.combined ≠ "" := by
  have hvisible : ∀ marker ∈ markers, marker.toList.any (!Text.isBlank ·) = true := by
    decide +kernel
  obtain ⟨c, hc, hblank⟩ := List.any_eq_true.mp (hvisible marker h)
  have hmem : c ∈ o.combined.toList :=
    (Text.contains_iff.mp ((contains_marker_iff h).mpr hs)).subset hc
  intro he
  have hnil : Text.trim o.combined.toList = [] := by
    rw [← String.toList_ofList (l := Text.trim _), ← Text.trimmed, he, String.toList_empty]
  have hall := Text.trim_eq_nil_iff.mp hnil c hmem
  simp [hall] at hblank

/-- What a query makes of an output; `line` is its command line. -/
structure QueryVerdict (line : String) (o : Output) (value : Except Abort Lookup) : Prop where
  clusterDown_iff : ∀ {text}, value = .error (.failed (.clusterDown text)) ↔
    text = line ∧ o.Says clusterDownMarker
  /-- The message of `pcs` is kept, and it is not empty. -/
  unknown_iff : value = .ok (.missing (Text.trimmed o.combined)) ∧ Text.trimmed o.combined ≠ "" ↔
    ¬ o.Says clusterDownMarker ∧ SaysUnknown o
  process_iff : ∀ {command code stdout stderr},
    value = .error (.failed (.process command code stdout stderr)) ↔
      (command = line ∧ code = some o.exitCode ∧ stdout = o.stdout ∧ stderr = o.stderr) ∧
        ¬ o.Says clusterDownMarker ∧ ¬ SaysUnknown o ∧ o.exitCode ≠ 0
  silent_iff : value = .ok (.missing "") ↔
    ¬ o.Says clusterDownMarker ∧ ¬ SaysUnknown o ∧ o.exitCode = 0 ∧ PrintsNothing o
  found_iff : ∀ {raw}, value = .ok (.found raw) ↔ raw = o.stdout ∧
    ¬ o.Says clusterDownMarker ∧ ¬ SaysUnknown o ∧ o.exitCode = 0 ∧ ¬ PrintsNothing o

/-- What a command that changes something makes of an output. -/
structure ChangeVerdict (line : String) (o : Output) (value : Except Abort Output) : Prop where
  ok_iff : ∀ {o'}, value = .ok o' ↔ o' = o ∧ o.exitCode = 0
  clusterDown_iff : ∀ {text}, value = .error (.failed (.clusterDown text)) ↔
    text = line ∧ o.exitCode ≠ 0 ∧ o.Says clusterDownMarker
  process_iff : ∀ {command code stdout stderr},
    value = .error (.failed (.process command code stdout stderr)) ↔
      (command = line ∧ code = some o.exitCode ∧ stdout = o.stdout ∧ stderr = o.stderr) ∧
        o.exitCode ≠ 0 ∧ ¬ o.Says clusterDownMarker

/-- The work runs one command, and comes to the failure of the runner or to the verdict on the
output. -/
structure Consults {σ α : Type} (runner : Runner σ) (state : σ) (work : Work α) (call : Invocation)
    (verdict : Output → Except Abort α → Prop) : Prop where
  calls : (work.run.hold runner state).calls = [call]
  passes : ∀ {failure}, (runner call state).answer = .error failure →
    (work.run.hold runner state).value = .error (.failed failure)
  judges : ∀ {o}, (runner call state).answer = .ok o →
    verdict o (work.run.hold runner state).value

/-- The cases of a query in the order in which they are tried. -/
inductive Classified (line : String) (o : Output) : Except Failure Lookup → Prop
  | down : o.Says clusterDownMarker → Classified line o (.error (.clusterDown line))
  | unknown : ¬ o.Says clusterDownMarker → SaysUnknown o →
      Classified line o (.ok (.missing (Text.trimmed o.combined)))
  | failed : ¬ o.Says clusterDownMarker → ¬ SaysUnknown o → o.exitCode ≠ 0 →
      Classified line o (.error (.process line (some o.exitCode) o.stdout o.stderr))
  | silent : ¬ o.Says clusterDownMarker → ¬ SaysUnknown o → o.exitCode = 0 → PrintsNothing o →
      Classified line o (.ok (.missing ""))
  | found : ¬ o.Says clusterDownMarker → ¬ SaysUnknown o → o.exitCode = 0 → ¬ PrintsNothing o →
      Classified line o (.ok (.found o.stdout))

theorem classified_classify (client : Client) (command : Command) (o : Output) :
    Classified (client.line command) o (client.classify command o) := by
  have hdown : Text.contains o.combined clusterDownMarker = true ↔ o.Says clusterDownMarker :=
    contains_marker_iff (by simp [markers])
  have hunknown : (Text.contains o.combined noResourceMarker ||
      Text.contains o.combined unableToFindMarker) = true ↔ SaysUnknown o := by
    rw [Bool.or_eq_true, contains_marker_iff (by simp [markers]),
      contains_marker_iff (by simp [markers]), SaysUnknown]
  unfold Client.classify
  dsimp only
  split_ifs with h₁ h₂ h₃ h₄
  · exact .down (hdown.mp h₁)
  · exact .unknown (hdown.not.mp h₁) (hunknown.mp h₂)
  · have h0 : o.exitCode ≠ 0 := o.succeeded_iff.not.mp (by simpa using h₃)
    exact .failed (hdown.not.mp h₁) (hunknown.not.mp h₂) h0
  · have h0 : o.exitCode = 0 := o.succeeded_iff.mp (by simpa using h₃)
    exact .silent (hdown.not.mp h₁) (hunknown.not.mp h₂) h0 (isBlankText_stdout_iff.mp h₄)
  · have h0 : o.exitCode = 0 := o.succeeded_iff.mp (by simpa using h₃)
    exact .found (hdown.not.mp h₁) (hunknown.not.mp h₂) h0 (isBlankText_stdout_iff.not.mp h₄)

theorem SaysUnknown.trimmed_ne_empty (h : SaysUnknown o) : Text.trimmed o.combined ≠ "" := by
  rcases h with h | h
  · exact trimmed_combined_ne_empty (by simp [markers]) h
  · exact trimmed_combined_ne_empty (by simp [markers]) h

/-- No two cases apply at once, so each of them is told by its conditions. -/
theorem Classified.verdict {line : String} {found : Except Failure Lookup}
    (h : Classified line o found) : QueryVerdict line o (found.mapError .failed) := by
  cases h with
  | down hd => constructor <;> simp [Except.mapError, hd, eq_comm (a := line)]
  | unknown hd hu =>
      have hne := hu.trimmed_ne_empty
      constructor <;> simp [Except.mapError, hd, hu, hne]
  | failed hd hu h0 =>
      constructor <;> simp [Except.mapError, hd, hu, h0, eq_comm (a := line),
        eq_comm (a := some o.exitCode), eq_comm (a := o.stdout), eq_comm (a := o.stderr)]
  | silent hd hu h0 hp => constructor <;> simp [Except.mapError, hd, hu, h0, hp]
  | found hd hu h0 hp =>
      constructor <;> simp [Except.mapError, hd, hu, h0, hp, eq_comm (a := o.stdout)]

theorem judge_verdict (client : Client) (command : Command) (o : Output) :
    ChangeVerdict (client.line command) o ((client.judge command o).mapError .failed) := by
  have hdown : Text.contains o.combined clusterDownMarker = true ↔ o.Says clusterDownMarker :=
    contains_marker_iff (by simp [markers])
  unfold Client.judge
  split_ifs with h₁ h₂
  · have h0 := o.succeeded_iff.mp h₁
    constructor <;> simp [Except.mapError, h0, eq_comm (a := o)]
  · have h0 := o.succeeded_iff.not.mp h₁
    have hd := hdown.mp h₂
    constructor <;> simp [Except.mapError, h0, hd, eq_comm (a := client.line command)]
  · have h0 := o.succeeded_iff.not.mp h₁
    have hd := hdown.not.mp h₂
    constructor <;> simp [Except.mapError, h0, hd, eq_comm (a := client.line command),
      eq_comm (a := some o.exitCode), eq_comm (a := o.stdout), eq_comm (a := o.stderr)]

namespace Client

variable {σ : Type} (runner : Runner σ) (state : σ) (client : Client)

/-- Work with the outcome of one command consults the runner about it. -/
theorem consults_of_outcome {α : Type} {work : Work α} {call : Invocation}
    {read : Answer → Except Failure α} {verdict : Output → Except Abort α → Prop}
    (h : work.outcome runner state = ⟨(read (runner call state).answer).mapError .failed,
      [(call, (runner call state).answer)], (runner call state).state⟩)
    (hfail : ∀ failure, read (.error failure) = .error failure)
    (hread : ∀ o, verdict o ((read (.ok o)).mapError .failed)) :
    Consults runner state work call verdict := by
  have hv : (work.run.hold runner state).value =
      (read (runner call state).answer).mapError .failed :=
    congrArg Outcome.value h
  have hx : work.run.exchanges runner state = [(call, (runner call state).answer)] :=
    congrArg Outcome.exchanges h
  constructor
  · rw [Dialogue.calls_hold, hx, List.map_singleton]
  · intro failure ha
    rw [hv, ha, hfail]
    rfl
  · intro o ha
    rw [hv, ha]
    exact hread o

theorem consults_getResource (name : String) :
    Consults runner state (client.getResource name)
      (client.invocation (.config name) client.limit)
      (QueryVerdict (client.line (.config name))) :=
  consults_of_outcome runner state (outcome_getResource runner state client name)
    (client.lookupOf_error name) fun o => (classified_classify client _ o).verdict

theorem consults_change {work : Work Output} {command : Command} {limit : Duration}
    (h : work.outcome runner state = (client.invokeChecked command limit).outcome runner state) :
    Consults runner state work (client.invocation command limit)
      (ChangeVerdict (client.line command)) :=
  consults_of_outcome runner state
    (h.trans (outcome_invokeChecked runner state client command limit))
    (client.resultOf_error command) fun o => judge_verdict client command o

theorem consults_relocate {limit : Duration} (hl : client.limit.addSeconds? moveGrace = some limit)
    (name node : String) :
    Consults runner state (client.relocate name node)
      (client.invocation (.move name node (moveWait client.limit)) limit)
      (ChangeVerdict (client.line (.move name node (moveWait client.limit)))) := by
  refine consults_change runner state client ?_
  rw [outcome_relocate, hl]

/-- Every operation of the client runs one command, and what it comes to is told by the exit code
and by what the streams say. -/
theorem operations_exact (name node : String) (spec : ResourceSpec) (force : Bool) :
    (∀ (o : Output), ∀ marker ∈ markers,
      Text.contains o.combined marker = true ↔ o.Says marker) ∧
    Consults runner state (client.getResource name)
      (client.invocation (.config name) client.limit) (QueryVerdict (client.line (.config name))) ∧
    Consults runner state (client.create name spec)
      (client.invocation (.create name spec) client.limit)
      (ChangeVerdict (client.line (.create name spec))) ∧
    Consults runner state (client.update name spec)
      (client.invocation (.update name spec) client.limit)
      (ChangeVerdict (client.line (.update name spec))) ∧
    Consults runner state (client.delete name force)
      (client.invocation (.delete name force) client.limit)
      (ChangeVerdict (client.line (.delete name force))) ∧
    (client.limit.seconds.toNat + moveGrace < Text.wordLimit →
      Consults runner state (client.relocate name node)
        (client.invocation (.move name node (moveWait client.limit))
          { client.limit with seconds := client.limit.seconds + UInt64.ofNat moveGrace })
        (ChangeVerdict (client.line (.move name node (moveWait client.limit))))) := by
  refine ⟨fun o marker => contains_marker_iff, ?_, ?_, ?_, ?_, ?_⟩
  · exact consults_getResource runner state client name
  · exact consults_change runner state client (outcome_create runner state client name spec)
  · exact consults_change runner state client (outcome_update runner state client name spec)
  · exact consults_change runner state client (outcome_delete runner state client name force)
  · intro hl
    exact consults_relocate runner state client (if_pos hl) name node

/-- A move that exits with code zero succeeds, although it says that the cluster is down. -/
theorem operations_exact_move :
    let client : Client := { }
    let output : Output := { stderr := clusterDownMarker }
    let t := (client.relocate "db" "b").run.hold scripted [.ok output]
    client.limit.seconds.toNat + moveGrace < Text.wordLimit ∧ output.Says clusterDownMarker ∧
      t.value = .ok output ∧ t.calls.map Invocation.args =
        [["resource", "move", "db", "b", "--wait=300"]] := by
  intro client output t
  have hl : client.limit.seconds.toNat + moveGrace < Text.wordLimit := by decide
  obtain ⟨-, -, -, -, -, hmove⟩ :=
    operations_exact scripted [.ok output] client "db" "b" { } false
  refine ⟨hl, .inr List.infix_rfl, ((hmove hl).judges rfl).ok_iff.mpr ⟨rfl, rfl⟩, ?_⟩
  rw [(hmove hl).calls]
  decide +kernel

end Client

end Pcs

end ResourceAgent
