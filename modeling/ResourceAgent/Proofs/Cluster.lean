import Mathlib.Data.Finmap
import ResourceAgent.Proofs.Pcs.Client
import ResourceAgent.Proofs.Text.Search

/-!
# Simulated clusters

A cluster has resources, each with its dump, and a runner simulates it if what `pcs` prints and
changes agrees with them. Only queries, creations and deletions are specified, and of a query no
more than the text a client looks at. On such a runner a query of the client finds what the cluster
has.
-/
namespace ResourceAgent

/-- What the client takes for a message of `pcs` rather than for a dump. -/
def Pcs.markers : List String := [clusterDownMarker, noResourceMarker, unableToFindMarker]

/-- The text has none of the messages in it. -/
def Unmarked (text : String) : Prop := ∀ marker ∈ Pcs.markers, Text.contains text marker = false

instance (text : String) : Decidable (Unmarked text) :=
  inferInstanceAs (Decidable (∀ marker ∈ Pcs.markers, Text.contains text marker = false))

/-- The dump of a resource: it says something, and none of the messages. -/
structure Dump where
  text : String
  not_blank : Text.isBlankText text = false
  unmarked : Unmarked text

abbrev Cluster := Finmap fun _ : String => Dump

/-- The runner behaves as a cluster whose resources can be read off its state. What a created
resource dumps is left open, and so is every answer that is not listed. -/
structure Simulates {σ : Type} (binary : String) (runner : Runner σ) (cluster : σ → Cluster) :
    Prop where
  prints : ∀ {call state name dump}, call.program = binary →
    call.args = ["resource", "config", name] → (cluster state).lookup name = some dump →
    ∃ stderr, Unmarked stderr ∧ (runner call state).answer = .ok { stdout := dump.text, stderr }
  denies : ∀ {call state name}, call.program = binary →
    call.args = ["resource", "config", name] → name ∉ cluster state →
    ∃ output, (runner call state).answer = .ok output ∧ output.exitCode = 1 ∧
      Text.contains output.combined Pcs.noResourceMarker = true ∧
      Text.contains output.combined Pcs.clusterDownMarker = false
  creates : ∀ {call state name}, call.program = binary →
    ["resource", "create", name] <+: call.args → name ∉ cluster state →
    ∃ output dump, (runner call state).answer = .ok output ∧ output.exitCode = 0 ∧
      cluster (runner call state).state = (cluster state).insert name dump
  deletes : ∀ {call state name}, call.program = binary →
    ["resource", "delete", name] <+: call.args → name ∈ cluster state →
    ∃ output, (runner call state).answer = .ok output ∧ output.exitCode = 0 ∧
      cluster (runner call state).state = (cluster state).erase name
  /-- Nothing else changes the cluster. -/
  keeps : ∀ {call state}, call.program = binary →
    (∀ name, ["resource", "create", name] <+: call.args → name ∈ cluster state) →
    (∀ name, ["resource", "delete", name] <+: call.args → name ∉ cluster state) →
    cluster (runner call state).state = cluster state

namespace Pcs.Client

theorem newline_not_mem_markers : ∀ marker ∈ markers, '\n' ∉ marker.toList := by
  decide +kernel

theorem unmarked_combined {output : Output} (ho : Unmarked output.stdout)
    (he : Unmarked output.stderr) : Unmarked output.combined := by
  intro marker h
  rw [Output.contains_combined (newline_not_mem_markers marker h), ho marker h, he marker h]
  rfl

/-- Output without a message is a dump, if the command succeeded and there is any. -/
theorem classify_of_unmarked (client : Client) (command : Command) {output : Output}
    (h0 : output.exitCode = 0) (hb : Text.isBlankText output.stdout = false)
    (ho : Unmarked output.stdout) (he : Unmarked output.stderr) :
    client.classify command output = .ok (.found output.stdout) := by
  have hc := unmarked_combined ho he
  have hdown := hc clusterDownMarker (by simp [markers])
  have hno := hc noResourceMarker (by simp [markers])
  have hunable := hc unableToFindMarker (by simp [markers])
  simp [classify, hdown, hno, hunable, Output.succeeded, h0, hb]

theorem classify_of_noResource (client : Client) (command : Command) {output : Output}
    (hn : Text.contains output.combined noResourceMarker = true)
    (hd : Text.contains output.combined clusterDownMarker = false) :
    client.classify command output = .ok (.missing (Text.trimmed output.combined)) := by
  simp [classify, hn, hd]

end Pcs.Client

/-- What a query found is what the cluster has. -/
inductive Agrees (c : Cluster) (name : String) : Pcs.Lookup → Prop
  | found {dump : Dump} : c.lookup name = some dump → Agrees c name (.found dump.text)
  | missing {message : String} : name ∉ c → Agrees c name (.missing message)

theorem Agrees.exists?_eq {c : Cluster} {name : String} {lookup : Pcs.Lookup}
    (h : Agrees c name lookup) : lookup.exists? = decide (name ∈ c) := by
  cases h with
  | found hd => simp [Pcs.Lookup.exists?, Finmap.mem_of_lookup_eq_some hd]
  | missing hn => simp [Pcs.Lookup.exists?, hn]

theorem Agrees.eq_found {c : Cluster} {name : String} {lookup : Pcs.Lookup} {dump : Dump}
    (h : Agrees c name lookup) (hd : c.lookup name = some dump) : lookup = .found dump.text := by
  cases h with
  | found hd' =>
      cases hd.symm.trans hd'
      rfl
  | missing hn => exact absurd (Finmap.mem_of_lookup_eq_some hd) hn

namespace Simulates

variable {σ : Type} {runner : Runner σ} {cluster : σ → Cluster} {client : Pcs.Client}
  (hr : Simulates client.binary runner cluster) (name : String) (limit : Duration) (state : σ)
include hr

/-- A query finds what the cluster has. -/
theorem exists_lookup : ∃ lookup, Agrees (cluster state) name lookup ∧
    client.lookupOf name (runner (client.invocation (.config name) limit) state).answer =
      .ok lookup := by
  have hargs : (client.invocation (.config name) limit).args = ["resource", "config", name] := rfl
  cases hd : (cluster state).lookup name with
  | some dump =>
      obtain ⟨stderr, hs, ha⟩ := hr.prints rfl hargs hd
      refine ⟨.found dump.text, .found hd, ?_⟩
      rw [ha]
      exact client.classify_of_unmarked _ rfl dump.not_blank dump.unmarked hs
  | none =>
      have hn : name ∉ cluster state := Finmap.lookup_eq_none.mp hd
      obtain ⟨output, ha, -, hno, hdown⟩ := hr.denies rfl hargs hn
      refine ⟨.missing (Text.trimmed output.combined), .missing hn, ?_⟩
      rw [ha]
      exact client.classify_of_noResource _ hno hdown

theorem cluster_query :
    cluster (runner (client.invocation (.config name) limit) state).state = cluster state := by
  apply hr.keeps rfl
  · intro other h
    simp [Pcs.Client.invocation, Pcs.Command.args] at h
  · intro other h
    simp [Pcs.Client.invocation, Pcs.Command.args] at h

end Simulates

/-- A cluster in which every created resource dumps what `fresh` says about the command. -/
def Cluster.runner (fresh : List String → Dump) : Runner Cluster := fun call cluster =>
  let unknown : Output := { exitCode := 1, stderr := Pcs.noResourceMarker }
  match call.args with
  | ["resource", "config", name] =>
      match cluster.lookup name with
      | some dump => { answer := .ok { stdout := dump.text }, state := cluster }
      | none => { answer := .ok unknown, state := cluster }
  | "resource" :: "create" :: name :: _ =>
      if name ∈ cluster then { answer := .ok { exitCode := 1 }, state := cluster }
      else { answer := .ok { }, state := cluster.insert name (fresh call.args) }
  | "resource" :: "delete" :: name :: _ =>
      if name ∈ cluster then { answer := .ok { }, state := cluster.erase name }
      else { answer := .ok unknown, state := cluster }
  | _ => { answer := .ok { }, state := cluster }

theorem Cluster.simulates (binary : String) (fresh : List String → Dump) :
    Simulates binary (Cluster.runner fresh) fun c => c where
  prints := by
    intro call state name dump _ hargs hd
    refine ⟨"", by decide +kernel, ?_⟩
    simp only [Cluster.runner, hargs, hd]
  denies := by
    intro call state name _ hargs hn
    have hd : state.lookup name = none := Finmap.lookup_eq_none.mpr hn
    refine ⟨{ exitCode := 1, stderr := Pcs.noResourceMarker }, ?_, rfl, by decide +kernel,
      by decide +kernel⟩
    simp only [Cluster.runner, hargs, hd]
  creates := by
    intro call state name _ hargs hn
    obtain ⟨rest, hrest⟩ := hargs
    refine ⟨{ }, fresh call.args, ?_⟩
    simp [Cluster.runner, ← hrest, hn]
  deletes := by
    intro call state name _ hargs hf
    obtain ⟨rest, hrest⟩ := hargs
    refine ⟨{ }, ?_⟩
    simp [Cluster.runner, ← hrest, hf]
  keeps := by
    intro call state _ hcreate hdelete
    unfold Cluster.runner
    dsimp only
    split
    · split <;> rfl
    · next name rest hargs =>
        rw [if_pos (hcreate name ⟨rest, hargs.symm⟩)]
    · next name rest hargs =>
        rw [if_neg (hdelete name ⟨rest, hargs.symm⟩)]
    · rfl

end ResourceAgent
