import ResourceAgent.Program
import ResourceAgent.Proofs.Params.Reference
import ResourceAgent.Proofs.Reconcile.Document
import ResourceAgent.Proofs.Report
import ResourceAgent.Proofs.Variable

/-!
# What the program prints

A command line that is carried out ends with one document on the standard output, and the exit code
says whether that document is the report of a failure. No tree can be taken for one: a tree has
texts and objects for members, but no truth values. The log settings change neither, nor the
commands that are run; but a parameter file may refer to the variable that holds the filter, as it
may to any other. There is no document where the program is given up: for a move whose time cannot
be extended, and for a parameter file where a variable of the environment is no text.
-/
namespace ResourceAgent

namespace Work

variable {σ α β : Type}

/-- What is made of the value changes nothing else. -/
theorem outcome_map (runner : Runner σ) (state : σ) (f : α → β) (work : Work α) :
    (f <$> work).outcome runner state =
      let o := work.outcome runner state
      ⟨o.value.map f, o.exchanges, o.state⟩ := by
  have h : f <$> work = work >>= fun a => pure (f a) := rfl
  rw [h, outcome_bind]
  obtain ⟨value, x, s⟩ := work.outcome runner state
  cases value with
  | error abort => rfl
  | ok a => exact Outcome.ext rfl (List.append_nil x) rfl

end Work

namespace Commands

variable {σ : Type} (runner : Runner σ) (state : σ)

/-- The parameters of a file, or why there are none. -/
def loaded (around : Surroundings) (path : String) : Except Failure Params :=
  match around.readText path with
  | .error fault => .error (Params.unreadableFile path fault.message)
  | .ok text => Params.load around.environment text

/-- Loading asks for nothing to be run. -/
theorem outcome_loadFile (around : Surroundings) (path : String) :
    (loadFile around path).outcome runner state =
      ⟨(loaded around path).mapError .failed, [], state⟩ := by
  unfold loadFile loaded
  cases around.readText path with
  | error fault => simp [Except.mapError]
  | ok text => simp

theorem outcome_ensure (pcs : String) (params : Params) (check : Bool) :
    (ensure pcs params check).outcome runner state =
      ((manager pcs params.timeout check).ensure params).outcome runner state := by
  simp [ensure]

theorem outcome_requireText (around : Surroundings) :
    (requireText around).outcome runner state =
      ⟨if around.isText then .ok () else .error .garbledVariable, [], state⟩ := by
  unfold requireText
  split <;> rfl

theorem outcome_apply {around : Surroundings} (h : around.isText = true) (pcs path : String)
    (check : Bool) :
    (apply around pcs path check).outcome runner state =
      match loaded around path with
      | .error failure => ⟨.error (.failed failure), [], state⟩
      | .ok params => (ensure pcs params check).outcome runner state := by
  rw [apply, Work.outcome_bind, outcome_requireText, if_pos h, Outcome.andThen_ok,
    Work.outcome_bind, outcome_loadFile]
  cases loaded around path with
  | error failure => rfl
  | ok params => rfl

end Commands

namespace Program

variable {σ : Type} (around : Surroundings) (runner : Runner σ) (state : σ)

/-- The parameters that a command works with. -/
inductive Asks (around : Surroundings) : CommandLine.Command → Params → Prop
  | ensure {params : Params} {check : Bool} : Asks around (.ensure params check) params
  | apply {file text : String} {params : Params} {check : Bool} :
      around.readText file = .ok text → Params.load around.environment text = .ok params →
      Asks around (.apply file check) params

/-- How the work of a command may end: with a document that tells of no failure, or with a failure,
or given up for a move whose time cannot be extended or for a variable that is no text. -/
inductive Ends (around : Surroundings) (command : CommandLine.Command) :
    Except Abort Document → Prop
  | tree {tree : Outline.Tree} : Ends around command (.ok (.tree tree))
  | report {report : Report} : report.failed = false → Ends around command (.ok (.report report))
  | failed {failure : Failure} : Ends around command (.error (.failed failure))
  | overflow {params : Params} : Asks around command params → params.state = .relocated →
      Text.wordLimit ≤ params.timeout.toNat + Pcs.moveGrace →
      Ends around command (.error .limitOverflow)
  | garbled {file : String} {check : Bool} : command = .apply file check →
      around.isText = false → Ends around command (.error .garbledVariable)

variable {around}

variable {words words' : List String} {cli cli' : CommandLine.Cli}

/-- The exit that the work of a command leads to. -/
def exitOf : Except Abort Document → Exit
  | .ok document => ⟨0, print document.toJson⟩
  | .error (.failed failure) => ⟨1, print (Report.ofFailure failure).toJson⟩
  | .error .limitOverflow | .error .garbledVariable => ⟨brokenExit, ""⟩

theorem value_conclude (value : Except Abort Document) :
    ((conclude value).hold runner state).value = exitOf value := by
  cases value with
  | ok document => rfl
  | error abort => cases abort <;> rfl

theorem exit_run (h : parse around words = .ok cli) :
    (run around runner state words).exit =
      exitOf ((work around cli.pcs cli.command).outcome runner state).value := by
  have hexit : (run around runner state words).exit =
      ((perform around cli).hold runner state).value := by
    simp [run, h]
  have hperform : perform around cli = (work around cli.pcs cli.command).run.bind conclude := rfl
  rw [hexit, hperform, Dialogue.value_hold_bind, value_conclude]
  rfl

/-- The commands that a run of the program asks for. -/
def calls (around : Surroundings) (runner : Runner σ) (state : σ) (words : List String) :
    List Invocation :=
  match parse around words with
  | .error _ => []
  | .ok cli => ((perform around cli).hold runner state).calls

/-- The end of the program asks for nothing more to be run. -/
theorem conclude_idle (value : Except Abort Document) :
    ((conclude value).hold runner state).state = state ∧
      (conclude value).exchanges runner state = [] := by
  cases value with
  | ok document => exact ⟨rfl, rfl⟩
  | error abort => cases abort <;> exact ⟨rfl, rfl⟩

/-- Apart from its exit, the program does what the work of its command does. -/
theorem state_calls_run (h : parse around words = .ok cli) :
    (run around runner state words).state =
        ((work around cli.pcs cli.command).outcome runner state).state ∧
      calls around runner state words =
        ((work around cli.pcs cli.command).outcome runner state).exchanges.map Prod.fst := by
  have hperform : perform around cli = (work around cli.pcs cli.command).run.bind conclude := rfl
  simp only [run, calls, h, hperform]
  rw [Dialogue.state_hold_bind, Dialogue.calls_hold, Dialogue.exchanges_bind,
    (conclude_idle _ _ _).1, (conclude_idle _ _ _).2, List.append_nil]
  exact ⟨rfl, rfl⟩

/-- Programs whose commands come to the same end the same. -/
theorem run_congr {around' : Surroundings} (h : parse around words = .ok cli)
    (h' : parse around' words' = .ok cli')
    (ho : (work around' cli'.pcs cli'.command).outcome runner state =
      (work around cli.pcs cli.command).outcome runner state) :
    (run around' runner state words').exit = (run around runner state words).exit ∧
      (run around' runner state words').state = (run around runner state words).state ∧
      calls around' runner state words' = calls around runner state words := by
  obtain ⟨hs, hc⟩ := state_calls_run runner state h
  obtain ⟨hs', hc'⟩ := state_calls_run runner state h'
  rw [exit_run runner state h, exit_run runner state h', hs, hs', hc, hc', ho]
  exact ⟨rfl, rfl, rfl⟩

end Program

end ResourceAgent
