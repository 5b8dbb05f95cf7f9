import ResourceAgent.Proofs.Outline.Json
import ResourceAgent.Report

/-!
# The document of a failure

The report of a failure tells which failure it was. The message starts with words that no other kind
of failure starts with. What a message runs together is told apart by what the report holds besides:
the exit code and both streams of a failed command. So the command is what is left of the message.
-/
namespace ResourceAgent

/-- Texts that start with words of which none starts another start with the same word if they are
equal. -/
theorem words_append_inj {α : Type} {words : List (List α)}
    (hfree : ∀ a ∈ words, ∀ b ∈ words, a <+: b → a = b) {a b x y : List α} (ha : a ∈ words)
    (hb : b ∈ words) (h : a ++ x = b ++ y) : a = b ∧ x = y := by
  have hab : a = b := by
    rcases List.prefix_or_prefix_of_prefix (List.prefix_append a x)
      (h ▸ List.prefix_append b y) with hp | hp
    · exact hfree a ha b hb hp
    · exact (hfree b hb a ha hp).symm
  subst hab
  exact ⟨rfl, List.append_cancel_left h⟩

namespace Outline.Error

/-- The first words after the line number. -/
def opening : Error → String
  | .emptyInput => ""
  | .malformedLine _ => ": expected "
  | .incompleteSection _ _ => ": section `"
  | .inconsistent _ _ _ => ": indentation "

/-- What follows them. -/
def details : Error → String
  | .emptyInput => ""
  | .malformedLine _ => "`name:` or `name:value`"
  | .incompleteSection _ name => name ++ "` has no nested lines"
  | .inconsistent _ expected found =>
      toString found ++ (" is inconsistent with expected depth " ++ toString expected)

theorem message_eq {e : Error} {line : ℕ} (h : e.line = some line) :
    e.message = "line " ++ (toString line ++ (e.opening ++ e.details)) := by
  cases e with
  | emptyInput => cases h
  | malformedLine n =>
      cases h
      simp only [message, opening, details, String.append_assoc]
      rfl
  | incompleteSection n name =>
      cases h
      simp only [message, opening, details, String.append_assoc]
  | inconsistent n expected found =>
      cases h
      simp only [message, opening, details, String.append_assoc]

def openings : List (List Char) :=
  [": expected ".toList, ": section `".toList, ": indentation ".toList]

theorem opening_mem {e : Error} {line : ℕ} (h : e.line = some line) :
    e.opening.toList ∈ openings := by
  cases e with
  | emptyInput => cases h
  | _ => simp [opening, openings]

theorem openings_free : ∀ a ∈ openings, ∀ b ∈ openings, a <+: b → a = b := by decide +kernel

/-- A line number ends where the words after it start. -/
theorem head?_opening {e : Error} {line : ℕ} (h : e.line = some line) (k : List Char) :
    ∀ c ∈ (e.opening.toList ++ k).head?, Text.isNumeric c = false := by
  intro c hc
  cases e with
  | emptyInput => cases h
  | _ =>
      simp only [opening] at hc
      have hcolon : some ':' = some c := hc
      cases hcolon
      rfl

theorem eq_of_details {e e' : Error} (hl : e.line = e'.line) (ho : e.opening = e'.opening)
    (hd : e.details.toList = e'.details.toList) : e = e' := by
  cases e with
  | emptyInput =>
      cases e' with
      | emptyInput => rfl
      | _ => cases hl
  | malformedLine =>
      cases e' with
      | malformedLine =>
          cases hl
          rfl
      | _ => simp [opening] at ho
  | incompleteSection n name =>
      cases e' with
      | incompleteSection n' name' =>
          cases hl
          simp only [details, String.toList_append] at hd
          rw [String.toList_injective (List.append_cancel_right hd)]
      | _ => simp [opening] at ho
  | inconsistent n expected found =>
      cases e' with
      | inconsistent n' expected' found' =>
          cases hl
          simp only [details, String.toList_append] at hd
          have hstop : ∀ k : List Char, ∀ c ∈ (" is inconsistent with expected depth ".toList ++
              k).head?, Text.isNumeric c = false := by
            intro k c hc
            have hspace : some ' ' = some c := hc
            cases hspace
            rfl
          obtain ⟨rfl, hrest⟩ := Text.toString_nat_append_inj (hstop _) (hstop _) hd
          rw [Text.toString_nat_inj (List.append_cancel_left hrest)]
      | _ => simp [opening] at ho

theorem line_eq_none {e : Error} (h : e.line = none) : e = .emptyInput := by
  cases e with
  | emptyInput => rfl
  | _ => cases h

theorem message_ne_empty {e : Error} {line : ℕ} (h : e.line = some line) :
    e.message ≠ emptyInput.message := by
  intro he
  have hfirst : e.message.toList.head? = some 'l' := by
    rw [message_eq h, String.toList_append]
    rfl
  rw [he] at hfirst
  exact absurd hfirst (by decide)

/-- The message tells which fault it is, in which line, and of what. -/
theorem message_injective : Function.Injective message := by
  intro e e' h
  cases hl : e.line with
  | none =>
      cases hl' : e'.line with
      | none => rw [line_eq_none hl, line_eq_none hl']
      | some line' =>
          rw [line_eq_none hl] at h
          exact absurd h.symm (message_ne_empty hl')
  | some line =>
      cases hl' : e'.line with
      | none =>
          rw [line_eq_none hl'] at h
          exact absurd h (message_ne_empty hl)
      | some line' =>
          have hchars := congrArg String.toList h
          rw [message_eq hl, message_eq hl'] at hchars
          simp only [String.toList_append] at hchars
          obtain ⟨rfl, hrest⟩ := Text.toString_nat_append_inj (head?_opening hl _)
            (head?_opening hl' _) (List.append_cancel_left hchars)
          obtain ⟨ho, hd⟩ := words_append_inj openings_free (opening_mem hl) (opening_mem hl') hrest
          exact eq_of_details (hl.trans hl'.symm) (String.toList_injective ho) hd

end Outline.Error

namespace Report

variable {α : Type}

theorem find?_optionalMember (name wanted : String) (toJson : α → Json.Value) (o : Option α) :
    (optionalMember name toJson o).reverse.find? (·.1 == wanted) =
      if name = wanted then o.map fun a => (name, toJson a) else none := by
  cases o with
  | none => simp [optionalMember]
  | some a =>
      by_cases h : name = wanted
      · simp [optionalMember, h]
      · simp [optionalMember, h]

theorem member?_toJson (r : Report) :
    r.toJson.member? "failed" = some (.bool r.failed) ∧
      r.toJson.member? "changed" = some (.bool r.changed) ∧
      r.toJson.member? "msg" = some (.string r.message) ∧
      r.toJson.member? "rc" = r.exitCode.map .int ∧
      r.toJson.member? "output" = r.output.map .string ∧
      r.toJson.member? "error" = r.errorOutput.map .string := by
  simp [toJson, Json.Value.member?, find?_optionalMember, Option.map_map, Function.comp_def]

theorem integral_optionalMember {p : ℤ → Prop} {name : String} {toJson : α → Json.Value}
    {o : Option α} (h : ∀ a, (toJson a).Integral p) :
    ∀ m ∈ optionalMember name toJson o, m.2.Integral p := by
  cases o with
  | none => simp [optionalMember]
  | some a => simpa [optionalMember] using h a

theorem integral_toJson (r : Report) : r.toJson.Integral fun _ => True := by
  have hstring : ∀ s, (Json.Value.string s).Integral fun _ => True := fun _ => .string
  have hint : ∀ n, (Json.Value.int n).Integral fun _ => True := fun _ => .number trivial
  refine .object ?_
  simp only [List.forall_mem_append, List.forall_mem_cons]
  refine ⟨⟨⟨⟨⟨⟨⟨.bool, .bool, .string, by simp⟩, ?_⟩, ?_⟩, ?_⟩, ?_⟩, ?_⟩, ?_⟩
  · exact integral_optionalMember fun tree => tree.integral_toJson _
  · exact integral_optionalMember hstring
  · exact integral_optionalMember hstring
  · exact integral_optionalMember hint
  · exact integral_optionalMember hstring
  · exact integral_optionalMember hstring

theorem message_ofFailure (f : Failure) : (ofFailure f).message = f.message := by
  cases f <;> rfl

end Report

namespace Failure

/-- The first words of the message. -/
def opening : Failure → String
  | .io _ => "IO error: "
  | .outline _ => "Malformed pcs output: "
  | .config _ => "Configuration error: "
  | .validation _ => "Validation error: "
  | .process .. => "Command `"
  | .timeout _ => "Timeout: "
  | .clusterDown _ => "Cluster is not running on this node: "
  | .resourceMissing _ => "Resource not found: "
  | .badJson _ => "Serialization error: "
  | .badYaml _ => "YAML error: "

/-- What follows them. -/
def details : Failure → String
  | .outline error => error.message
  | .process command exitCode _ stderr =>
      command ++ ("` failed with exit code " ++ (exitCodeText exitCode ++ (": " ++ stderr)))
  | .io text | .config text | .validation text | .timeout text | .clusterDown text
  | .resourceMissing text | .badJson text | .badYaml text => text

theorem message_process (command : String) (exitCode : Option ℤ) (stdout stderr : String) :
    (process command exitCode stdout stderr).message =
      "Command `" ++ command ++ "` failed with exit code " ++ exitCodeText exitCode ++ ": " ++
        stderr := rfl

theorem toList_message (f : Failure) :
    f.message.toList = f.opening.toList ++ f.details.toList := by
  cases f with
  | process command exitCode stdout stderr =>
      rw [message_process]
      simp only [opening, details, String.toList_append, List.append_assoc]
  | _ => exact String.toList_append

def openings : List (List Char) :=
  ["IO error: ".toList, "Malformed pcs output: ".toList, "Configuration error: ".toList,
    "Validation error: ".toList, "Command `".toList, "Timeout: ".toList,
    "Cluster is not running on this node: ".toList, "Resource not found: ".toList,
    "Serialization error: ".toList, "YAML error: ".toList]

theorem opening_mem (f : Failure) : f.opening.toList ∈ openings := by
  cases f <;> simp [opening, openings]

theorem openings_free : ∀ a ∈ openings, ∀ b ∈ openings, a <+: b → a = b := by decide +kernel

/-- The kind of a failure, and what it is about as far as the message tells. -/
theorem message_inj {f g : Failure} (h : f.message = g.message) :
    f.opening = g.opening ∧ f.details = g.details := by
  have hchars := congrArg String.toList h
  rw [toList_message, toList_message] at hchars
  obtain ⟨ho, hd⟩ := words_append_inj openings_free (opening_mem f) (opening_mem g) hchars
  exact ⟨String.toList_injective ho, String.toList_injective hd⟩

/-- A failed command is the only failure whose message does not tell it apart. -/
theorem eq_of_message {f g : Failure} (h : f.message = g.message)
    (hp : ∀ {command exitCode stdout stderr}, f = .process command exitCode stdout stderr →
      ∀ {command' exitCode' stdout' stderr'}, g = .process command' exitCode' stdout' stderr' →
        exitCode = exitCode' ∧ stdout = stdout' ∧ stderr = stderr') : f = g := by
  obtain ⟨ho, hd⟩ := message_inj h
  cases f with
  | outline e =>
      cases g with
      | outline e' => rw [Outline.Error.message_injective hd]
      | _ => simp [opening] at ho
  | process command exitCode stdout stderr =>
      cases g with
      | process command' exitCode' stdout' stderr' =>
          obtain ⟨rfl, rfl, rfl⟩ := hp rfl rfl
          have hcommand := congrArg String.toList hd
          simp only [details, String.toList_append] at hcommand
          rw [String.toList_injective (List.append_cancel_right hcommand)]
      | _ => simp [opening] at ho
  | _ =>
      cases g <;> simp [opening] at ho
      cases hd
      rfl

end Failure

/-- Failures with the same document are the same failure. -/
theorem pretty_ofFailure_injective :
    Function.Injective fun failure : Failure => (Report.ofFailure failure).toJson.pretty := by
  intro f g h
  have hjson : (Report.ofFailure f).toJson = (Report.ofFailure g).toJson :=
    (Report.integral_toJson _).pretty_inj (Report.integral_toJson _) h
  obtain ⟨-, -, hmsg, hcode, hout, herr⟩ := Report.member?_toJson (Report.ofFailure f)
  obtain ⟨-, -, hmsg', hcode', hout', herr'⟩ := Report.member?_toJson (Report.ofFailure g)
  rw [hjson] at hmsg hcode hout herr
  have hmessage : f.message = g.message := by
    have he := hmsg.symm.trans hmsg'
    rw [Option.some_inj, Json.Value.string.injEq, Report.message_ofFailure,
      Report.message_ofFailure] at he
    exact he
  refine Failure.eq_of_message hmessage ?_
  rintro command exitCode stdout stderr rfl command' exitCode' stdout' stderr' rfl
  have he := hcode.symm.trans hcode'
  cases hout.symm.trans hout'
  cases herr.symm.trans herr'
  refine ⟨?_, rfl, rfl⟩
  exact Option.map_injective (fun m n h => by cases h; rfl) he

end ResourceAgent
