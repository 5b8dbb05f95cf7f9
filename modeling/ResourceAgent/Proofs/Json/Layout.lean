import Mathlib.Data.List.Basic
import ResourceAgent.Json.Reader
import ResourceAgent.Json.Writer
import ResourceAgent.Proofs.Text.Numeral

/-!
# One writer for both forms

The compact and the pretty form of a value differ in the white space between its tokens and in
nothing else. A layout says what stands there, and what holds of every layout holds of both forms.
-/
namespace ResourceAgent.Json

/-- The white space between tokens. -/
structure Layout where
  /-- Before an element or a member at the given depth, and before a bracket that closes there. -/
  gap : ℕ → List Char
  afterColon : List Char
  isSpace_gap : ∀ depth, ∀ c ∈ gap depth, isSpace c = true
  isSpace_afterColon : ∀ c ∈ afterColon, isSpace c = true

namespace Layout

def compact : Layout where
  gap _ := []
  afterColon := []
  isSpace_gap := by simp
  isSpace_afterColon := by simp

def pretty : Layout where
  gap := newLine
  afterColon := [' ']
  isSpace_gap := by
    intro depth c hc
    rcases List.mem_cons.mp hc with rfl | hc
    · rfl
    · rw [List.eq_of_mem_replicate hc]
      rfl
  isSpace_afterColon := by
    intro c hc
    rw [List.mem_singleton.mp hc]
    rfl

/-- Texts between brackets that close at the given depth, with commas between them. -/
def enclose (l : Layout) (opening closing : Char) (depth : ℕ) : List (List Char) → List Char
  | [] => [opening, closing]
  | text :: texts =>
      opening :: (l.gap (depth + 1) ++ (Text.joinLists (',' :: l.gap (depth + 1)) (text :: texts) ++
        (l.gap depth ++ [closing])))

/-- A member of an object whose value has the given text. -/
def member (l : Layout) (name : String) (text : List Char) : List Char :=
  writeString name ++ ':' :: (l.afterColon ++ text)

end Layout

/-- A value whose brackets close at the given depth. -/
def Value.chars (l : Layout) (depth : ℕ) (v : Value) : List Char :=
  match v with
  | .null => "null".toList
  | .bool b => (if b then "true" else "false").toList
  | .number n => n.write
  | .string s => writeString s
  | .array items => l.enclose '[' ']' depth (items.map fun v => v.chars l (depth + 1))
  | .object members =>
      l.enclose '\x7b' '\x7d' depth (members.map fun m => l.member m.1 (m.2.chars l (depth + 1)))
termination_by sizeOf v
decreasing_by
  · have h := List.sizeOf_lt_of_mem ‹v ∈ items›
    simp only [array.sizeOf_spec]
    omega
  · have h := List.sizeOf_lt_of_mem ‹m ∈ members›
    obtain ⟨name, v⟩ := m
    simp only [Prod.mk.sizeOf_spec, object.sizeOf_spec] at h ⊢
    omega

theorem Value.chars_array (l : Layout) (depth : ℕ) (items : List Value) :
    (Value.array items).chars l depth =
      l.enclose '[' ']' depth (items.map (Value.chars l (depth + 1))) := by rw [chars]

mutual

theorem Value.compactChars_eq (depth : ℕ) : (v : Value) → v.compactChars = v.chars .compact depth
  | .null => by rw [Value.compactChars, Value.chars]
  | .bool b => by rw [Value.compactChars, Value.chars]
  | .number n => by rw [Value.compactChars, Value.chars]
  | .string s => by rw [Value.compactChars, Value.chars]
  | .array [] => by simp [Value.compactChars, Value.chars, compactItems, Layout.enclose]
  | .array (v :: rest) => by
      rw [Value.compactChars, compactItems_eq (depth + 1) (v :: rest), Value.chars]
      rfl
  | .object [] => by simp [Value.compactChars, Value.chars, compactMembers, Layout.enclose]
  | .object (m :: rest) => by
      rw [Value.compactChars, compactMembers_eq (depth + 1) (m :: rest), Value.chars]
      rfl

theorem compactItems_eq (depth : ℕ) : (items : List Value) →
    compactItems items = Text.joinLists [','] (items.map (Value.chars .compact depth))
  | [] => by simp [compactItems, Text.joinLists]
  | [v] => by simp [compactItems, Text.joinLists, v.compactChars_eq depth]
  | v :: w :: rest => by
      simp [compactItems, Text.joinLists, v.compactChars_eq depth,
        compactItems_eq depth (w :: rest)]

theorem compactMembers_eq (depth : ℕ) : (members : List (String × Value)) →
    compactMembers members = Text.joinLists [',']
      (members.map fun m => Layout.compact.member m.1 (m.2.chars .compact depth))
  | [] => by simp [compactMembers, Text.joinLists]
  | [(name, v)] => by
      simp [compactMembers, Text.joinLists, Layout.member, Layout.compact, v.compactChars_eq depth]
  | (name, v) :: m :: rest => by
      simp [compactMembers, Text.joinLists, Layout.member, v.compactChars_eq depth,
        compactMembers_eq depth (m :: rest), show Layout.compact.afterColon = [] from rfl]

end

mutual

theorem Value.prettyChars_eq (depth : ℕ) : (v : Value) →
    v.prettyChars depth = v.chars .pretty depth
  | .null => by rw [Value.prettyChars, Value.chars]
  | .bool b => by rw [Value.prettyChars, Value.chars]
  | .number n => by rw [Value.prettyChars, Value.chars]
  | .string s => by rw [Value.prettyChars, Value.chars]
  | .array [] => by simp [Value.prettyChars, Value.chars, Layout.enclose]
  | .array (v :: rest) => by
      rw [Value.prettyChars, prettyItems_eq (depth + 1) (v :: rest), Value.chars]
      simp only [List.append_assoc, List.cons_append]
      rfl
  | .object [] => by simp [Value.prettyChars, Value.chars, Layout.enclose]
  | .object (m :: rest) => by
      rw [Value.prettyChars, prettyMembers_eq (depth + 1) (m :: rest), Value.chars]
      simp only [List.append_assoc, List.cons_append]
      rfl

theorem prettyItems_eq (depth : ℕ) : (items : List Value) → prettyItems depth items =
    Text.joinLists (',' :: newLine depth) (items.map (Value.chars .pretty depth))
  | [] => by simp [prettyItems, Text.joinLists]
  | [v] => by simp [prettyItems, Text.joinLists, v.prettyChars_eq depth]
  | v :: w :: rest => by
      simp [prettyItems, Text.joinLists, v.prettyChars_eq depth, prettyItems_eq depth (w :: rest)]

theorem prettyMembers_eq (depth : ℕ) : (members : List (String × Value)) →
    prettyMembers depth members = Text.joinLists (',' :: newLine depth)
      (members.map fun m => Layout.pretty.member m.1 (m.2.chars .pretty depth))
  | [] => by simp [prettyMembers, Text.joinLists]
  | [(name, v)] => by
      simp [prettyMembers, Text.joinLists, Layout.member, Layout.pretty, v.prettyChars_eq depth]
  | (name, v) :: m :: rest => by
      simp [prettyMembers, Text.joinLists, Layout.member, v.prettyChars_eq depth,
        prettyMembers_eq depth (m :: rest), show Layout.pretty.afterColon = [' '] from rfl]

end

theorem Value.toList_pretty (v : Value) : v.pretty.toList = v.chars .pretty 0 := by
  rw [pretty, String.toList_ofList, prettyChars_eq]

theorem skipSpace_append {sp : List Char} (h : ∀ c ∈ sp, isSpace c = true) (cs : List Char) :
    skipSpace (sp ++ cs) = skipSpace cs :=
  List.dropWhile_append_of_pos h

theorem skipSpace_cons {c : Char} (h : isSpace c = false) (cs : List Char) :
    skipSpace (c :: cs) = c :: cs := by
  rw [skipSpace, List.dropWhile_cons_of_neg (by simp [h])]

/-- Every number is written as an integer that has the property. -/
inductive Value.Integral (p : ℤ → Prop) : Value → Prop
  | null : Integral p .null
  | bool {b : Bool} : Integral p (.bool b)
  | number {n : ℤ} : p n → Integral p (.number (.integer n))
  | string {s : String} : Integral p (.string s)
  | array {items : List Value} : (∀ v ∈ items, Integral p v) → Integral p (.array items)
  | object {members : List (String × Value)} : (∀ m ∈ members, Integral p m.2) →
      Integral p (.object members)

/-- What the first character of a value tells. -/
inductive Kind where
  | null | bool (b : Bool) | number | string | array | object

def Kind.ofChar? (c : Char) : Option Kind :=
  if c = 'n' then some .null
  else if c = 't' then some (.bool true)
  else if c = 'f' then some (.bool false)
  else if c = '"' then some .string
  else if c = '[' then some .array
  else if c = '\x7b' then some .object
  else if Text.isNumeric c then some .number
  else none

def Value.kind : Value → Kind
  | .null => .null
  | .bool b => .bool b
  | .number _ => .number
  | .string _ => .string
  | .array _ => .array
  | .object _ => .object

theorem Kind.ofChar?_of_isNumeric {c : Char} (h : Text.isNumeric c = true) :
    ofChar? c = some .number := by
  have hne : ∀ d : Char, Text.isNumeric d = false → c ≠ d := by
    rintro d hd rfl
    cases h.symm.trans hd
  simp [ofChar?, h, hne 'n' (by decide), hne 't' (by decide), hne 'f' (by decide),
    hne '"' (by decide), hne '[' (by decide), hne '\x7b' (by decide)]

theorem Layout.exists_enclose_eq_cons (l : Layout) (opening closing : Char) (depth : ℕ)
    (texts : List (List Char)) : ∃ cs, l.enclose opening closing depth texts = opening :: cs := by
  cases texts with
  | nil => exact ⟨_, rfl⟩
  | cons text texts => exact ⟨_, rfl⟩

theorem Value.Integral.exists_chars_eq_cons {p : ℤ → Prop} {v : Value} (hv : v.Integral p)
    (l : Layout) (depth : ℕ) :
    ∃ c cs, v.chars l depth = c :: cs ∧ Kind.ofChar? c = some v.kind := by
  cases hv with
  | null => exact ⟨'n', ['u', 'l', 'l'], by rw [chars]; rfl, rfl⟩
  | @bool b =>
      cases b with
      | false => exact ⟨'f', ['a', 'l', 's', 'e'], by rw [chars]; rfl, rfl⟩
      | true => exact ⟨'t', ['r', 'u', 'e'], by rw [chars]; rfl, rfl⟩
  | @number n hn =>
      obtain ⟨c, cs, hc⟩ := List.exists_cons_of_ne_nil (Text.toString_int_ne_nil n)
      have hmem : c ∈ (toString n).toList := by rw [hc]; exact List.mem_cons_self
      have hk := Kind.ofChar?_of_isNumeric (Text.isNumeric_toString hmem)
      exact ⟨c, cs, by rw [chars, Number.write, hc], hk⟩
  | string => exact ⟨_, _, by rw [chars, writeString]; rfl, rfl⟩
  | array h =>
      obtain ⟨cs, hcs⟩ := l.exists_enclose_eq_cons '[' ']' depth _
      exact ⟨_, cs, by rw [chars, hcs], rfl⟩
  | object h =>
      obtain ⟨cs, hcs⟩ := l.exists_enclose_eq_cons '\x7b' '\x7d' depth _
      exact ⟨_, cs, by rw [chars, hcs], rfl⟩

/-- What may stand right after a value. -/
def isDelimiter (c : Char) : Bool := isSpace c || c = ',' || c = ']' || c = '\x7d'

/-- A value ends where the text goes on like this. -/
def Ends (rest : List Char) : Prop := ∀ c ∈ rest.head?, isDelimiter c = true

@[simp] theorem ends_nil : Ends [] := by simp [Ends]

@[simp] theorem ends_cons {c : Char} {cs : List Char} : Ends (c :: cs) ↔ isDelimiter c = true := by
  simp [Ends]

theorem Ends.space_append {sp rest : List Char} (h : Ends rest)
    (hsp : ∀ c ∈ sp, isSpace c = true) : Ends (sp ++ rest) := by
  cases sp with
  | nil => exact h
  | cons c sp => simp [isDelimiter, hsp c List.mem_cons_self]

end ResourceAgent.Json
