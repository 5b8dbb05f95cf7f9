import Mathlib.Data.List.Induction
import Mathlib.Data.String.Basic
import ResourceAgent.Outline.Tree

/-!
# Trees as finite maps

A tree in which the names ascend is a finite map in normal form: it is determined by its bindings
in any order. Inserting keeps the names ascending, and a tree made from a list of bindings binds
each name to what the list bound it to last.
-/
namespace ResourceAgent.Outline.Tree

@[simp] theorem names_nil : Tree.nil.names = [] := rfl

@[simp] theorem names_cons (name : String) (entry : Section) (rest : Tree) :
    (Tree.cons name entry rest).names = name :: rest.names := rfl

/-- Induction on the bindings of a tree, whatever the names are bound to. -/
@[elab_as_elim]
theorem bindingsInduction {motive : Tree → Prop} (nil : motive .nil)
    (cons : ∀ name entry rest, motive rest → motive (.cons name entry rest)) :
    ∀ tree, motive tree
  | .nil => nil
  | .cons name entry rest => cons name entry rest (bindingsInduction nil cons rest)

/-- Each name comes before all later ones. -/
def Ascending (tree : Tree) : Prop := tree.names.Pairwise (· < ·)

theorem ascending_nil : Tree.nil.Ascending := List.Pairwise.nil

theorem ascending_cons {name : String} {entry : Section} {rest : Tree} :
    (Tree.cons name entry rest).Ascending ↔ (∀ n ∈ rest.names, name < n) ∧ rest.Ascending :=
  List.pairwise_cons

theorem insert_ne_nil (name : String) (entry : Section) (tree : Tree) :
    tree.insert name entry ≠ .nil := by
  cases tree with
  | nil => simp [insert]
  | cons n e rest =>
      simp only [insert]
      split_ifs <;> simp

theorem get?_insert (name m : String) (entry : Section) (tree : Tree) :
    (tree.insert name entry).get? m = if m = name then some entry else tree.get? m := by
  induction tree using bindingsInduction with
  | nil => simp [insert, get?]
  | cons n e rest ih =>
      simp only [insert]
      split_ifs with h₁ h₂ h₃ h₃ h₃ <;> simp_all [get?]

theorem mem_names_insert {name m : String} {entry : Section} {tree : Tree} :
    m ∈ (tree.insert name entry).names ↔ m = name ∨ m ∈ tree.names := by
  induction tree using bindingsInduction with
  | nil => simp [insert]
  | cons n e rest ih =>
      simp only [insert]
      split_ifs with h₁ h₂
      · simp
      · simp [h₂]
      · simp only [names_cons, List.mem_cons, ih]
        tauto

theorem Ascending.insert {tree : Tree} (h : tree.Ascending) (name : String) (entry : Section) :
    (tree.insert name entry).Ascending := by
  induction tree using bindingsInduction with
  | nil => simp [Tree.insert, Ascending]
  | cons n e rest ih =>
      obtain ⟨hn, hr⟩ := ascending_cons.mp h
      simp only [Tree.insert]
      split_ifs with h₁ h₂
      · refine ascending_cons.mpr ⟨?_, h⟩
        intro m hm
        rcases List.mem_cons.mp hm with rfl | hm
        · exact h₁
        · exact h₁.trans (hn m hm)
      · exact ascending_cons.mpr ⟨h₂ ▸ hn, hr⟩
      · refine ascending_cons.mpr ⟨?_, ih hr⟩
        intro m hm
        rcases mem_names_insert.mp hm with rfl | hm
        · exact lt_of_le_of_ne (not_lt.mp h₁) (Ne.symm h₂)
        · exact hn m hm

/-- A name that is not bound yet is added to the bindings. -/
theorem toList_insert_perm {name : String} {entry : Section} {tree : Tree}
    (h : name ∉ tree.names) :
    (tree.insert name entry).toList.Perm ((name, entry) :: tree.toList) := by
  induction tree using bindingsInduction with
  | nil => exact List.Perm.refl _
  | cons n e rest ih =>
      simp only [names_cons, List.mem_cons, not_or] at h
      simp only [insert, if_neg h.1]
      split_ifs
      · exact List.Perm.refl _
      · exact ((ih h.2).cons (n, e)).trans (List.Perm.swap _ _ _)

theorem toList_injective {s t : Tree} (h : s.toList = t.toList) : s = t := by
  induction s using bindingsInduction generalizing t with
  | nil =>
      cases t with
      | nil => rfl
      | cons => simp at h
  | cons n e rest ih =>
      cases t with
      | nil => simp at h
      | cons m f tail =>
          simp only [toList_cons, List.cons.injEq, Prod.mk.injEq] at h
          rw [h.1.1, h.1.2, ih h.2]

theorem Ascending.pairwise_toList {tree : Tree} (h : tree.Ascending) :
    tree.toList.Pairwise fun a b => a.1 < b.1 := List.pairwise_map.mp h

/-- Ascending trees with the same bindings are equal. -/
theorem Ascending.eq_of_perm {s t : Tree} (hs : s.Ascending) (ht : t.Ascending)
    (h : s.toList.Perm t.toList) : s = t := by
  refine toList_injective (h.eq_of_pairwise ?_ hs.pairwise_toList ht.pairwise_toList)
  intro a b _ _ hab hba
  exact absurd (hab.trans hba) (lt_irrefl _)

theorem mem_toList_of_get? {n : String} {entry : Section} {tree : Tree}
    (h : tree.get? n = some entry) : (n, entry) ∈ tree.toList := by
  induction tree using bindingsInduction with
  | nil => cases h
  | cons m e rest ih =>
      rw [get?] at h
      split_ifs at h with hn
      · rw [hn, Option.some.inj h]
        exact List.mem_cons_self
      · exact List.mem_cons_of_mem _ (ih h)

theorem Ascending.mem_toList_iff {tree : Tree} (h : tree.Ascending) {n : String}
    {entry : Section} : (n, entry) ∈ tree.toList ↔ tree.get? n = some entry := by
  refine ⟨?_, mem_toList_of_get?⟩
  induction tree using bindingsInduction with
  | nil => simp
  | cons m e rest ih =>
      obtain ⟨hm, hr⟩ := ascending_cons.mp h
      rw [toList_cons, List.mem_cons, Prod.mk.injEq, get?]
      rintro (⟨rfl, rfl⟩ | hin)
      · exact if_pos rfl
      · have hne : n ≠ m := (hm n (List.mem_map_of_mem hin)).ne'
        rw [if_neg hne]
        exact ih hr hin

theorem Ascending.nodup_toList {tree : Tree} (h : tree.Ascending) : tree.toList.Nodup :=
  h.pairwise_toList.imp fun hlt he => absurd (he ▸ hlt) (lt_irrefl _)

/-- Ascending trees that bind each name alike are the same. -/
theorem Ascending.ext {s t : Tree} (hs : s.Ascending) (ht : t.Ascending)
    (h : ∀ name, s.get? name = t.get? name) : s = t := by
  refine hs.eq_of_perm ht ((List.perm_ext_iff_of_nodup hs.nodup_toList ht.nodup_toList).mpr ?_)
  rintro ⟨name, entry⟩
  rw [hs.mem_toList_iff, ht.mem_toList_iff, h]

@[simp] theorem ofList_nil : ofList [] = .nil := rfl

theorem ofList_concat (es : List (String × Section)) (name : String) (entry : Section) :
    ofList (es ++ [(name, entry)]) = (ofList es).insert name entry := by
  simp [ofList, List.foldl_append]

theorem ascending_ofList (es : List (String × Section)) : (ofList es).Ascending := by
  induction es using List.reverseRecOn with
  | nil => exact ascending_nil
  | append_singleton es e ih =>
      rw [ofList_concat]
      exact ih.insert e.1 e.2

theorem ofList_ne_nil {es : List (String × Section)} (h : es ≠ []) : ofList es ≠ .nil := by
  induction es using List.reverseRecOn with
  | nil => exact absurd rfl h
  | append_singleton es e _ =>
      rw [ofList_concat]
      exact insert_ne_nil e.1 e.2 (ofList es)

/-- Of several bindings of one name the last one holds. -/
theorem get?_ofList (es : List (String × Section)) (name : String) :
    (ofList es).get? name = (es.reverse.find? (·.1 == name)).map Prod.snd := by
  induction es using List.reverseRecOn with
  | nil => rfl
  | append_singleton es e ih =>
      rw [ofList_concat, get?_insert, ih, List.reverse_append, List.reverse_singleton,
        List.singleton_append, List.find?_cons]
      by_cases h : name = e.1
      · simp [h]
      · have hb : (e.1 == name) = false := beq_eq_false_iff_ne.mpr (Ne.symm h)
        rw [if_neg h, hb]

theorem mem_names_ofList {es : List (String × Section)} {name : String} :
    name ∈ (ofList es).names ↔ name ∈ es.map Prod.fst := by
  induction es using List.reverseRecOn with
  | nil => simp
  | append_singleton es e ih =>
      rw [ofList_concat, mem_names_insert, ih, List.map_append, List.mem_append]
      simp [or_comm]

/-- Bindings of different names are kept, all of them. -/
theorem toList_ofList_perm {es : List (String × Section)} (h : (es.map Prod.fst).Nodup) :
    (ofList es).toList.Perm es := by
  induction es using List.reverseRecOn with
  | nil => exact List.Perm.refl _
  | append_singleton es e ih =>
      rw [List.map_append, List.map_singleton, List.nodup_append] at h
      obtain ⟨hes, -, hd⟩ := h
      have hn : e.1 ∉ (ofList es).names := by
        intro hm
        exact hd e.1 (mem_names_ofList.mp hm) e.1 (by simp) rfl
      rw [ofList_concat]
      calc ((ofList es).insert e.1 e.2).toList
          |>.Perm ((e.1, e.2) :: (ofList es).toList) := toList_insert_perm hn
        _ |>.Perm (e :: es) := (ih hes).cons e
        _ |>.Perm (es ++ [e]) := (List.perm_append_singleton e es).symm

/-- An ascending tree is made from its bindings, in whatever order they come. -/
theorem ofList_eq_of_perm {tree : Tree} {es : List (String × Section)} (h : tree.Ascending)
    (hp : es.Perm tree.toList) : ofList es = tree := by
  have hn : (es.map Prod.fst).Nodup :=
    (hp.map Prod.fst).nodup_iff.mpr (h.imp fun hlt => ne_of_lt hlt)
  exact (ascending_ofList es).eq_of_perm h ((toList_ofList_perm hn).trans hp)

theorem toList_insert_subset (name : String) (entry : Section) (tree : Tree) :
    (tree.insert name entry).toList ⊆ (name, entry) :: tree.toList := by
  induction tree using bindingsInduction with
  | nil => exact List.Subset.refl _
  | cons n e rest ih =>
      simp only [insert]
      split_ifs
      · exact List.Subset.refl _
      · exact List.cons_subset_cons _ (List.subset_cons_self _ _)
      · intro b hb
        rcases List.mem_cons.mp hb with rfl | hb
        · simp
        · have := ih hb
          simp only [toList_cons, List.mem_cons] at this ⊢
          tauto

/-- Whatever is bound in a tree made from a list was bound in the list. -/
theorem toList_ofList_subset (es : List (String × Section)) : (ofList es).toList ⊆ es := by
  induction es using List.reverseRecOn with
  | nil => exact List.Subset.refl _
  | append_singleton es e ih =>
      rw [ofList_concat]
      intro b hb
      rcases List.mem_cons.mp (toList_insert_subset e.1 e.2 (ofList es) hb) with rfl | hb
      · simp
      · exact List.mem_append_left _ (ih hb)

end ResourceAgent.Outline.Tree
