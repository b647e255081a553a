import Ambient.Text.Lines
import Mathlib.Data.List.Basic

/-!
# Pieces of a text

Cutting a text at a separator and gluing the pieces undo each other, as long as no piece holds the
separator. A dotted name has its segments for pieces.

* `cut_eq_splitOn`, `glue_eq_intercalate`: cutting and gluing as the library knows them;
* **`cut_glue`**, **`dotted_inj`**: what has been glued can be told apart again;
* `cut_append`, `cut_append_cons`, `cut_append_sep`: the cut of a text whose beginning holds no
  separator, and of two texts with one between them;
* `infix_intercalate`, `infix_of_mem_cut`: where the pieces of a text are found in it;
* `cutString_intercalate`, `cutString_append_sep`, `intercalate_append`: the same for strings.
-/

namespace Ambient.Text

variable {sep : Char}

/-! ## Cutting and gluing -/

/-- The parts of a whole are found in it. -/
theorem infix_intercalate {α : Type} {sep part : List α} {parts : List (List α)}
    (h : part ∈ parts) : part <:+: sep.intercalate parts := by
  induction parts with
  | nil => cases h
  | cons first later ih =>
    cases later with
    | nil => exact ⟨[], [], by simp [List.mem_singleton.mp h]⟩
    | cons next later =>
      rw [List.intercalate_cons_cons]
      rcases List.mem_cons.mp h with rfl | h
      · exact ((List.prefix_append _ _).trans (List.prefix_append _ _)).isInfix
      · exact (ih h).trans (List.suffix_append _ _).isInfix

theorem glue_eq_intercalate (sep : Char) (pieces : List (List Char)) :
    glue sep pieces = [sep].intercalate pieces := by
  induction pieces with
  | nil => rfl
  | cons piece later ih =>
    cases later with
    | nil => rw [List.intercalate_singleton, glue]
    | cons next later =>
      rw [List.intercalate_cons_cons, ← ih, glue, List.append_assoc, List.singleton_append]

theorem glue_cons {pieces : List (List Char)} (h : pieces ≠ []) (piece : List Char) :
    glue sep (piece :: pieces) = piece ++ sep :: glue sep pieces := by
  obtain ⟨next, later, rfl⟩ := List.exists_cons_of_ne_nil h
  rw [glue]

theorem glue_concat {pieces : List (List Char)} (h : pieces ≠ []) (piece : List Char) :
    glue sep (pieces ++ [piece]) = glue sep pieces ++ sep :: piece := by
  induction pieces with
  | nil => exact absurd rfl h
  | cons first pieces ih =>
    rw [List.cons_append, glue_cons (List.concat_ne_nil piece pieces)]
    by_cases hnil : pieces = []
    · subst hnil
      rfl
    · rw [ih hnil, glue_cons hnil, List.append_assoc, List.cons_append]

/-- The first piece may begin with anything. -/
theorem glue_append_cons (a b : List Char) (pieces : List (List Char)) :
    glue sep ((a ++ b) :: pieces) = a ++ glue sep (b :: pieces) := by
  cases pieces with
  | nil => rfl
  | cons next later => rw [glue, glue, List.append_assoc]

/-- The last piece may end with anything. -/
theorem glue_concat_append (pieces : List (List Char)) (a b : List Char) :
    glue sep (pieces ++ [a ++ b]) = glue sep (pieces ++ [a]) ++ b := by
  by_cases h : pieces = []
  · subst h
    rfl
  · rw [glue_concat h, glue_concat h, List.append_assoc, List.cons_append]

theorem cut_cons_of_ne {c : Char} (hc : c ≠ sep) (s : List Char) :
    cut sep (c :: s) = (cut sep s).modifyHead (c :: ·) := by
  rw [cut, if_neg hc]
  have hne := cut_ne_nil sep s
  cases hs : cut sep s with
  | nil => exact absurd hs hne
  | cons piece pieces => rfl

theorem cut_eq_splitOn (sep : Char) (s : List Char) : cut sep s = s.splitOn sep := by
  induction s with
  | nil => rw [List.splitOn_nil, cut]
  | cons c s ih =>
    rw [List.splitOn_eq_splitOnP] at ih ⊢
    by_cases hc : c = sep
    · rw [cut, if_pos hc, ih, List.splitOnP_cons_eq_if_modifyHead, if_pos (by simpa using hc)]
    · rw [cut_cons_of_ne hc, ih, List.splitOnP_cons_eq_if_modifyHead, if_neg (by simpa using hc)]

/-- **Glued pieces** are cut into the same pieces again. -/
theorem cut_glue {pieces : List (List Char)} (hne : pieces ≠ [])
    (h : ∀ piece ∈ pieces, sep ∉ piece) : cut sep (glue sep pieces) = pieces := by
  rw [cut_eq_splitOn, glue_eq_intercalate]
  exact List.splitOn_intercalate sep h hne

/-! ## The cut of a longer text -/

theorem cut_of_notMem {s : List Char} (h : sep ∉ s) : cut sep s = [s] := by
  have hs : cut sep (glue sep [s]) = [s] := cut_glue (List.cons_ne_nil s []) (by simpa using h)
  rwa [glue] at hs

theorem cut_append_cons {a : List Char} (h : sep ∉ a) (s : List Char) :
    cut sep (a ++ sep :: s) = a :: cut sep s := by
  induction a with
  | nil => rw [List.nil_append, cut, if_pos rfl]
  | cons c a ih =>
    rw [List.mem_cons, not_or] at h
    rw [List.cons_append, cut_cons_of_ne (Ne.symm h.1), ih h.2, List.modifyHead_cons]

theorem cut_append {a : List Char} (h : sep ∉ a) (s : List Char) :
    cut sep (a ++ s) = (cut sep s).modifyHead (a ++ ·) := by
  induction a with
  | nil =>
    have hne := cut_ne_nil sep s
    cases hs : cut sep s with
    | nil => exact absurd hs hne
    | cons piece pieces => rw [List.nil_append, hs]; rfl
  | cons c a ih =>
    rw [List.mem_cons, not_or] at h
    rw [List.cons_append, cut_cons_of_ne (Ne.symm h.1), ih h.2, List.modifyHead_modifyHead]
    rfl

theorem cut_append_sep (a b : List Char) : cut sep (a ++ sep :: b) = cut sep a ++ cut sep b := by
  rw [cut_eq_splitOn, cut_eq_splitOn, cut_eq_splitOn, List.splitOn_append_cons_self]

/-- No piece holds the separator. -/
theorem notMem_of_mem_cut {s : List Char} : ∀ piece ∈ cut sep s, sep ∉ piece := by
  induction s with
  | nil => simp [cut]
  | cons c s ih =>
    by_cases hc : c = sep
    · rw [cut, if_pos hc]
      simpa using ih
    · rw [cut_cons_of_ne hc]
      cases hs : cut sep s with
      | nil => exact absurd hs (cut_ne_nil sep s)
      | cons first pieces =>
        rw [hs, List.forall_mem_cons] at ih
        rw [List.modifyHead_cons, List.forall_mem_cons]
        refine ⟨?_, ih.2⟩
        rw [List.mem_cons, not_or]
        exact ⟨Ne.symm hc, ih.1⟩

theorem infix_of_mem_cut {piece s : List Char} (h : piece ∈ cut sep s) : piece <:+: s := by
  rw [← glue_cut sep s, glue_eq_intercalate]
  exact infix_intercalate h

/-! ## Strings -/

theorem toList_intercalate_singleton (sep : Char) (words : List String) :
    (String.intercalate (String.singleton sep) words).toList =
      glue sep (words.map String.toList) := by
  rw [String.toList_intercalate, glue_eq_intercalate, String.toList_singleton]

theorem toList_cutString (sep : Char) (s : String) :
    (cutString sep s).map String.toList = cut sep s.toList := by
  rw [cutString, List.map_map]
  exact List.map_id'' (fun _ => String.toList_ofList) _

theorem cutString_ne_nil (sep : Char) (s : String) : cutString sep s ≠ [] :=
  List.map_eq_nil_iff.not.mpr (cut_ne_nil _ _)

/-- The words of a string, joined again. -/
theorem intercalate_cutString (sep : Char) (s : String) :
    String.intercalate (String.singleton sep) (cutString sep s) = s := by
  rw [← String.toList_inj, toList_intercalate_singleton, toList_cutString, glue_cut]

/-- Joined words are cut into the same words again. -/
theorem cutString_intercalate {words : List String} (hne : words ≠ [])
    (h : ∀ word ∈ words, sep ∉ word.toList) :
    cutString sep (String.intercalate (String.singleton sep) words) = words := by
  rw [cutString, toList_intercalate_singleton, cut_glue, List.map_map]
  · exact List.map_id'' (fun _ => String.ofList_toList) _
  · exact List.map_eq_nil_iff.not.mpr hne
  · simpa using h

theorem notMem_of_mem_cutString {s word : String} (h : word ∈ cutString sep s) :
    sep ∉ word.toList := by
  refine notMem_of_mem_cut (s := s.toList) _ ?_
  rw [← toList_cutString]
  exact List.mem_map_of_mem h

theorem cutString_append_sep (sep : Char) (a b : String) :
    cutString sep (a ++ String.singleton sep ++ b) = cutString sep a ++ cutString sep b := by
  have htext : (a ++ String.singleton sep ++ b).toList = a.toList ++ sep :: b.toList := by
    rw [String.toList_append, String.toList_append, List.append_assoc, String.toList_singleton]
    rfl
  rw [cutString, htext, cut_append_sep, List.map_append]
  rfl

theorem intercalate_append (sep : String) {p q : List String} (hp : p ≠ []) (hq : q ≠ []) :
    String.intercalate sep (p ++ q) =
      String.intercalate sep p ++ sep ++ String.intercalate sep q := by
  induction p with
  | nil => exact absurd rfl hp
  | cons word p ih =>
    obtain ⟨next, later, hnext⟩ :=
      List.exists_cons_of_ne_nil (List.append_ne_nil_of_right_ne_nil p hq)
    rw [List.cons_append, hnext, String.intercalate_cons_cons, ← hnext]
    cases p with
    | nil => rw [List.nil_append, String.intercalate_singleton]
    | cons second p =>
      rw [String.intercalate_cons_cons, ih (List.cons_ne_nil _ _)]
      simp only [String.append_assoc]

/-! ## Dotted names -/

/-- A word that can be a segment of a dotted name: not empty, and without a point. -/
def IsSegment (word : String) : Prop := word ≠ "" ∧ '.' ∉ word.toList

instance (word : String) : Decidable (IsSegment word) := inferInstanceAs (Decidable (_ ∧ _))

theorem toList_dotted (segments : List String) :
    (dotted segments).toList = glue '.' (segments.map String.toList) :=
  toList_intercalate_singleton '.' segments

theorem dotted_ne_empty {segments : List String} (hne : segments ≠ [])
    (h : ∀ word ∈ segments, IsSegment word) : (dotted segments).toList ≠ [] := by
  obtain ⟨first, later, rfl⟩ := List.exists_cons_of_ne_nil hne
  have hfirst : first.toList ≠ [] := fun hnil =>
    (h first List.mem_cons_self).1 (String.toList_eq_nil_iff.mp hnil)
  rw [toList_dotted]
  cases later with
  | nil => exact hfirst
  | cons next later =>
    rw [List.map_cons, List.map_cons, glue]
    exact List.append_ne_nil_of_left_ne_nil hfirst _

/-- **A dotted name** tells its segments. -/
theorem dotted_inj {p q : List String} (hp : ∀ word ∈ p, IsSegment word)
    (hq : ∀ word ∈ q, IsSegment word) (h : dotted p = dotted q) : p = q := by
  by_cases hpnil : p = []
  · by_contra hne
    have hqnil : q ≠ [] := fun hqnil => hne (hpnil.trans hqnil.symm)
    exact dotted_ne_empty hqnil hq (by rw [← h, hpnil]; rfl)
  by_cases hqnil : q = []
  · exact absurd (by rw [h, hqnil]; rfl) (dotted_ne_empty hpnil hp)
  have hcut : ∀ {r : List String}, r ≠ [] → (∀ word ∈ r, IsSegment word) →
      cut '.' (dotted r).toList = r.map String.toList := by
    intro r hne hr
    rw [toList_dotted]
    refine cut_glue (List.map_eq_nil_iff.not.mpr hne) ?_
    simpa using fun word hword => (hr word hword).2
  have hpieces : p.map String.toList = q.map String.toList := by
    rw [← hcut hpnil hp, ← hcut hqnil hq, h]
  exact List.map_injective_iff.mpr (fun _ _ hword => String.toList_injective hword) hpieces

end Ambient.Text
