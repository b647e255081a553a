import Ambient.Name.Generic
import Ambient.Proofs.Text.Cut

/-!
# Marks at reserved words

A dotted name is marked segment by segment. So a name below another one is marked as both are, and
what the mark leaves as it is are the names without reserved segments.

* `segments_dotted`, `segments_point`: the segments of a name that is put together;
* `renameReserved_point`, `renameType_point`: the mark at a name below another one;
* `Unreserved`, **`renameReserved_eq_self_iff`**: the names that are left as they are.
-/

namespace Ambient.Name

open Text (dotted)

/-! ## Segments -/

theorem dotted_segments (n : String) : dotted (segments n) = n := Text.intercalate_cutString '.' n

theorem segments_dotted {words : List String} (hne : words ≠ [])
    (h : ∀ word ∈ words, '.' ∉ word.toList) : segments (dotted words) = words :=
  Text.cutString_intercalate hne h

theorem segments_ne_nil (n : String) : segments n ≠ [] := Text.cutString_ne_nil '.' n

theorem segments_point (a b : String) : segments (a ++ "." ++ b) = segments a ++ segments b :=
  Text.cutString_append_sep '.' a b

theorem dotted_append {p q : List String} (hp : p ≠ []) (hq : q ≠ []) :
    dotted (p ++ q) = dotted p ++ "." ++ dotted q :=
  Text.intercalate_append "." hp hq

/-! ## Marks -/

/-- No segment of a name is a reserved word. -/
def Unreserved (n : String) : Prop := ∀ word ∈ segments n, word ∉ reservedWords

instance (n : String) : Decidable (Unreserved n) :=
  inferInstanceAs (Decidable (∀ word ∈ segments n, word ∉ reservedWords))

theorem sanitize_eq_self_iff {word : String} : sanitize word = word ↔ word ∉ reservedWords := by
  rw [sanitize]
  split_ifs with h
  · rw [List.contains_iff_mem] at h
    refine iff_of_false (fun heq => ?_) (fun hno => hno h)
    have hlength := congrArg String.length heq
    rw [String.length_append] at hlength
    exact absurd hlength (Nat.succ_ne_self _)
  · rw [List.contains_iff_mem] at h
    exact iff_of_true rfl h

theorem point_notMem_sanitize {word : String} (h : '.' ∉ word.toList) :
    '.' ∉ (sanitize word).toList := by
  rw [sanitize]
  split_ifs
  · rw [String.toList_append, List.mem_append, not_or]
    exact ⟨h, by decide⟩
  · exact h

theorem segments_renameReserved (n : String) :
    segments (renameReserved n) = (segments n).map sanitize := by
  refine segments_dotted (List.map_eq_nil_iff.not.mpr (segments_ne_nil n)) ?_
  rw [List.forall_mem_map]
  exact fun word hword => point_notMem_sanitize (Text.notMem_of_mem_cutString hword)

/-- **The names that are left as they are** have no reserved segments. -/
theorem renameReserved_eq_self_iff {n : String} : renameReserved n = n ↔ Unreserved n := by
  have hwords : (segments n).map sanitize = segments n ↔ Unreserved n := by
    conv_lhs => rw [← List.map_id (segments n), List.map_map]
    exact List.map_inj_left.trans (forall₂_congr fun _ _ => sanitize_eq_self_iff)
  rw [← hwords]
  constructor
  · intro h
    rw [← segments_renameReserved, h]
  · intro h
    rw [renameReserved, h, dotted_segments]

/-- A name below another one is marked as both are. -/
theorem renameReserved_point (a b : String) :
    renameReserved (a ++ "." ++ b) = renameReserved a ++ "." ++ renameReserved b := by
  have hne : ∀ n, (segments n).map sanitize ≠ [] := fun n =>
    List.map_eq_nil_iff.not.mpr (segments_ne_nil n)
  rw [renameReserved, segments_point, List.map_append, dotted_append (hne a) (hne b)]
  rfl

/-- A type below a namespace is referred to by the marked name. -/
theorem renameType_point (a b : String) :
    renameType (a ++ "." ++ b) = renameReserved a ++ "." ++ renameReserved b := by
  have hne : renameReserved (a ++ "." ++ b) ≠ "EventTarget" := by
    intro h
    have hpoint : '.' ∈ (renameReserved (a ++ "." ++ b)).toList := by
      rw [renameReserved_point, String.toList_append, String.toList_append]
      exact List.mem_append_left _ (List.mem_append_right _ (List.mem_singleton.mpr rfl))
    rw [h] at hpoint
    exact absurd hpoint (by decide)
  rw [renameType, legacyRenames, List.lookup_cons, beq_eq_false_iff_ne.mpr hne,
    renameReserved_point]
  rfl

end Ambient.Name
