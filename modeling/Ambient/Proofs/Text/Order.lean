import Ambient.Text.Order
import Mathlib.Data.String.Basic

/-!
# Texts in order

There is one order of some texts, and it depends neither on the order in which they were found nor
on what else was found, nor on a beginning that all of them share.

* `notAfter_iff`, `notAfter_trans`, `notAfter_total`: the order;
* **`sorted_eq_of_perm`**, `filter_sorted`, `sorted_map_append`: what does not matter to it.
-/

namespace Ambient.Text

variable {texts texts' : List String}

theorem notAfter_iff {a b : String} : notAfter a b = true ↔ a ≤ b := by
  rw [notAfter, Bool.not_eq_true', decide_eq_false_iff_not, String.not_lt]

theorem notAfter_trans (a b c : String) (hab : notAfter a b = true) (hbc : notAfter b c = true) :
    notAfter a c = true := by
  rw [notAfter_iff] at hab hbc ⊢
  exact String.le_trans hab hbc

theorem notAfter_total (a b : String) : (notAfter a b || notAfter b a) = true := by
  rw [Bool.or_eq_true, notAfter_iff, notAfter_iff]
  exact String.le_total a b

theorem mem_sorted {text : String} : text ∈ sorted texts ↔ text ∈ texts := List.mem_mergeSort

theorem pairwise_sorted (texts : List String) :
    (sorted texts).Pairwise fun a b => notAfter a b = true :=
  List.pairwise_mergeSort notAfter_trans notAfter_total texts

/-- **Texts in order** are put in this order, however they are given. -/
theorem sorted_eq_of_perm (h : texts.Perm texts')
    (hpairwise : texts'.Pairwise fun a b => notAfter a b = true) : sorted texts = texts' := by
  refine List.Perm.eq_of_pairwise (fun a b _ _ hab hba => ?_) (pairwise_sorted texts) hpairwise
    ((List.mergeSort_perm texts notAfter).trans h)
  exact String.le_antisymm (notAfter_iff.mp hab) (notAfter_iff.mp hba)

theorem sorted_congr (h : texts.Perm texts') : sorted texts = sorted texts' :=
  sorted_eq_of_perm (h.trans (List.mergeSort_perm texts' notAfter).symm) (pairwise_sorted texts')

theorem filter_sorted (p : String → Bool) (texts : List String) :
    (sorted texts).filter p = sorted (texts.filter p) := by
  refine (sorted_eq_of_perm ?_ ((pairwise_sorted texts).filter p)).symm
  exact ((List.mergeSort_perm texts notAfter).filter p).symm

theorem append_lt_append_iff {front a b : List Char} : front ++ a < front ++ b ↔ a < b := by
  induction front with
  | nil => rfl
  | cons c front ih => simp [ih]

theorem notAfter_append (front a b : String) :
    notAfter (front ++ a) (front ++ b) = notAfter a b := by
  rw [notAfter, notAfter]
  simp only [String.lt_iff_toList_lt, String.toList_append, append_lt_append_iff]

theorem sorted_map_append (front : String) (texts : List String) :
    sorted (texts.map (front ++ ·)) = (sorted texts).map (front ++ ·) :=
  (List.map_mergeSort fun a _ b _ => (notAfter_append front a b).symm).symm

end Ambient.Text
