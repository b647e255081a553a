import Ambient.Text.Glob
import Mathlib.Data.List.Infix

/-!
# Patterns of a fixed text between runs

A pattern without sets that has a `*` at one end or at both matches the texts that end with the rest
of the pattern or hold it somewhere.

* `anyTail_iff`, `accepts_literals_iff`: what runs and characters match;
* `readPattern_literals`: a pattern without signs stands for itself;
* **`globMatch_behind_iff`**, **`globMatch_between_iff`**: a text behind a run, and between two.
-/

namespace Ambient.Text

variable {s : List Char} {items : List Item}

theorem anyTail_iff {test : List Char → Bool} :
    anyTail test s = true ↔ ∃ t, t <:+ s ∧ test t = true := by
  induction s with
  | nil => simp [anyTail]
  | cons c s ih => simp [anyTail, ih, List.suffix_cons_iff, or_and_right, exists_or]

theorem accepts_literals_iff {w : List Char} :
    accepts (w.map .literal ++ items) s = true ↔ ∃ t, s = w ++ t ∧ accepts items t = true := by
  induction w generalizing s with
  | nil => simp
  | cons c w ih =>
    rw [List.map_cons, List.cons_append]
    cases s with
    | nil => simp [accepts]
    | cons e s =>
      simp only [accepts, Item.holds, Bool.and_eq_true, beq_iff_eq, ih, List.cons_append,
        List.cons.injEq]
      constructor
      · rintro ⟨rfl, t, rfl, ht⟩
        exact ⟨t, ⟨rfl, rfl⟩, ht⟩
      · rintro ⟨t, ⟨rfl, rfl⟩, ht⟩
        exact ⟨rfl, t, rfl, ht⟩

theorem accepts_run_iff : accepts (.run :: items) s = true ↔
    ∃ t, t <:+ s ∧ accepts items t = true := by
  rw [accepts, anyTail_iff]

/-- A text without the signs of patterns. -/
def Signless (w : String) : Prop := '*' ∉ w.toList ∧ '?' ∉ w.toList ∧ '[' ∉ w.toList

instance (w : String) : Decidable (Signless w) := inferInstanceAs (Decidable (_ ∧ _))

theorem readPattern_literals {w : List Char} (h : '*' ∉ w ∧ '?' ∉ w ∧ '[' ∉ w) (fuel : ℕ)
    (rest : List Char) : readPattern (w.length + fuel) (w ++ rest) =
      w.map .literal ++ readPattern fuel rest := by
  induction w with
  | nil => simp
  | cons c w ih =>
    simp only [List.mem_cons, not_or] at h
    obtain ⟨⟨hrun, h₁⟩, ⟨hone, h₂⟩, hset, h₃⟩ := h
    rw [List.length_cons, Nat.add_right_comm, List.cons_append, readPattern,
      if_neg (Ne.symm hrun), if_neg (Ne.symm hone), if_neg (Ne.symm hset), ih ⟨h₁, h₂, h₃⟩]
    rfl

theorem readPattern_run (fuel : ℕ) (rest : List Char) :
    readPattern (fuel + 1) ('*' :: rest) = .run :: readPattern fuel rest := rfl

theorem length_run (w : String) : ("*" ++ w).length = w.toList.length + 1 := by
  rw [String.length_append, String.length_toList, Nat.add_comm]
  rfl

theorem toList_run (w : String) : ("*" ++ w).toList = '*' :: w.toList := by
  rw [String.toList_append]
  rfl

/-- **A text behind a run** matches what ends with it. -/
theorem globMatch_behind_iff {w text : String} (h : Signless w) :
    globMatch ("*" ++ w) text = true ↔ w.toList <:+ text.toList := by
  have hw := readPattern_literals h 0 []
  rw [Nat.add_zero, List.append_nil] at hw
  rw [globMatch, length_run, toList_run, readPattern_run, hw, accepts_run_iff]
  constructor
  · rintro ⟨t, ht, haccepts⟩
    obtain ⟨rest, rfl, hrest⟩ := accepts_literals_iff.mp haccepts
    have hnil : rest = [] := List.isEmpty_iff.mp hrest
    rwa [hnil, List.append_nil] at ht
  · exact fun ht => ⟨_, ht, accepts_literals_iff.mpr ⟨[], (List.append_nil _).symm, rfl⟩⟩

/-- **A text between two runs** matches what holds it. -/
theorem globMatch_between_iff {w text : String} (h : Signless w) :
    globMatch ("*" ++ (w ++ "*")) text = true ↔ w.toList <:+: text.toList := by
  have hw := readPattern_literals h 1 ['*']
  have hlength : (w ++ "*").toList.length = w.toList.length + 1 := by
    rw [String.toList_append, List.length_append]
    rfl
  have hall : ∀ t, accepts [.run] t = true :=
    fun t => accepts_run_iff.mpr ⟨[], List.nil_suffix, rfl⟩
  rw [globMatch, length_run, toList_run, readPattern_run, hlength, String.toList_append]
  rw [show "*".toList = ['*'] from rfl, hw, accepts_run_iff]
  simp only [accepts_literals_iff, List.infix_iff_prefix_suffix]
  constructor
  · rintro ⟨t, ht, rest, rfl, -⟩
    exact ⟨_, List.prefix_append _ _, ht⟩
  · rintro ⟨t, ⟨rest, rfl⟩, ht⟩
    exact ⟨_, ht, rest, rfl, hall rest⟩

end Ambient.Text
