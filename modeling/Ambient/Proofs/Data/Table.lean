import Ambient.Data.Value
import Mathlib.Logic.Basic
import Mathlib.Tactic.SplitIfs

/-!
# Looking up keys

What is found in a table under a key of text, after values have been put there.

* `lookup_cons_self`, `lookup_cons_of_ne`, `lookup_append`;
* **`lookup_put`**: only the key of the value finds something new;
* `lookup_filter_of_ne`: the same when what is under a key is taken away;
* `key_of_mem_put`: the keys that are there.
-/

namespace Ambient.Data.Value

variable {k : Value} {key other : String}

theorem sameKey_text_iff : sameKey k (.text key) = true ↔ k = .text key := by
  cases k <;> simp [sameKey]

theorem lookup_cons_self (key : String) (v : Value) (rest : List (Value × Value)) :
    lookup key ((.text key, v) :: rest) = some v := by
  rw [lookup, if_pos (sameKey_text_iff.mpr rfl)]

theorem lookup_cons_of_ne (h : k ≠ .text key) (v : Value) (rest : List (Value × Value)) :
    lookup key ((k, v) :: rest) = lookup key rest := by
  rw [lookup, if_neg (sameKey_text_iff.not.mpr h)]

theorem lookup_append (key : String) (later : List (Value × Value)) :
    ∀ fields : List (Value × Value),
      lookup key (fields ++ later) = (lookup key fields).or (lookup key later)
  | [] => rfl
  | (k, v) :: fields => by
    by_cases hkey : k = .text key
    · rw [hkey, List.cons_append, lookup_cons_self, lookup_cons_self, Option.some_or]
    · rw [List.cons_append, lookup_cons_of_ne hkey, lookup_cons_of_ne hkey,
        lookup_append key later fields]

theorem lookup_put_self (key : String) (value : Value) : ∀ fields : List (Value × Value),
    lookup key (put (.text key) value fields) = some value
  | [] => lookup_cons_self key value []
  | (k, v) :: fields => by
    rw [put]
    by_cases hkey : k = .text key
    · rw [if_pos (sameKey_text_iff.mpr hkey), hkey, lookup_cons_self]
    · rw [if_neg (sameKey_text_iff.not.mpr hkey), lookup_cons_of_ne hkey,
        lookup_put_self key value fields]

theorem lookup_put_of_ne (h : other ≠ key) (value : Value) : ∀ fields : List (Value × Value),
    lookup other (put (.text key) value fields) = lookup other fields
  | [] => lookup_cons_of_ne (fun heq => h (text.inj heq).symm) value []
  | (k, v) :: fields => by
    rw [put]
    by_cases hkey : k = .text key
    · have hother : Value.text key ≠ .text other := fun heq => h (text.inj heq).symm
      rw [if_pos (sameKey_text_iff.mpr hkey), hkey, lookup_cons_of_ne hother,
        lookup_cons_of_ne hother]
    · rw [if_neg (sameKey_text_iff.not.mpr hkey)]
      by_cases hother : k = .text other
      · rw [hother, lookup_cons_self, lookup_cons_self]
      · rw [lookup_cons_of_ne hother, lookup_cons_of_ne hother, lookup_put_of_ne h]

/-- **A value that is put into a table** is found under its key, and nothing else changes. -/
theorem lookup_put (key other : String) (value : Value) (fields : List (Value × Value)) :
    lookup other (put (.text key) value fields) =
      if other = key then some value else lookup other fields := by
  split_ifs with h
  · rw [h, lookup_put_self]
  · rw [lookup_put_of_ne h]

/-- Without its entries for a key, a table has the same under every other key. -/
theorem lookup_filter_of_ne (h : other ≠ key) : ∀ fields : List (Value × Value),
    lookup other (fields.filter fun e => !sameKey e.1 (.text key)) = lookup other fields
  | [] => rfl
  | (k, v) :: fields => by
    by_cases hkey : k = .text key
    · have hother : Value.text key ≠ .text other := fun heq => h (text.inj heq).symm
      rw [List.filter_cons_of_neg (by simp [sameKey_text_iff, hkey]), hkey,
        lookup_cons_of_ne hother, lookup_filter_of_ne h]
    · have hkeep : (!sameKey k (.text key)) = true := by
        rw [Bool.not_eq_true', Bool.eq_false_iff]
        exact sameKey_text_iff.not.mpr hkey
      rw [List.filter_cons_of_pos (by exact hkeep)]
      by_cases hother : k = .text other
      · rw [hother, lookup_cons_self, lookup_cons_self]
      · rw [lookup_cons_of_ne hother, lookup_cons_of_ne hother, lookup_filter_of_ne h]

/-- The keys of a table after a value was put there: those it had, and that of the value. -/
theorem key_of_mem_put {key value : Value} {e : Value × Value} : ∀ {fields : List (Value × Value)},
    e ∈ put key value fields → e.1 = key ∨ ∃ v, (e.1, v) ∈ fields
  | [], h => Or.inl (by rw [List.mem_singleton.mp h])
  | (k, v) :: fields, h => by
    rw [put] at h
    split_ifs at h
    · rcases List.mem_cons.mp h with rfl | h
      · exact Or.inr ⟨v, List.mem_cons_self⟩
      · exact Or.inr ⟨e.2, List.mem_cons_of_mem _ h⟩
    · rcases List.mem_cons.mp h with rfl | h
      · exact Or.inr ⟨v, List.mem_cons_self⟩
      · rcases key_of_mem_put h with h | ⟨w, hw⟩
        · exact Or.inl h
        · exact Or.inr ⟨w, List.mem_cons_of_mem _ hw⟩

end Ambient.Data.Value
