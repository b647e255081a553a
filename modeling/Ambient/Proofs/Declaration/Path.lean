import Ambient.Declaration.Model
import Mathlib.Data.List.Nodup
import Mathlib.Data.List.Perm.Basic

/-!
# Namespaces by path

A change at a path meets the namespace that is listed under it first, and a path that is not listed
yet gets its namespace at the end of the list.

* `Model.paths`;
* **`Model.update_cases`**: all that a change at a path does;
* `Model.get?_update_self`, `Model.get?_update_of_ne`, `Model.paths_update`, `Model.perm_update`,
  `Model.mem_update`: what is found, listed and kept after a change;
* `Model.Each`: a property of every namespace, kept by a change to a namespace that has it.
-/

namespace Ambient.Declaration

/-- The paths of the namespaces in the order they were first seen. -/
def Model.paths (m : Model) : List String := m.namespaces.map Prod.fst

namespace Model

variable {m : Model} {path : String} {ns : Namespace}

theorem updateIn_cons_self (path : String) (f : Namespace → Namespace) (ns : Namespace)
    (rest : List (String × Namespace)) :
    updateIn path f ((path, ns) :: rest) = (path, f ns) :: rest := by
  rw [updateIn, if_pos (beq_self_eq_true path)]

theorem updateIn_cons_of_ne {p : String} (h : p ≠ path) (f : Namespace → Namespace)
    (ns : Namespace) (rest : List (String × Namespace)) :
    updateIn path f ((p, ns) :: rest) = (p, ns) :: updateIn path f rest := by
  rw [updateIn, if_neg (by simpa using h)]

theorem lookup_cons_of_ne {p : String} (h : p ≠ path) (ns : Namespace)
    (rest : List (String × Namespace)) : ((p, ns) :: rest).lookup path = rest.lookup path := by
  rw [List.lookup_cons, beq_eq_false_iff_ne.mpr (Ne.symm h)]

theorem updateIn_cases (path : String) (f : Namespace → Namespace) :
    ∀ l : List (String × Namespace),
      (∃ before ns after, l = before ++ (path, ns) :: after ∧ path ∉ before.map Prod.fst ∧
        l.lookup path = some ns ∧ updateIn path f l = before ++ (path, f ns) :: after) ∨
      (path ∉ l.map Prod.fst ∧ l.lookup path = none ∧
        updateIn path f l = l ++ [(path, f .empty)])
  | [] => Or.inr ⟨by simp, rfl, rfl⟩
  | (p, ns) :: rest => by
    by_cases h : p = path
    · subst h
      exact Or.inl ⟨[], ns, rest, rfl, by simp, List.lookup_cons_self, updateIn_cons_self ..⟩
    · rw [updateIn_cons_of_ne h, lookup_cons_of_ne h]
      rcases updateIn_cases path f rest with ⟨before, ns', after, rfl, hp, hl, hu⟩ | ⟨hp, hl, hu⟩
      · refine Or.inl ⟨(p, ns) :: before, ns', after, rfl, ?_, hl, ?_⟩
        · exact List.not_mem_cons_of_ne_of_not_mem (Ne.symm h) hp
        · rw [hu, List.cons_append]
      · refine Or.inr ⟨?_, hl, ?_⟩
        · exact List.not_mem_cons_of_ne_of_not_mem (Ne.symm h) hp
        · rw [hu, List.cons_append]

/-- **A change at a path** meets the first namespace listed under it, or puts one at the end. -/
theorem update_cases (m : Model) (path : String) (f : Namespace → Namespace) :
    (∃ before ns after, m.namespaces = before ++ (path, ns) :: after ∧
      path ∉ before.map Prod.fst ∧ m.get? path = some ns ∧
      m.update path f = ⟨before ++ (path, f ns) :: after⟩) ∨
    (path ∉ m.paths ∧ m.get? path = none ∧
      m.update path f = ⟨m.namespaces ++ [(path, f .empty)]⟩) := by
  rcases updateIn_cases path f m.namespaces with ⟨before, ns, after, hl, hp, hg, hu⟩ | ⟨hp, hg, hu⟩
  · exact Or.inl ⟨before, ns, after, hl, hp, hg, by rw [update, hu]⟩
  · exact Or.inr ⟨hp, hg, by rw [update, hu]⟩

/-- A namespace that is only created is empty. -/
theorem withNamespace_cases (m : Model) (path : String) :
    m.withNamespace path = m ∨
      path ∉ m.paths ∧ m.withNamespace path = ⟨m.namespaces ++ [(path, .empty)]⟩ := by
  rcases update_cases m path id with ⟨before, ns, after, hl, -, -, hu⟩ | ⟨hp, -, hu⟩
  · refine Or.inl ?_
    rw [withNamespace, hu, id, ← hl]
  · exact Or.inr ⟨hp, hu⟩

/-! ## What is found -/

/-- Where a path is not listed, every pair has another one. -/
theorem bne_of_notMem {l : List (String × Namespace)} (h : path ∉ l.map Prod.fst) :
    ∀ entry ∈ l, (path != entry.1) = true := by
  intro entry hentry
  rw [bne_iff_ne]
  exact fun e => h (List.mem_map.mpr ⟨entry, hentry, e.symm⟩)

theorem mem_of_get? (h : m.get? path = some ns) : (path, ns) ∈ m.namespaces := by
  obtain ⟨before, after, hl, -⟩ := List.lookup_eq_some_iff.mp h
  rw [hl]
  exact List.mem_append_right _ List.mem_cons_self

/-- In a model that lists no path twice, what is listed is what is found. -/
theorem get?_eq_some_iff (hm : m.paths.Nodup) :
    m.get? path = some ns ↔ (path, ns) ∈ m.namespaces := by
  refine ⟨mem_of_get?, fun h => ?_⟩
  obtain ⟨before, after, hl⟩ := List.append_of_mem h
  have hn : path ∉ before.map Prod.fst := by
    intro hb
    rw [paths, hl, List.map_append, List.map_cons] at hm
    exact (List.nodup_append.mp hm).2.2 _ hb _ List.mem_cons_self rfl
  rw [get?, List.lookup_eq_some_iff]
  exact ⟨before, after, hl, bne_of_notMem hn⟩

/-- A class is found in the namespace at a path, which has none if it is not there. -/
theorem findClass?_eq (m : Model) (path name : String) :
    m.findClass? path name = ((m.get? path).getD .empty).findClass? name := by
  rw [findClass?]
  cases m.get? path <;> rfl

/-! ## After a change -/

theorem paths_update (m : Model) (path : String) (f : Namespace → Namespace) :
    (m.update path f).paths = if path ∈ m.paths then m.paths else m.paths ++ [path] := by
  rcases update_cases m path f with ⟨before, ns, after, hl, -, -, hu⟩ | ⟨hp, -, hu⟩
  · rw [if_pos (by simp [paths, hl]), hu]
    simp [paths, hl]
  · rw [if_neg hp, hu]
    simp [paths]

theorem nodup_paths_update (hm : m.paths.Nodup) (path : String) (f : Namespace → Namespace) :
    (m.update path f).paths.Nodup := by
  rw [paths_update]
  split_ifs with h
  · exact hm
  · rw [← List.concat_eq_append]
    exact hm.concat h

theorem get?_update_self (m : Model) (path : String) (f : Namespace → Namespace) :
    (m.update path f).get? path = some (f ((m.get? path).getD .empty)) := by
  rcases update_cases m path f with ⟨before, ns, after, -, hp, hg, hu⟩ | ⟨hp, hg, hu⟩
  · rw [hu, hg]
    exact List.lookup_eq_some_iff.mpr ⟨before, after, rfl, bne_of_notMem hp⟩
  · rw [hu, hg]
    exact List.lookup_eq_some_iff.mpr ⟨m.namespaces, [], rfl, bne_of_notMem hp⟩

theorem lookup_updateIn_of_ne {path other : String} (h : other ≠ path)
    (f : Namespace → Namespace) : ∀ l : List (String × Namespace),
    (updateIn path f l).lookup other = l.lookup other
  | [] => by
    rw [updateIn, List.lookup_cons, beq_eq_false_iff_ne.mpr h]
  | (p, ns) :: rest => by
    by_cases hp : p = path
    · subst hp
      rw [updateIn_cons_self, lookup_cons_of_ne (Ne.symm h), lookup_cons_of_ne (Ne.symm h)]
    · rw [updateIn_cons_of_ne hp, List.lookup_cons, List.lookup_cons,
        lookup_updateIn_of_ne h f rest]

/-- A change at a path leaves what is found at other paths. -/
theorem get?_update_of_ne {other : String} (h : other ≠ path) (m : Model)
    (f : Namespace → Namespace) : (m.update path f).get? other = m.get? other :=
  lookup_updateIn_of_ne h f m.namespaces

/-- A change puts the changed namespace among those at other paths. -/
theorem perm_update (hm : m.paths.Nodup) (path : String) (f : Namespace → Namespace) :
    (m.update path f).namespaces.Perm ((path, f ((m.get? path).getD .empty)) ::
      m.namespaces.filter fun entry => entry.1 != path) := by
  have hkeep : ∀ l : List (String × Namespace), path ∉ l.map Prod.fst →
      l.filter (fun entry => entry.1 != path) = l := by
    intro l hl
    refine List.filter_eq_self.mpr fun entry hentry => ?_
    rw [bne_comm]
    exact bne_of_notMem hl entry hentry
  rcases update_cases m path f with ⟨before, ns, after, hl, hp, hg, hu⟩ | ⟨hp, hg, hu⟩
  · have hafter : path ∉ after.map Prod.fst := by
      rw [paths, hl, List.map_append, List.map_cons] at hm
      exact (List.nodup_cons.mp (List.nodup_append.mp hm).2.1).1
    rw [hu, hg, hl, List.filter_append, List.filter_cons_of_neg (by simp), hkeep _ hp,
      hkeep _ hafter]
    exact List.perm_middle
  · rw [hu, hg, hkeep _ hp]
    exact List.perm_append_singleton _ _

/-- What a namespace is after a change was one before, or is the changed one. -/
theorem mem_update {f : Namespace → Namespace} {entry : String × Namespace}
    (h : entry ∈ (m.update path f).namespaces) :
    entry ∈ m.namespaces ∨ entry = (path, f ((m.get? path).getD .empty)) := by
  rcases update_cases m path f with ⟨before, ns, after, hl, -, hg, hu⟩ | ⟨-, hg, hu⟩
  · rw [hu] at h
    rw [hl, hg]
    simp only [List.mem_append, List.mem_cons] at h ⊢
    rcases h with h | h | h
    · exact Or.inl (Or.inl h)
    · exact Or.inr h
    · exact Or.inl (Or.inr (Or.inr h))
  · rw [hu] at h
    rw [hg]
    simpa using h

/-! ## Properties of every namespace -/

/-- Every namespace has a property. -/
def Each (P : Namespace → Prop) (m : Model) : Prop := ∀ entry ∈ m.namespaces, P entry.2

variable {P : Namespace → Prop}

theorem each_empty : Each P empty := fun _ h => by cases h

/-- The namespace at a path has the property, also one that is yet to be put there. -/
theorem Each.getD (hm : m.Each P) (hempty : P .empty) (path : String) :
    P ((m.get? path).getD .empty) := by
  cases hg : m.get? path with
  | none => exact hempty
  | some ns => exact hm _ (mem_of_get? hg)

theorem Each.update (hm : m.Each P) {f : Namespace → Namespace}
    (hf : P (f ((m.get? path).getD .empty))) : (m.update path f).Each P := by
  intro entry hentry
  rcases mem_update hentry with h | rfl
  · exact hm entry h
  · exact hf

end Model

end Ambient.Declaration
