import Ambient.Proofs.Data.Table
import Ambient.Settings.Load

/-!
# The fields of settings

Each field of settings is given under a key of its own. What a field comes to, and what is wrong
with it, depends on the value under this key alone.

* `Field`, `Field.key`, `Field.get`: the fields, and the key that each is given under;
* `Field.read`, `Field.problems`: the field that a value gives, and what is wrong with the value;
* `Field.Admits`, **`Field.problems_eq_nil_iff`**: the values that nothing is wrong with;
* **`Field.read_of_problems`**: a value with a problem gives the standard field;
* `ofValues`, `get_ofValues`: settings from the values under the keys.
-/

namespace Ambient.Settings

open Ambient.Data (Value)

/-- The fields of settings. -/
inductive Field
  | roots
  | ignored
  | patterns
  | checkCommand
  | continuePastFatal
  | emitComments
  | outputFolder
  | combinedOutput
  deriving DecidableEq, Repr

/-! ## What values give -/

/-- The texts that a value gives; null gives none. -/
def list? (v : Option Value) : Option (List String) := v.bind texts?

/-- The flag that a value gives. -/
def flag? : Option Value → Option Bool
  | some (.boolean b) => some b
  | _ => none

/-- The text that a value gives; one that holds nothing gives none. -/
def text? (v : Option Value) : Option String :=
  (v.filter fun v => !v.isEmpty).map fun v => Text.strip v.spelling

/-- What is wrong with a value that is to be a list of texts. -/
def listProblems (key : String) : Option Value → List Problem
  | none | some .null => []
  | some v => if (texts? v).isNone then [.badList key] else []

/-- What is wrong with a value that is to be a flag. -/
def flagProblems (key : String) : Option Value → List Problem
  | none | some (.boolean _) => []
  | some _ => [.badFlag key]

namespace Field

/-- The key that a field is given under. -/
def key : Field → String
  | roots => "root_namespaces"
  | ignored => "ignored_names"
  | patterns => "exclude_patterns"
  | checkCommand => "tsc_command"
  | continuePastFatal => "continue_past_fatal"
  | emitComments => "emit_comments"
  | outputFolder => "output_dir"
  | combinedOutput => "combined_output"

/-- What a field holds. -/
abbrev Content : Field → Type
  | roots | ignored | patterns | checkCommand => List String
  | continuePastFatal | emitComments => Bool
  | outputFolder => String
  | combinedOutput => Option String

/-- What some settings hold in a field. -/
def get : (f : Field) → Settings → f.Content
  | roots, s => s.filter.roots
  | ignored, s => s.filter.ignored
  | patterns, s => s.excludePatterns
  | checkCommand, s => s.checkCommand
  | continuePastFatal, s => s.continuePastFatal
  | emitComments, s => s.emitComments
  | outputFolder, s => s.outputFolder
  | combinedOutput, s => s.combinedOutput

/-- The field that the value under its key gives. -/
def read : (f : Field) → Option Value → f.Content
  | roots, v => ((list? v).filter fun texts => !texts.isEmpty).getD standard.filter.roots
  | ignored, v => (list? v).getD standard.filter.ignored
  | patterns, v => (list? v).getD standard.excludePatterns
  | checkCommand, v =>
    ((list? v).filter fun texts => !texts.isEmpty).getD standard.checkCommand
  | continuePastFatal, v => (flag? v).getD standard.continuePastFatal
  | emitComments, v => (flag? v).getD standard.emitComments
  | outputFolder, v => (text? v).getD standard.outputFolder
  | combinedOutput, v => (text? v).or standard.combinedOutput

/-- What is wrong with the value under the key of a field. -/
def problems : Field → Option Value → List Problem
  | roots, v => listProblems roots.key v ++ if list? v = some [] then [.noRoots] else []
  | ignored, v => listProblems ignored.key v
  | patterns, v => listProblems patterns.key v
  | checkCommand, v => listProblems checkCommand.key v
  | continuePastFatal, v => flagProblems continuePastFatal.key v
  | emitComments, v => flagProblems emitComments.key v
  | outputFolder, _ | combinedOutput, _ => []

/-- The fields in the order in which they are looked at. -/
def all : List Field :=
  [roots, ignored, patterns, checkCommand, continuePastFatal, emitComments, outputFolder,
    combinedOutput]

theorem mem_all (f : Field) : f ∈ all := by cases f <;> decide

end Field

/-! ## Values that nothing is wrong with -/

/-- A list of texts, none of them blank. -/
def IsTexts (v : Value) : Prop :=
  ∃ items, v = .list items ∧ ∀ item ∈ items, ∃ s, item = .text s ∧ Text.strip s ≠ ""

theorem isSome_mapM {α β : Type} {f : α → Option β} : ∀ {xs : List α},
    (xs.mapM f).isSome = true ↔ ∀ x ∈ xs, (f x).isSome = true
  | [] => by simp
  | x :: xs => by
    rw [List.mapM_cons, List.forall_mem_cons, ← isSome_mapM]
    cases f x <;> cases xs.mapM f <;> simp

theorem isSome_texts?_iff {v : Value} : (texts? v).isSome = true ↔ IsTexts v := by
  cases v with
  | list items =>
    rw [texts?, isSome_mapM]
    constructor
    · intro h
      refine ⟨items, rfl, fun item hitem => ?_⟩
      have hsome := h item hitem
      split at hsome
      · rename_i s
        refine ⟨s, rfl, fun hblank => ?_⟩
        rw [hblank] at hsome
        cases hsome
      · cases hsome
    · rintro ⟨items, hitems, h⟩ item hitem
      obtain rfl := Value.list.inj hitems
      obtain ⟨s, rfl, hs⟩ := h item hitem
      dsimp only
      rw [if_neg (by simpa using hs)]
      rfl
  | _ => exact iff_of_false Bool.noConfusion fun ⟨_, h, _⟩ => nomatch h

theorem texts?_eq_nil_iff {v : Value} : texts? v = some [] ↔ v = .list [] := by
  cases v with
  | list items =>
    cases items with
    | nil => exact iff_of_true rfl rfl
    | cons item items =>
      refine iff_of_false (fun h => ?_) (by simp)
      rw [texts?, List.mapM_cons] at h
      obtain ⟨t, -, h⟩ := Option.bind_eq_some_iff.mp h
      obtain ⟨ts, -, h⟩ := Option.bind_eq_some_iff.mp h
      cases h
  | _ => exact iff_of_false (fun h => nomatch h) fun h => nomatch h

namespace Field

/-- The values that a field can be given by. Null is not looked at where a list is asked for. -/
def Admits : Field → Value → Prop
  | roots, v => v = .null ∨ IsTexts v ∧ v ≠ .list []
  | ignored, v | patterns, v | checkCommand, v => v = .null ∨ IsTexts v
  | continuePastFatal, v | emitComments, v => ∃ b, v = .boolean b
  | outputFolder, _ | combinedOutput, _ => True

end Field

theorem listProblems_eq_nil_iff {key : String} {v : Value} :
    listProblems key (some v) = [] ↔ v = .null ∨ IsTexts v := by
  rw [← isSome_texts?_iff]
  cases v with
  | null => exact iff_of_true rfl (Or.inl rfl)
  | list items =>
    rw [listProblems]
    · cases texts? (.list items) <;> simp
    · exact fun h => nomatch h
  | _ => exact iff_of_false (List.cons_ne_nil _ _) (by simp [texts?])

/-- Nothing is wrong with a value that gives texts. -/
theorem listProblems_of_list? {key : String} {v : Option Value} {texts : List String}
    (h : list? v = some texts) : listProblems key v = [] := by
  cases v with
  | none => rfl
  | some v =>
    have hsome : (texts? v).isSome = true := Option.isSome_iff_exists.mpr ⟨texts, h⟩
    exact listProblems_eq_nil_iff.mpr (Or.inr (isSome_texts?_iff.mp hsome))

theorem flagProblems_eq_nil_iff {key : String} {v : Value} :
    flagProblems key (some v) = [] ↔ ∃ b, v = .boolean b := by
  cases v with
  | boolean b => exact iff_of_true rfl ⟨b, rfl⟩
  | _ => exact iff_of_false (List.cons_ne_nil _ _) fun ⟨_, h⟩ => nomatch h

namespace Field

/-- **Nothing is wrong** with the values that the field can be given by. -/
theorem problems_eq_nil_iff {f : Field} {v : Value} : f.problems (some v) = [] ↔ f.Admits v := by
  cases f with
  | roots =>
    have hempty : (if list? (some v) = some [] then [Problem.noRoots] else []) = [] ↔
        v ≠ .list [] := by
      have hlist : list? (some v) = some [] ↔ v = .list [] := texts?_eq_nil_iff
      simp [hlist]
    rw [problems, List.append_eq_nil_iff, listProblems_eq_nil_iff, hempty, Admits]
    constructor
    · rintro ⟨rfl | hv, hne⟩
      · exact Or.inl rfl
      · exact Or.inr ⟨hv, hne⟩
    · rintro (rfl | ⟨hv, hne⟩)
      · exact ⟨Or.inl rfl, by simp⟩
      · exact ⟨Or.inr hv, hne⟩
  | ignored | patterns | checkCommand => exact listProblems_eq_nil_iff
  | continuePastFatal | emitComments => exact flagProblems_eq_nil_iff
  | outputFolder | combinedOutput => exact iff_of_true rfl trivial

/-- **A value with a problem** gives the standard field. -/
theorem read_of_problems {f : Field} {v : Option Value} (h : f.problems v ≠ []) :
    f.read v = f.get standard := by
  have hlist : ∀ {key : String}, listProblems key v ≠ [] → list? v = none := fun hne =>
    Option.eq_none_iff_forall_ne_some.mpr fun _ hsome => hne (listProblems_of_list? hsome)
  have hflag : ∀ {key : String}, flagProblems key v ≠ [] → flag? v = none := by
    intro key hne
    unfold flag?
    split
    · exact absurd rfl hne
    · rfl
  cases f with
  | roots =>
    cases htexts : list? v with
    | none => rw [read, htexts]; rfl
    | some texts =>
      rw [problems, listProblems_of_list? htexts, htexts] at h
      cases texts with
      | nil => rw [read, htexts]; rfl
      | cons t ts => simp at h
  | ignored | patterns | checkCommand => rw [read, hlist h]; rfl
  | continuePastFatal | emitComments => rw [read, hflag h]; rfl
  | outputFolder | combinedOutput => exact absurd rfl h

end Field

/-- The settings that the values under their keys give. -/
def ofValues (value : String → Option Value) : Settings where
  filter := ⟨Field.roots.read (value "root_namespaces"), Field.ignored.read (value "ignored_names")⟩
  excludePatterns := Field.patterns.read (value "exclude_patterns")
  continuePastFatal := Field.continuePastFatal.read (value "continue_past_fatal")
  emitComments := Field.emitComments.read (value "emit_comments")
  outputFolder := Field.outputFolder.read (value "output_dir")
  combinedOutput := Field.combinedOutput.read (value "combined_output")
  checkCommand := Field.checkCommand.read (value "tsc_command")

/-- Each field depends on the value under its own key alone. -/
theorem get_ofValues (f : Field) (value : String → Option Value) :
    f.get (ofValues value) = f.read (value f.key) := by
  cases f <;> rfl

end Ambient.Settings
