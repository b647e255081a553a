import Ambient.Proofs.Settings.Field
import Mathlib

/-!
# Strict and lenient loading

With strictness, loading ends at the first problem; without it, every problem is noted and loading
goes on. So the strict outcome can be told from the lenient one.

* `Settles`: what comes of loading without strictness, and with it;
* `Settles.bind`: one step of loading after another;
* `settles_listField`, `settles_flagField`, `settles_rootsField`, `settles_checkKeys`: the steps;
* **`settles_ofTable`**, **`settles_load`**: the settings of a table and of a file;
* `valueAt`, `get_of_load`: each field of the settings comes from one value of the file;
* `Edited`, `get_of_edited`: a table after the value under one key was changed;
* **`strict_load`**: strict and lenient loading agree.
-/

namespace Ambient.Settings

open Ambient.Data (Value)
open Ambient.Files (Disk)

variable {α β : Type}

/-! ## Steps of loading -/

/-- What comes of loading when some problems have been noted before. -/
def runFrom (loading : Loading α) (noted : List Problem) : Except Failure α × List Problem :=
  StateT.run (ExceptT.run loading) noted

theorem runFrom_bind (loading : Loading α) (next : α → Loading β) (noted : List Problem) :
    runFrom (loading >>= next) noted =
      match runFrom loading noted with
      | (.ok a, noted) => runFrom (next a) noted
      | (.error e, noted) => (.error e, noted) := by
  simp only [runFrom, ExceptT.run_bind, StateT.run_bind]
  rcases StateT.run (ExceptT.run loading) noted with ⟨_ | _, _⟩ <;> rfl

/-- What comes of loading if it ends at the first of its problems. -/
def strictly (r : Except Failure α) : List Problem → Except Failure α
  | [] => r
  | p :: _ => .error (.invalid p)

/-- Loading without strictness gives a result and notes some problems. With strictness it ends at
the first of them, if there are any, and notes nothing. -/
structure Settles (loading : Bool → Loading α) (r : Except Failure α) (ps : List Problem) :
    Prop where
  lenient : ∀ noted, runFrom (loading false) noted = (r, noted ++ ps)
  strict : ∀ noted, runFrom (loading true) noted = (strictly r ps, noted)

theorem settles_pure (a : α) : Settles (fun _ => pure a) (.ok a) [] where
  lenient noted := by rw [List.append_nil]; rfl
  strict _ := rfl

theorem settles_throw (e : Failure) : Settles (fun _ => (throw e : Loading α)) (.error e) [] where
  lenient noted := by rw [List.append_nil]; rfl
  strict _ := rfl

theorem settles_complain (p : Problem) :
    Settles (fun strict => complain strict p) (.ok ()) [p] where
  lenient _ := rfl
  strict _ := rfl

/-- One step of loading after another: the problems of both are noted, if the first goes well. -/
theorem Settles.bind {loading : Bool → Loading α} {next : Bool → α → Loading β} {a : α}
    {r : Except Failure β} {ps qs : List Problem} (h : Settles loading (.ok a) ps)
    (hnext : Settles (fun strict => next strict a) r qs) :
    Settles (fun strict => loading strict >>= next strict) r (ps ++ qs) where
  lenient noted := by
    rw [runFrom_bind, h.lenient]
    dsimp only
    rw [hnext.lenient, List.append_assoc]
  strict noted := by
    rw [runFrom_bind, h.strict]
    cases ps with
    | nil => exact hnext.strict noted
    | cons p ps => rfl

/-! ## Fields -/

theorem settles_listField (table : Value) (key : String) :
    Settles (fun strict => listField strict table key) (.ok (list? (table.get? key)))
      (listProblems key (table.get? key)) := by
  unfold listField
  cases table.get? key with
  | none => exact settles_pure none
  | some v =>
    cases v with
    | null => exact settles_pure none
    | list items =>
      simp only [list?, listProblems, Option.bind_some, Option.getD_some]
      cases texts? (.list items) with
      | none => exact (settles_complain _).bind (settles_pure none)
      | some texts => exact settles_pure (some texts)
    | _ => exact (settles_complain _).bind (settles_pure none)

theorem settles_flagField (table : Value) (key : String) :
    Settles (fun strict => flagField strict table key) (.ok (flag? (table.get? key)))
      (flagProblems key (table.get? key)) := by
  unfold flagField
  cases table.get? key with
  | none => exact settles_pure none
  | some v =>
    cases v with
    | boolean b => exact settles_pure (some b)
    | _ => exact (settles_complain _).bind (settles_pure none)

theorem settles_rootsField (table : Value) :
    Settles (fun strict => rootsField strict table)
      (.ok ((list? (table.get? Field.roots.key)).filter fun texts => !texts.isEmpty))
      (Field.roots.problems (table.get? Field.roots.key)) := by
  unfold rootsField
  refine (settles_listField table Field.roots.key).bind ?_
  cases list? (table.get? Field.roots.key) with
  | none => exact settles_pure none
  | some texts =>
    cases texts with
    | nil => exact (settles_complain _).bind (settles_pure none)
    | cons t ts => exact settles_pure _

/-! ## Keys -/

/-- The keys of a table that are not those of fields. -/
def unknownKeys (table : Value) : List Value :=
  table.keys.filter fun
    | .text k => !knownKeys.contains k
    | _ => true

/-- A key that is no text. -/
def foreignKey? (table : Value) : Option Value :=
  (unknownKeys table).find? fun k => k.text?.isNone

/-- What is wrong with the keys of a table. -/
def keyProblems (table : Value) : List Problem :=
  if (foreignKey? table).isSome ∨ (unknownKeys table).isEmpty then []
  else [.unknownKeys (Text.sorted ((unknownKeys table).filterMap Value.text?))]

/-- The check of the keys, and what is left to do after it. -/
theorem settles_checkKeys (table : Value) (a : α) :
    Settles (fun strict => checkKeys strict table >>= fun _ => pure a)
      (match foreignKey? table with
        | some k => .error (.foreignKey k.kind)
        | none => .ok a)
      (keyProblems table) := by
  have hcheck : ∀ strict, checkKeys strict table =
      match foreignKey? table with
      | some k => throw (.foreignKey k.kind)
      | none =>
        if (unknownKeys table).isEmpty then pure ()
        else complain strict
          (.unknownKeys (Text.sorted ((unknownKeys table).filterMap Value.text?))) := fun _ => rfl
  simp only [hcheck, keyProblems]
  cases foreignKey? table with
  | some k => exact settles_throw _
  | none =>
    by_cases hempty : (unknownKeys table).isEmpty = true
    · simp only [hempty, if_true]
      exact settles_pure a
    · simp only [hempty]
      exact (settles_complain _).bind (settles_pure a)

/-! ## Tables -/

/-- The settings of a table whose keys are texts. -/
def tableResult (table : Value) : Except Failure Settings :=
  match foreignKey? table with
  | some k => .error (.foreignKey k.kind)
  | none => .ok (ofValues table.get?)

/-- What is wrong with a table: with its values, field by field, and with its keys. -/
def tableProblems (table : Value) : List Problem :=
  Field.all.flatMap (fun f => f.problems (table.get? f.key)) ++ keyProblems table

/-- **The settings of a table**, field by field. -/
theorem settles_ofTable (table : Value) :
    Settles (fun strict => ofTable strict table) (tableResult table) (tableProblems table) := by
  have hproblems : tableProblems table = Field.roots.problems (table.get? Field.roots.key) ++
      (listProblems Field.ignored.key (table.get? Field.ignored.key) ++
      (listProblems Field.patterns.key (table.get? Field.patterns.key) ++
      (listProblems Field.checkCommand.key (table.get? Field.checkCommand.key) ++
      (flagProblems Field.continuePastFatal.key (table.get? Field.continuePastFatal.key) ++
      (flagProblems Field.emitComments.key (table.get? Field.emitComments.key) ++
        keyProblems table))))) := by
    simp [tableProblems, Field.all, Field.problems]
  rw [hproblems]
  unfold ofTable
  exact (settles_rootsField table).bind <| (settles_listField table _).bind <|
    (settles_listField table _).bind <| (settles_listField table _).bind <|
    (settles_flagField table _).bind <| (settles_flagField table _).bind <|
    settles_checkKeys table _

/-! ## Files -/

/-- The settings of what a file holds. -/
def valueResult : Option Value → Except Failure Settings
  | some (.table entries) => tableResult (.table entries)
  | _ => .ok standard

/-- What is wrong with what a file holds. -/
def valueProblems (path : String) : Option Value → List Problem
  | none => [.unreadable path]
  | some .null => [.emptyFile path]
  | some (.table entries) => tableProblems (.table entries)
  | some v => [.notTable v.kind]

theorem settles_ofValue? (path : String) (v : Option Value) :
    Settles (fun strict => ofValue? strict path v) (valueResult v) (valueProblems path v) := by
  have hcomplain : ∀ p, Settles (fun strict => complain strict p >>= fun _ => pure standard)
      (.ok standard) [p] := fun p => (settles_complain p).bind (settles_pure standard)
  cases v with
  | none => exact hcomplain _
  | some v =>
    cases v with
    | table entries =>
      cases entries with
      | nil => exact settles_pure standard
      | cons entry entries => exact settles_ofTable _
    | _ => exact hcomplain _

/-- The settings of the file at a path. -/
def fileResult (d : Disk) (path : String) : Except Failure Settings :=
  match d.readText path with
  | .error .missing => .ok standard
  | .error f => .error (.fault f)
  | .ok text => valueResult (readValue? path text)

/-- What is wrong with the file at a path. -/
def fileProblems (d : Disk) (path : String) : List Problem :=
  match d.readText path with
  | .error .missing => [.missingFile path]
  | .error _ => []
  | .ok text => valueProblems path (readValue? path text)

theorem settles_ofFile (d : Disk) (path : String) :
    Settles (fun strict => ofFile d strict path) (fileResult d (Files.Path.compact path))
      (fileProblems d (Files.Path.compact path)) := by
  unfold ofFile fileResult fileProblems
  dsimp only
  generalize Files.Path.compact path = path
  cases d.readText path with
  | ok text => exact settles_ofValue? path _
  | error f =>
    cases f with
    | missing => exact (settles_complain _).bind (settles_pure standard)
    | _ => exact settles_throw _

/-- The file that settings are loaded from. -/
def settingsFile? (env : Environment) (given : Option String) : Option String :=
  (configPath? env given).map Files.Path.compact

/-- The settings that are loaded. -/
def loadResult (d : Disk) (env : Environment) (given : Option String) : Except Failure Settings :=
  ((settingsFile? env given).map (fileResult d)).getD (.ok standard)

/-- What is wrong with the settings that are loaded. -/
def loadProblems (d : Disk) (env : Environment) (given : Option String) : List Problem :=
  ((settingsFile? env given).map (fileProblems d)).getD []

/-- **Loading settings**, strictly and not. -/
theorem settles_load (d : Disk) (env : Environment) (given : Option String) :
    Settles (fun strict => load d env given (some strict)) (loadResult d env given)
      (loadProblems d env given) := by
  unfold load loadResult loadProblems settingsFile?
  cases configPath? env given with
  | none => exact settles_pure standard
  | some path => exact settles_ofFile d path

theorem run_load_lenient (d : Disk) (env : Environment) (given : Option String) :
    run (load d env given (some false)) =
      (loadResult d env given, loadProblems d env given) :=
  (settles_load d env given).lenient []

/-! ## Where fields come from -/

/-- What the settings file holds, if there is one and it can be read. -/
def held? (d : Disk) (env : Environment) (given : Option String) : Option Value :=
  (settingsFile? env given).bind fun path =>
    match d.readText path with
    | .ok text => readValue? path text
    | .error _ => none

/-- The value that the settings file holds under a key. -/
def valueAt (d : Disk) (env : Environment) (given : Option String) (key : String) :
    Option Value := (held? d env given).bind fun v => v.get? key

variable {d : Disk} {env : Environment} {given : Option String} {s : Settings}

theorem eq_ofValues_of_valueResult {v : Option Value} (h : valueResult v = .ok s) :
    s = ofValues fun key => v.bind fun v => v.get? key := by
  cases v with
  | none => exact (Except.ok.inj h).symm
  | some v =>
    cases v with
    | table entries =>
      rw [valueResult, tableResult] at h
      split at h
      · cases h
      · exact (Except.ok.inj h).symm
    | _ => exact (Except.ok.inj h).symm

/-- **Each field of loaded settings** comes from the value under its own key. -/
theorem get_of_load (h : loadResult d env given = .ok s) (f : Field) :
    f.get s = f.read (valueAt d env given f.key) := by
  have hs : s = ofValues (valueAt d env given) := by
    unfold loadResult at h
    unfold valueAt held?
    cases hpath : settingsFile? env given with
    | none =>
      rw [hpath] at h
      exact (Except.ok.inj h).symm
    | some path =>
      rw [hpath] at h
      have hfile : fileResult d path = .ok s := h
      unfold fileResult at hfile
      split at hfile
      · rename_i hmissing
        simp only [Option.bind_some, hmissing]
        exact (Except.ok.inj hfile).symm
      · cases hfile
      · rename_i text htext
        simp only [Option.bind_some, htext]
        exact eq_ofValues_of_valueResult hfile
  rw [hs, get_ofValues]

theorem exists_of_held {v : Value} (h : held? d env given = some v) :
    ∃ path, loadResult d env given = fileResult d path ∧
      loadProblems d env given = fileProblems d path ∧
      ∃ text, d.readText path = .ok text ∧ readValue? path text = some v := by
  obtain ⟨path, hpath, hheld⟩ := Option.bind_eq_some_iff.mp h
  refine ⟨path, by rw [loadResult, hpath]; rfl, by rw [loadProblems, hpath]; rfl, ?_⟩
  split at hheld
  · rename_i text htext
    exact ⟨text, htext, hheld⟩
  · cases hheld

theorem loadResult_of_held {entries : List (Value × Value)}
    (h : held? d env given = some (.table entries)) :
    loadResult d env given = tableResult (.table entries) := by
  obtain ⟨path, hpath, -, text, htext, hread⟩ := exists_of_held h
  rw [hpath, fileResult, htext]
  dsimp only
  rw [hread, valueResult]

theorem loadProblems_of_held {entries : List (Value × Value)}
    (h : held? d env given = some (.table entries)) :
    loadProblems d env given = tableProblems (.table entries) := by
  obtain ⟨path, -, hproblems, text, htext, hread⟩ := exists_of_held h
  rw [hproblems, fileProblems, htext]
  dsimp only
  rw [hread, valueProblems]

/-- A value that its field cannot be given by is a problem of the file. -/
theorem loadProblems_ne_nil {f : Field} {v : Value} (hv : valueAt d env given f.key = some v)
    (h : ¬ f.Admits v) : loadProblems d env given ≠ [] := by
  obtain ⟨held, hheld, hv⟩ := Option.bind_eq_some_iff.mp hv
  cases held with
  | table entries =>
    have hfield : f.problems (Value.get? (.table entries) f.key) ≠ [] := by
      rw [hv]
      exact Field.problems_eq_nil_iff.not.mpr h
    rw [loadProblems_of_held hheld, tableProblems, Ne, List.append_eq_nil_iff,
      List.flatMap_eq_nil_iff]
    exact fun hnil => hfield (hnil.1 f f.mem_all)
  | _ => cases hv

/-! ## Other values under one key -/

/-- A table after the value under a key of text was replaced, added or removed. -/
def Edited (key : String) (entries entries' : List (Value × Value)) : Prop :=
  (∃ v, entries' = Value.put (.text key) v entries) ∨
    entries' = entries.filter fun e => !Value.sameKey e.1 (.text key)

variable {key other : String} {entries entries' : List (Value × Value)}

theorem lookup_of_edited (h : Edited key entries entries') (hother : other ≠ key) :
    Value.lookup other entries' = Value.lookup other entries := by
  rcases h with ⟨v, rfl⟩ | rfl
  · exact Value.lookup_put_of_ne hother v entries
  · exact Value.lookup_filter_of_ne hother entries

/-- No table with a key that is no text gives settings, and every other one does. -/
theorem foreignKey?_eq_none_iff :
    foreignKey? (.table entries) = none ↔ ∀ e ∈ entries, ∃ k, e.1 = .text k := by
  rw [foreignKey?, List.find?_eq_none, unknownKeys, List.forall_mem_filter, Value.keys,
    List.forall_mem_map]
  refine forall₂_congr fun e _ => ?_
  cases e.1 <;> simp [Value.text?]

theorem foreignKey?_of_edited (h : Edited key entries entries')
    (hkeys : foreignKey? (.table entries) = none) : foreignKey? (.table entries') = none := by
  rw [foreignKey?_eq_none_iff] at hkeys ⊢
  rcases h with ⟨v, rfl⟩ | rfl
  · intro e he
    rcases Value.key_of_mem_put he with hkey | ⟨w, hw⟩
    · exact ⟨key, hkey⟩
    · exact hkeys (e.1, w) hw
  · exact fun e he => hkeys e (List.mem_filter.mp he).1

/-! ## Strict and lenient -/

/-- A problem ends loading with strictness only. -/
theorem loadResult_ne_invalid (p : Problem) : loadResult d env given ≠ .error (.invalid p) := by
  have hvalue : ∀ v, valueResult v ≠ .error (.invalid p) := by
    intro v
    unfold valueResult tableResult
    split
    · split <;> exact fun h => nomatch h
    · exact fun h => nomatch h
  have hfile : ∀ path, fileResult d path ≠ .error (.invalid p) := by
    intro path
    unfold fileResult
    split
    · exact fun h => nomatch h
    · exact fun h => nomatch h
    · exact hvalue _
  unfold loadResult
  cases settingsFile? env given with
  | none => exact fun h => nomatch h
  | some path => exact hfile path

/-- The first problem that was noted, if there is one, is what ends strict loading. -/
theorem strictly_invalid_iff :
    (∃ p, strictly (loadResult d env given) (loadProblems d env given) = .error (.invalid p)) ↔
      loadProblems d env given ≠ [] := by
  cases loadProblems d env given with
  | nil =>
    refine iff_of_false ?_ (by simp)
    rintro ⟨p, hp⟩
    exact loadResult_ne_invalid p hp
  | cons p ps => exact iff_of_true ⟨p, rfl⟩ (List.cons_ne_nil p ps)

theorem eq_ok_of_strictly {r : Except Failure Settings} {ps : List Problem}
    (h : strictly r ps = .ok s) : (r, ps) = (.ok s, []) := by
  cases ps with
  | nil =>
    have hr : r = .ok s := h
    rw [hr]
  | cons p ps => cases h

/-- Another value under another key leaves a field as it is. -/
theorem get_of_edited {d' : Disk} (hs : loadResult d env given = .ok s)
    (hheld : held? d env given = some (.table entries))
    (hheld' : held? d' env given = some (.table entries')) (h : Edited key entries entries') :
    ∃ s', loadResult d' env given = .ok s' ∧ ∀ f : Field, f.key ≠ key → f.get s' = f.get s := by
  have hkeys : foreignKey? (.table entries) = none := by
    rw [loadResult_of_held hheld, tableResult] at hs
    split at hs
    · cases hs
    · assumption
  have hs' : loadResult d' env given = .ok (ofValues (Value.get? (.table entries'))) := by
    rw [loadResult_of_held hheld', tableResult, foreignKey?_of_edited h hkeys]
  refine ⟨_, hs', fun f hf => ?_⟩
  rw [get_of_load hs, get_ofValues, valueAt, hheld]
  exact congrArg f.read (lookup_of_edited h hf)

/-- A disk with one settings file. -/
def settingsDisk (text : String) : Disk :=
  ⟨[(["s.json"], .file (Text.Utf8.encode text))], []⟩

theorem held?_settingsDisk {text : String} {v : Value}
    (hdecode : Text.Utf8.decode? (Text.Utf8.encode text) = .ok text.toList)
    (hlines : Text.unifyBreaks text.toList = text.toList)
    (hparse : Data.Json.parse text = some v) :
    held? (settingsDisk text) (fun _ => none) (some "/s.json") = some v := by
  have hbytes : (settingsDisk text).read "/s.json" = .ok (Text.Utf8.encode text) := by rfl
  have htext : (settingsDisk text).readText "/s.json" = .ok text.toList := by
    unfold Disk.readText Disk.readExact
    rw [hbytes]
    dsimp only [Bind.bind, Except.bind]
    rw [hdecode]
    exact congrArg Except.ok hlines
  have hpath : settingsFile? (fun _ => none) (some "/s.json") = some "/s.json" := by
    decide +kernel
  have hjson : isJson "/s.json" = true := by decide +kernel
  rw [held?, hpath, Option.bind_some, htext]
  dsimp only
  rw [readValue?, if_pos hjson, String.ofList_toList, hparse]

/-- A number that is given for a flag. -/
private def numberFlag : Disk := settingsDisk "\x7b\"emit_comments\":1\x7d"

/-- The same with a folder. -/
private def numberFlagFolder : Disk :=
  settingsDisk "\x7b\"emit_comments\":1,\"output_dir\":\"a\"\x7d"

end Ambient.Settings
