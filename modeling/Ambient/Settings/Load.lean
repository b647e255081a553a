import Ambient.Data.Json
import Ambient.Data.Yaml.Reader
import Ambient.Files.Disk
import Ambient.Settings.Basic
import Ambient.Text.Blank
import Ambient.Text.Order

/-!
# Loading settings

Settings come from a file that is named outright or by the environment. It is read as JSON if its
extension says so, else as YAML. A problem either ends loading or, without strictness, is noted,
and the default stands for what is wrong.

* `Environment`, `configPath?`, `isStrict`;
* `Loading`, `complain`;
* `ofTable`: the settings of a table; `load`: the settings of a file.
-/

namespace Ambient.Settings

open Ambient.Data (Value)
open Ambient.Files (Disk Fault)

/-! ## The environment -/

/-- The variables that are set, by name. -/
abbrev Environment := String → Option String

/-- The variable that names a settings file. -/
def pathVariable : String := "CLOSURE_DTS_CONFIG"

/-- The variable that asks for strictness. -/
def strictVariable : String := "STRICT_CONFIG_VALIDATION"

/-- A text unless it is empty. -/
def nonEmpty? (text : Option String) : Option String := text.filter fun t => !t.isEmpty

/-- The settings file to read: the given one, else the one the environment names. -/
def configPath? (env : Environment) (given : Option String) : Option String :=
  (nonEmpty? given).or (nonEmpty? (env pathVariable))

/-- Whether the environment asks for strictness. -/
def isStrict (env : Environment) (default : Bool) : Bool :=
  match env strictVariable with
  | none => default
  | some raw => ["1", "true", "yes", "on"].contains (Text.strip raw).toLower

/-! ## Problems -/

/-- Why there are no settings. -/
inductive Failure
  | invalid (p : Problem)
  /-- An unknown key is no text, but of another kind. -/
  | foreignKey (kind : String)
  | fault (f : Fault)
  deriving DecidableEq, Repr

/-- The wording of a failure. -/
def Failure.message : Failure → String
  | .invalid p => p.message
  | .foreignKey kind => "sequence item 0: expected str instance, " ++ kind ++ " found"
  | .fault f => f.message

/-- Loading notes the problems that it passes over, also when it fails in the end. -/
abbrev Loading := ExceptT Failure (StateM (List Problem))

/-- Ends loading with a problem if strictness is asked for, else notes it. -/
def complain (strict : Bool) (p : Problem) : Loading Unit :=
  if strict then throw (.invalid p) else modify (· ++ [p])

/-! ## Fields -/

/-- The trimmed texts of a list, if it holds nothing else and none is blank. -/
def texts? : Value → Option (List String)
  | .list items => items.mapM fun
    | .text s => if (Text.strip s).isEmpty then none else some (Text.strip s)
    | _ => none
  | _ => none

/-- A field that is to be a list of texts. One that is missing or null is not looked at. -/
def listField (strict : Bool) (table : Value) (key : String) : Loading (Option (List String)) := do
  match (table.get? key).getD .null with
  | .null => pure none
  | v =>
    match texts? v with
    | some texts => pure (some texts)
    | none => do
      complain strict (.badList key)
      pure none

/-- A field that is to be true or false. -/
def flagField (strict : Bool) (table : Value) (key : String) : Loading (Option Bool) := do
  match table.get? key with
  | none => pure none
  | some (.boolean b) => pure (some b)
  | some _ => do
    complain strict (.badFlag key)
    pure none

/-- A field that is a text in any case; a value that holds nothing counts as none. -/
def textField (table : Value) (key : String) : Option String :=
  ((table.get? key).filter fun v => !v.isEmpty).map fun v => Text.strip v.spelling

/-- The keys of settings. -/
def knownKeys : List String :=
  ["root_namespaces", "ignored_names", "exclude_patterns", "continue_past_fatal", "emit_comments",
    "output_dir", "combined_output", "tsc_command"]

/-- The root namespaces of a table; an empty list is a problem. -/
def rootsField (strict : Bool) (table : Value) : Loading (Option (List String)) := do
  match ← listField strict table "root_namespaces" with
  | some [] => do
    complain strict .noRoots
    pure none
  | roots => pure roots

/-- Complains about keys that are not known. -/
def checkKeys (strict : Bool) (table : Value) : Loading Unit := do
  let unknown := table.keys.filter fun
    | .text k => !knownKeys.contains k
    | _ => true
  match unknown.find? fun k => k.text?.isNone with
  | some k => throw (.foreignKey k.kind)
  | none =>
    if unknown.isEmpty then pure ()
    else complain strict (.unknownKeys (Text.sorted (unknown.filterMap Value.text?)))

/-- The settings of a table. -/
def ofTable (strict : Bool) (table : Value) : Loading Settings := do
  let roots ← rootsField strict table
  let ignored ← listField strict table "ignored_names"
  let patterns ← listField strict table "exclude_patterns"
  let command ← listField strict table "tsc_command"
  let continuePastFatal ← flagField strict table "continue_past_fatal"
  let emitComments ← flagField strict table "emit_comments"
  checkKeys strict table
  pure {
    filter := ⟨roots.getD standard.filter.roots, ignored.getD standard.filter.ignored⟩
    excludePatterns := patterns.getD standard.excludePatterns
    continuePastFatal := continuePastFatal.getD standard.continuePastFatal
    emitComments := emitComments.getD standard.emitComments
    outputFolder := (textField table "output_dir").getD standard.outputFolder
    combinedOutput := (textField table "combined_output").or standard.combinedOutput
    checkCommand := (command.filter fun c => !c.isEmpty).getD standard.checkCommand }

/-! ## Files -/

/-- Whether a settings file is read as JSON. -/
def isJson (path : String) : Bool := (Files.Path.suffix path).toLower = ".json"

/-- The value that a settings file holds. -/
def readValue? (path : String) (text : List Char) : Option Value :=
  if isJson path then Data.Json.parse (String.ofList text) else Data.Yaml.parse text

/-- The settings of what a file at a path holds. -/
def ofValue? (strict : Bool) (path : String) : Option Value → Loading Settings
  | none => do
    complain strict (.unreadable path)
    pure standard
  | some .null => do
    complain strict (.emptyFile path)
    pure standard
  | some (.table []) => pure standard
  | some (.table entries) => ofTable strict (.table entries)
  | some v => do
    complain strict (.notTable v.kind)
    pure standard

/-- The settings of a file. -/
def ofFile (d : Disk) (strict : Bool) (path : String) : Loading Settings := do
  let path := Files.Path.compact path
  match d.readText path with
  | .error .missing => do
    complain strict (.missingFile path)
    pure standard
  | .error f => throw (.fault f)
  | .ok text => ofValue? strict path (readValue? path text)

/-- The settings to use. Strictness that is not given is taken from the environment. -/
def load (d : Disk) (env : Environment) (given : Option String) (strict : Option Bool) :
    Loading Settings :=
  match configPath? env given with
  | none => pure standard
  | some path => ofFile d (strict.getD (isStrict env false)) path

/-- What loading gives, with the problems that were passed over. -/
def run (loading : Loading Settings) : Except Failure Settings × List Problem :=
  StateT.run (ExceptT.run loading) []

end Ambient.Settings
