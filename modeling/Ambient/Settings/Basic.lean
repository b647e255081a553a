import Ambient.Name.Filter

/-!
# Settings

* `Settings`: what a run may be told, with `Settings.standard`;
* `Problem`: what may be wrong with a settings file, in words.
-/

namespace Ambient

/-- What a run is told. -/
structure Settings where
  /-- The names that are declared. -/
  filter : Name.Filter
  /-- The shell patterns of files that are left out. -/
  excludePatterns : List String
  /-- Whether declarations that cannot be written are passed over. -/
  continuePastFatal : Bool
  /-- Whether comments are printed again. -/
  emitComments : Bool
  /-- The folder that declarations are written to. -/
  outputFolder : String
  /-- The file that all declarations are collected in. -/
  combinedOutput : Option String
  /-- The command that checks the collected declarations. -/
  checkCommand : List String
  deriving DecidableEq, Repr

namespace Settings

/-- The patterns of files that are left out unless others are given. -/
def standardPatterns : List String :=
  ["*_test.js", "*/demos/*", "*/goog/result/*", "*/goog/testing/*", "*/goog/net/mockiframeio.js"]

/-- The settings that hold unless others are given. -/
def standard : Settings where
  filter := .standard
  excludePatterns := standardPatterns
  continuePastFatal := false
  emitComments := true
  outputFolder := "output/dts"
  combinedOutput := none
  checkCommand := ["tsc", "--noEmit"]

/-- What may be wrong with a settings file. -/
inductive Problem
  | missingFile (path : String)
  | unreadable (path : String)
  | emptyFile (path : String)
  /-- The file holds something else than a table. -/
  | notTable (kind : String)
  | badList (key : String)
  | noRoots
  | badFlag (key : String)
  | unknownKeys (keys : List String)
  deriving DecidableEq, Repr

/-- The wording of a problem. -/
def Problem.message : Problem → String
  | .missingFile path => "Settings file not found: " ++ path
  | .unreadable path => "Failed to parse settings at " ++ path
  | .emptyFile path => "Settings file is empty: " ++ path
  | .notTable kind => "Unexpected settings payload type: " ++ kind
  | .badList key => "'" ++ key ++ "' must be a list of non-empty strings"
  | .noRoots => "'root_namespaces' must not be empty"
  | .badFlag key => "'" ++ key ++ "' must be a boolean"
  | .unknownKeys keys => "Unknown settings keys: " ++ String.intercalate ", " keys

/-- The wording of a problem that is passed over. -/
def Problem.warning : Problem → String
  | .unreadable path => Problem.message (.unreadable path)
  | p => p.message ++ "; continuing with defaults"

end Settings

end Ambient
