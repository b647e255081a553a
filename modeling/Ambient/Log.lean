/-!
# Log lines

Every line says at which level it was written, in which run and about which file.

* `Level`, `Level.rank`;
* `Log`: the run, the files that are being worked on, and what the one output shows;
* `Log.configure`, `Log.enter`, `Log.leave`, `Log.line`.
-/

namespace Ambient

/-- How grave a line is. -/
inductive Level
  | debug
  | info
  | warning
  | error
  | critical
  deriving DecidableEq, Repr

namespace Level

/-- The place of a level among all levels. -/
def rank : Level → Nat
  | .debug => 10
  | .info => 20
  | .warning => 30
  | .error => 40
  | .critical => 50

/-- The name of a level. -/
def name : Level → String
  | .debug => "DEBUG"
  | .info => "INFO"
  | .warning => "WARNING"
  | .error => "ERROR"
  | .critical => "CRITICAL"

/-- All levels, from the least grave on. -/
def all : List Level := [.debug, .info, .warning, .error, .critical]

/-- The level with a name. -/
def ofName? (name : String) : Option Level := all.find? fun l => l.name == name

end Level

/-- How an output shows its lines. -/
inductive Log.Style
  /-- The message alone. -/
  | bare
  /-- With level, run, file and source of the line. -/
  | full
  deriving DecidableEq, Repr

/-- What goes into a line besides its message. -/
structure Log where
  /-- The run, a hyphen if none has begun. -/
  run : String
  /-- The files being worked on, the innermost one first. -/
  files : List String
  /-- The least grave level that is shown. -/
  level : Level
  /-- The style of the output, if there is one. -/
  output : Option Log.Style
  deriving DecidableEq, Repr

namespace Log

/-- What stands for a run or a file where there is none. -/
def nobody : String := "-"

/-- The log before anything has happened, with or without an output. -/
def initial (hasOutput : Bool) : Log :=
  ⟨nobody, [], .warning, if hasOutput then some .bare else none⟩

/-- Shows lines from a level on in full, on an output made now if there is none. -/
def configure (log : Log) (level : Level) : Log :=
  { log with level := level, output := some .full }

/-- How many outputs show run and file. -/
def fullOutputs (log : Log) : Nat := if log.output = some .full then 1 else 0

/-- Begins a run. -/
def begin (log : Log) (run : String) : Log := { log with run := run }

/-- Begins the work on a file. -/
def enter (log : Log) (file : String) : Log := { log with files := file :: log.files }

/-- Ends the work on the file begun last. -/
def leave (log : Log) : Log := { log with files := log.files.tail }

/-- The file being worked on. -/
def file (log : Log) : String := (log.files.head?).getD nobody

/-- A message in a style. -/
def styled (log : Log) (style : Style) (level : Level) (source message : String) : String :=
  match style with
  | .bare => message
  | .full =>
    String.intercalate " | "
      [level.name, "run_id=" ++ log.run, "module=" ++ log.file, source, message]

/-- The line that is shown for a message, nothing if its level is not shown. -/
def line (log : Log) (level : Level) (source message : String) : String :=
  match log.output with
  | none => ""
  | some style =>
    if level.rank < log.level.rank then "" else log.styled style level source message ++ "\n"

end Log

end Ambient
