import Ambient.Batch.Report
import Ambient.Log

/-!
# Options

The arguments of a command line. An option is written out or cut short as long as only one option
starts that way; its value follows it, or stands in the same argument after an equals sign. Of
several values of one option the last one counts.

* `Flag`: the options there are; `Word`: an argument as an option or as a value;
* `Options`, `Options.read`.
-/

namespace Ambient.Cli

/-- The options there are. -/
inductive Flag
  | help
  | source
  | outputFolder
  | combined
  | config
  | strictConfig
  | continueOnError
  | check
  | reportFolder
  | logLevel
  deriving DecidableEq, Repr

namespace Flag

/-- How an option is written. -/
def text : Flag → String
  | .help => "--help"
  | .source => "--source"
  | .outputFolder => "--output-dir"
  | .combined => "--combined"
  | .config => "--config"
  | .strictConfig => "--strict-config"
  | .continueOnError => "--continue-on-error"
  | .check => "--check"
  | .reportFolder => "--report-dir"
  | .logLevel => "--log-level"

/-- All options. -/
def all : List Flag :=
  [.help, .source, .outputFolder, .combined, .config, .strictConfig, .continueOnError, .check,
    .reportFolder, .logLevel]

/-- Whether an option has a value. -/
def takesValue : Flag → Bool
  | .help | .strictConfig | .continueOnError | .check => false
  | _ => true

/-- Whether a text is how an option starts. -/
def startsWith (f : Flag) (start : List Char) : Bool := start.isPrefixOf f.text.toList

end Flag

/-! ## Arguments -/

/-- An argument. -/
inductive Word
  /-- An option, and the value in the same argument. -/
  | flag (f : Flag) (value : Option String)
  | value (text : String)
  /-- Several options start this way. -/
  | ambiguous
  /-- No option starts this way, or it is cut short in a way that is not allowed. -/
  | unknown
  /-- From here on there are only values. -/
  | rest
  deriving DecidableEq, Repr

/-- Whether a text is a negative number. -/
def isNegativeNumber : List Char → Bool
  | '-' :: digits =>
    let whole := digits.takeWhile Char.isDigit
    match digits.dropWhile Char.isDigit with
    | [] => !whole.isEmpty
    | '.' :: fraction => !fraction.isEmpty && fraction.all Char.isDigit
    | _ => false
  | _ => false

/-- An argument that is no option as it stands. -/
def Word.ofOther (text : List Char) : Word :=
  if isNegativeNumber text || text.contains ' ' then .value (String.ofList text) else .unknown

/-- The option that an argument of two hyphens means. -/
def Word.ofLong (text : List Char) : Word :=
  let start := text.takeWhile (· ≠ '=')
  let value := match text.dropWhile (· ≠ '=') with
    | _ :: v => some (String.ofList v)
    | [] => none
  match Flag.all.find? fun f => f.text.toList == start with
  | some f => .flag f value
  | none =>
    match Flag.all.filter (·.startsWith start) with
    | [f] => .flag f value
    | [] => Word.ofOther text
    | _ => .ambiguous

/-- What an argument means that starts with the short form of the help option. Further letters ask
for nothing else; an equals sign or a hyphen after the form gives it a value. -/
def Word.ofHelp (more : List Char) : Word :=
  let after := more.dropWhile (· = 'h')
  if after.head?.any fun c => c = '=' || c = '-' then .flag .help (some (String.ofList after))
  else .flag .help none

/-- What an argument means. -/
def Word.ofText (text : String) : Word :=
  match text.toList with
  | ['-', '-'] => .rest
  | '-' :: 'h' :: more => Word.ofHelp more
  | '-' :: '-' :: more => Word.ofLong ('-' :: '-' :: more)
  | ['-'] => .value text
  | '-' :: more => Word.ofOther ('-' :: more)
  | _ => .value text

/-! ## Options -/

/-- What a command line asks for. -/
structure Options where
  source : Option String
  outputFolder : Option String
  combined : Option String
  config : Option String
  strictConfig : Bool
  continueOnError : Bool
  check : Bool
  reportFolder : String
  logLevel : Level
  deriving DecidableEq, Repr

/-- Why there is nothing to run. -/
inductive Stop
  | help
  | misuse
  deriving DecidableEq, Repr

/-- The status of a command line that runs nothing. -/
def Stop.status : Stop → Nat
  | .help => 0
  | .misuse => 2

namespace Options

/-- The options of an empty command line. -/
def none : Options where
  source := .none
  outputFolder := .none
  combined := .none
  config := .none
  strictConfig := false
  continueOnError := false
  check := false
  reportFolder := Batch.Report.standardFolder
  logLevel := .info

/-- The levels that can be asked for. -/
def levels : List Level := [.debug, .info, .warning, .error]

/-- The options with an option that has no value. -/
def switch (o : Options) : Flag → Except Stop Options
  | .help => .error .help
  | .strictConfig => .ok { o with strictConfig := true }
  | .continueOnError => .ok { o with continueOnError := true }
  | .check => .ok { o with check := true }
  | _ => .error .misuse

/-- The options with a value for an option. -/
def give (o : Options) (value : String) : Flag → Except Stop Options
  | .source => .ok { o with source := some value }
  | .outputFolder => .ok { o with outputFolder := some value }
  | .combined => .ok { o with combined := some value }
  | .config => .ok { o with config := some value }
  | .reportFolder => .ok { o with reportFolder := value }
  | .logLevel =>
    match (Level.ofName? value).filter levels.contains with
    | some level => .ok { o with logLevel := level }
    | .none => .error .misuse
  | _ => .error .misuse

/-- The options after the given words; the flag tells whether a value stood where none belongs. -/
def readFrom (o : Options) (stray : Bool) : List Word → Except Stop (Options × Bool)
  | [] => .ok (o, stray)
  | .flag f (some value) :: rest => do readFrom (← o.give value f) stray rest
  | .flag f .none :: .value text :: rest => do
    if f.takesValue then readFrom (← o.give text f) stray rest
    else readFrom (← o.switch f) true rest
  | .flag f .none :: rest => do readFrom (← o.switch f) stray rest
  | .ambiguous :: _ => .error .misuse
  | .value _ :: rest | .unknown :: rest => readFrom o true rest
  | .rest :: _ => .ok (o, true)

/-- What a command line asks for. An ambiguous option spoils all of it, and only the source has to be
given. -/
def read (args : List String) : Except Stop Options := do
  let words := args.map Word.ofText
  if (words.takeWhile (· ≠ .rest)).contains .ambiguous then .error .misuse
  else
    let (o, stray) ← readFrom .none false words
    if stray || o.source.isNone then .error .misuse else .ok o

end Options

end Ambient.Cli
