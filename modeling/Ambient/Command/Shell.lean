import Ambient.Command.Run

/-!
# Scripts of commands

A script is a row of commands between semicolons or line ends, or joined so that the later one
depends on how the earlier one ended. Words are quoted by single or double quotes; a dollar sign
with a mark stands for arguments of the script; one output can be sent to the other, or away.

* `Token`, `tokensFrom`; `Link`, `Step`, `steps`;
* `Sinks`: where the outputs of a command go;
* `runSteps`: the run of a script; `exit` ends it;
* `standardPrograms`: the small programs and the shell itself.
-/

namespace Ambient.Command

open Ambient.Files (Disk)

/-! ## Reading a script -/

/-- When a command of a script is run, after the one before it. -/
inductive Link
  | always
  | onSuccess
  | onFailure
  deriving DecidableEq, Repr

/-- Whether a command is run after one that ended with a status. -/
def Link.applies (status : Nat) : Link → Bool
  | .always => true
  | .onSuccess => status = 0
  | .onFailure => status ≠ 0

/-- A piece of a script. -/
inductive Token
  | word (text : String)
  /-- An output, and the one it is sent to; any mark but `1` and `2` stands for nowhere. -/
  | send (source target : Char)
  /-- The end of a command, and when the next one is run. -/
  | link (next : Link)
  deriving DecidableEq, Repr

/-- Whether a mark after a dollar sign stands for arguments. -/
def isArgumentMark (mark : Char) : Bool := mark.isDigit || mark = '@' || mark = '*' || mark = '#'

/-- What a mark stands for: an argument of the script, all but the first, or the number of those. -/
def argument (args : List String) (mark : Char) : String :=
  if mark = '@' ∨ mark = '*' then String.intercalate " " (args.drop 1)
  else if mark = '#' then toString (args.length - 1)
  else (args[mark.toNat - 48]?).getD ""

/-- What follows the name of the file that keeps nothing, blanks before it aside. -/
def afterNowhere? (s : List Char) : Option (List Char) :=
  let name := "/dev/null".toList
  let s := s.dropWhile (· = ' ')
  if name.isPrefixOf s then some (s.drop name.length) else none

/-- A word so far, in reverse; none has begun at first. -/
abbrev Part := Option (List Char)

/-- The word so far as a token, in front of others. -/
def Part.close (part : Part) (rest : List Token) : List Token :=
  match part with
  | none => rest
  | some cs => .word (String.ofList cs.reverse) :: rest

/-- A word so far with more text. -/
def Part.add (part : Part) (text : List Char) : Part := some (text.reverse ++ part.getD [])

/-- A word so far that names an output to be sent, in front of other tokens; it is the first output
unless a word of one mark says which. -/
def Part.send (part : Part) (target : Char) (rest : List Token) : List Token :=
  match part with
  | some [source] => .send source target :: rest
  | _ => part.close (.send '1' target :: rest)

/-- The tokens of a script; the mark is the quote that is open. The fuel is the number of
characters. -/
def tokensFrom (args : List String) : Nat → Option Char → Part → List Char → List Token
  | 0, _, part, _ => part.close []
  | _, _, part, [] => part.close []
  | fuel + 1, quote, part, c :: rest =>
    match quote, c, rest with
    | some q, '$', d :: more =>
      if q = '\x22' ∧ isArgumentMark d then
        tokensFrom args fuel quote (part.add (argument args d).toList) more
      else tokensFrom args fuel quote (part.add ['$']) (d :: more)
    | some q, c, rest =>
      if c = q then tokensFrom args fuel none part rest
      else tokensFrom args fuel quote (part.add [c]) rest
    | none, '$', d :: more =>
      if isArgumentMark d then
        tokensFrom args fuel none (part.add (argument args d).toList) more
      else tokensFrom args fuel none (part.add ['$']) (d :: more)
    | none, '>', '&' :: d :: more => part.send d (tokensFrom args fuel none none more)
    | none, '&', '&' :: more =>
      part.close (.link .onSuccess :: tokensFrom args fuel none none more)
    | none, '|', '|' :: more =>
      part.close (.link .onFailure :: tokensFrom args fuel none none more)
    | none, c, rest =>
      match c, afterNowhere? rest with
      | '>', some more => part.send '0' (tokensFrom args fuel none none more)
      | _, _ =>
        if c = '\x27' ∨ c = '\x22' then tokensFrom args fuel (some c) (part.add []) rest
        else if c = ' ' ∨ c = '\t' then part.close (tokensFrom args fuel none none rest)
        else if c = ';' ∨ c = '\n' then
          part.close (.link .always :: tokensFrom args fuel none none rest)
        else tokensFrom args fuel none (part.add [c]) rest

/-- A command of a script: when it is run, and where its outputs are sent to. -/
structure Step where
  link : Link
  words : List String
  sends : List (Char × Char)

/-- The commands of a script from one on that is run as the link says. -/
def steps (link : Link) : List Token → List Step
  | [] => [⟨link, [], []⟩]
  | .link next :: rest => ⟨link, [], []⟩ :: steps next rest
  | .word w :: rest =>
    match steps link rest with
    | [] => []
    | step :: later => { step with words := w :: step.words } :: later
  | .send a b :: rest =>
    match steps link rest with
    | [] => []
    | step :: later => { step with sends := (a, b) :: step.sends } :: later

/-! ## Running it -/

/-- Where an output goes. -/
inductive Sink
  | output
  | errors
  | nowhere
  deriving DecidableEq, Repr

/-- Where the two outputs of a command go. -/
structure Sinks where
  output : Sink
  errors : Sink
  deriving DecidableEq, Repr

/-- Where a mark leads to. -/
def Sinks.of (s : Sinks) : Char → Sink
  | '1' => s.output
  | '2' => s.errors
  | _ => .nowhere

/-- Sends an output to where another one goes at that time. -/
def Sinks.send (s : Sinks) (send : Char × Char) : Sinks :=
  match send.1 with
  | '1' => { s with output := s.of send.2 }
  | '2' => { s with errors := s.of send.2 }
  | _ => s

/-- A run whose outputs go where they are sent. -/
def Run.into (r : Run) (s : Sinks) : Run :=
  let gathered (k : Sink) : String :=
    (if s.output = k then r.output else "") ++ (if s.errors = k then r.errors else "")
  { r with output := gathered .output, errors := gathered .errors }

/-- A run after its outputs have been sent in turn. -/
def Run.sent (r : Run) (sends : List (Char × Char)) : Run :=
  r.into (sends.foldl Sinks.send ⟨.output, .errors⟩)

/-- Whether a file is there and holds something. -/
def holdsBytes (d : Disk) (path : String) : Bool :=
  match d.read path with
  | .ok bytes => !bytes.isEmpty
  | .error _ => false

/-- Whether a condition on files or texts holds. -/
def holds (d : Disk) : List String → Bool
  | "!" :: rest => !holds d rest
  | ["-f", path] => d.isFile path
  | ["-d", path] => d.isFolder path
  | ["-e", path] | ["-r", path] => (d.at? path).isSome
  | ["-s", path] => holdsBytes d path
  | ["-n", text] | [text] => !text.isEmpty
  | ["-z", text] => text.isEmpty
  | [a, "=", b] => a == b
  | [a, "!=", b] => a != b
  | _ => false

/-- The run of a test. -/
def testRun (d : Disk) (words : List String) : Run := .silent (if holds d words then 0 else 1)

/-- The run of a command inside a script with the given name. -/
def runWords (d : Disk) (script : String) : List String → Run
  | [] => .silent 0
  | "true" :: _ | ":" :: _ => .silent 0
  | "false" :: _ => .silent 1
  | "echo" :: args => echo args
  | "printf" :: args => printf args
  | "cat" :: args => cat d args
  | "sleep" :: args => sleep args
  | "test" :: args => testRun d args
  | "[" :: args => testRun d (args.filter (· ≠ "]"))
  | name :: _ => .failing 127 (script ++ ": 1: " ++ name ++ ": not found")

/-- The run of a row of commands after another run. -/
def runSteps (d : Disk) (script : String) (soFar : Run) : List Step → Run
  | [] => soFar
  | step :: rest =>
    if step.words.isEmpty || !step.link.applies soFar.status then runSteps d script soFar rest
    else match step.words with
      | "exit" :: args =>
        { soFar with status := ((args.head?.bind String.toNat?).getD soFar.status) % 256 }
      | words =>
        runSteps d script (soFar.andThen ((runWords d script words).sent step.sends)) rest

/-- The run of a script. The first argument is the name it goes by. -/
def shell (d : Disk) (script : String) (args : List String) : Run :=
  let tokens := tokensFrom args (script.length + 1) none none script.toList
  runSteps d ((args.head?).getD "sh") (.silent 0) (steps .always tokens)

/-- The programs that are always there. -/
def standardPrograms : Programs := fun d command =>
  match command with
  | "true" :: _ => some (.silent 0)
  | "false" :: _ => some (.silent 1)
  | "echo" :: args => some (echo args)
  | "printf" :: args => some (printf args)
  | "cat" :: args => some (cat d args)
  | "sleep" :: args => some (sleep args)
  | "test" :: args => some (testRun d args)
  | "sh" :: "-c" :: script :: args => some (shell d script args)
  | _ => none

end Ambient.Command
