import Ambient.Files.Disk

/-!
# Commands

A command is the name of a program and its arguments. What a program does with them shows in its
two outputs, its status and the time it takes.

* `Run`, `Run.andThen`;
* `Programs`: the programs there are;
* the small programs `echo`, `printf`, `cat` and `sleep`.
-/

namespace Ambient.Command

open Ambient.Files (Disk)

/-- What a program did. -/
structure Run where
  /-- Zero stands for success. -/
  status : Nat
  output : String
  errors : String
  seconds : Nat
  deriving DecidableEq, Repr

namespace Run

/-- A run that shows nothing. -/
def silent (status : Nat) : Run := ⟨status, "", "", 0⟩

/-- A run that succeeds and writes a text. -/
def writing (text : String) : Run := ⟨0, text, "", 0⟩

/-- A run that fails and says why. -/
def failing (status : Nat) (why : String) : Run := ⟨status, "", why ++ "\n", 0⟩

/-- A run after another one; the status is that of the later one. -/
def andThen (first second : Run) : Run :=
  ⟨second.status, first.output ++ second.output, first.errors ++ second.errors,
    first.seconds + second.seconds⟩

/-- Everything a run wrote. -/
def text (r : Run) : String := r.output ++ r.errors

end Run

/-- The programs there are: what each does with its arguments, nothing if there is none of that
name. -/
abbrev Programs := Disk → List String → Option Run

/-! ## Small programs -/

/-- The arguments on a line; `-n` leaves the end of the line out. -/
def echo : List String → Run
  | "-n" :: args => .writing (String.intercalate " " args)
  | args => .writing (String.intercalate " " args ++ "\n")

/-- A format with its marks filled in, and the arguments that are left. -/
def fill : List Char → List String → List Char × List String
  | [], args => ([], args)
  | '%' :: '%' :: rest, args =>
    let (text, left) := fill rest args
    ('%' :: text, left)
  | '%' :: mark :: rest, args =>
    let arg := match args with
      | a :: _ => a.toList
      | [] => if mark = 'd' then ['0'] else []
    let (text, left) := fill rest args.tail
    (arg ++ text, left)
  | '\\' :: 'n' :: rest, args =>
    let (text, left) := fill rest args
    ('\n' :: text, left)
  | '\\' :: 't' :: rest, args =>
    let (text, left) := fill rest args
    ('\t' :: text, left)
  | '\\' :: '\\' :: rest, args =>
    let (text, left) := fill rest args
    ('\\' :: text, left)
  | c :: rest, args =>
    let (text, left) := fill rest args
    (c :: text, left)

/-- A format filled in again and again until it takes no more arguments. -/
def fillAll (format : List Char) : Nat → List String → List Char
  | 0, _ => []
  | fuel + 1, args =>
    let (text, left) := fill format args
    if left.isEmpty || left.length = args.length then text else text ++ fillAll format fuel left

/-- A format and its arguments. -/
def printf : List String → Run
  | [] => .failing 2 "printf: usage: printf format [arg ...]"
  | format :: args =>
    .writing (String.ofList (fillAll format.toList (args.length + 1) args))

/-- The texts of files; without any, the empty input. -/
def cat (d : Disk) : List String → Run
  | [] => .silent 0
  | path :: rest =>
    let first := match d.read path with
      | .ok bytes => Run.writing (String.ofList (Text.Utf8.decodeLossy bytes))
      | .error .isFolder => .failing 1 ("cat: " ++ path ++ ": Is a directory")
      | .error _ => .failing 1 ("cat: " ++ path ++ ": No such file or directory")
    let others := cat d rest
    { first.andThen others with status := max first.status others.status }

/-- The whole seconds of a number of seconds, which may have a fraction. -/
def wholeSeconds? (text : String) : Option Nat :=
  match Text.cutString '.' text with
  | [whole] => whole.toNat?
  | [whole, fraction] => if fraction.all Char.isDigit then whole.toNat? else none
  | _ => none

/-- A refusal to wait, for reasons that are told in order. -/
def noSleep (reasons : List String) : Run :=
  .failing 1 (String.intercalate "\n" (reasons.map fun r => "sleep: " ++ r) ++
    "\nTry 'sleep --help' for more information.")

/-- Waits for a number of seconds. -/
def sleep (args : List String) : Run :=
  let invalid := args.filter fun a => (wholeSeconds? a).isNone
  if args.isEmpty then noSleep ["missing operand"]
  else if invalid.isEmpty then ⟨0, "", "", (args.filterMap wholeSeconds?).foldl (· + ·) 0⟩
  else noSleep (invalid.map fun a => "invalid time interval ‘" ++ a ++ "’")

end Ambient.Command
