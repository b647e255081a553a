import Ambient.Batch.Discovery
import Ambient.Batch.Output
import Ambient.Settings.Basic

/-!
# Declaring files

* `Tally`: what came of a number of files, with the failures among them;
* `declareFile`: writes the declarations of one file, if it has any;
* `declareFolder`: those of all scripts below a folder;
* `declare`: those of a file or a folder.
-/

namespace Ambient.Batch

open Ambient.Files
open Ambient.Declaration (Module PassOptions)

/-! ## Tallies -/

/-- What came of a number of files. -/
structure Tally where
  processed : Nat
  failed : Nat
  /-- The files without declarations. -/
  empty : Nat
  declarations : Nat
  /-- The declarations that could not be written. -/
  fatal : Nat
  parseErrors : Nat
  /-- The failures, each with the file it is about. -/
  failures : List (String × Failure)

namespace Tally

/-- The tally of no files. -/
def zero : Tally := ⟨0, 0, 0, 0, 0, 0, []⟩

/-- The counters of a tally, by name. -/
def counters (t : Tally) : List (String × Nat) :=
  [("files_processed", t.processed), ("files_failed", t.failed), ("files_empty", t.empty),
    ("declarations", t.declarations), ("fatal_statements", t.fatal),
    ("parse_errors", t.parseErrors)]

/-- A tally on one line. -/
def text (t : Tally) : String :=
  let counted (key : String) (n : Nat) : String := key ++ "=" ++ toString n
  "TranslationStats(" ++ String.intercalate ", "
    [counted "processed" t.processed, counted "failed" t.failed, counted "empty" t.empty,
      counted "declarations" t.declarations, counted "fatal" t.fatal,
      counted "parse_errors" t.parseErrors] ++ ")"

/-- One more file that failed. -/
def fail (t : Tally) (file : String) (why : Failure) : Tally :=
  { t with failed := t.failed + 1, failures := t.failures ++ [(file, why)] }

end Tally

/-! ## One file -/

/-- What came of one file. -/
structure Product where
  /-- The path of its declarations, if it has any. -/
  path : Option String
  declarations : Nat
  fatal : Nat
  parseErrors : Nat
  deriving DecidableEq

/-- How the statements of a file are read. -/
def passOptions (s : Settings) (file : String) : PassOptions :=
  ⟨s.filter, s.continuePastFatal, some file⟩

/-- Writes the declarations of a file below an output folder. -/
def declareFile (s : Settings) (path output : String) (root : Option String) : Work Product := do
  let current ← Work.look (·.currentPath)
  let file := Path.absolute current path
  if !(← Work.look (·.isFile file)) then throw (.noFile file)
  if !isSource file then throw (.notSource file)
  let root := rootOf current file root
  let program := Script.Program.ofBytes (← Work.ask (·.read file))
  match Module.ofStatements (passOptions s (label current file (some root))) program.statements with
  | .error e => throw (.module e)
  | .ok m =>
    let text := m.render s.emitComments
    let fatal := m.fatalResults.length
    if text.isEmpty then pure ⟨none, 0, fatal, program.errors⟩
    else do
      let target := declarationPath current file root output
      Work.writeUnder (Path.orHere (Path.folder target)) target text
      pure ⟨some target, m.model.count, fatal, program.errors⟩

/-! ## Folders -/

/-- The files written so far, and their tally. -/
structure Summary where
  written : List String
  tally : Tally

namespace Summary

/-- Nothing yet. -/
def zero : Summary := ⟨[], .zero⟩

/-- One more file. -/
def add (s : Summary) (p : Product) : Summary :=
  let t := { s.tally with
    processed := s.tally.processed + 1
    declarations := s.tally.declarations + p.declarations
    fatal := s.tally.fatal + p.fatal
    parseErrors := s.tally.parseErrors + p.parseErrors }
  match p.path with
  | some path => ⟨s.written ++ [path], t⟩
  | none => ⟨s.written, { t with empty := t.empty + 1 }⟩

end Summary

/-- Declares files one after the other. A failure is noted, or ends the work. -/
def declareAll (s : Settings) (top output : String) (continueOnError : Bool) :
    List String → Summary → Work Summary
  | [], soFar => pure soFar
  | file :: rest, soFar => do
    let next ← tryCatch (do pure (soFar.add (← declareFile s file output (some top)))) fun why => do
      if continueOnError then
        let current ← Work.look (·.currentPath)
        pure { soFar with tally := soFar.tally.fail (label current file (some top)) why }
      else throw why
    declareAll s top output continueOnError rest next

/-- Declares the scripts below a folder. -/
def declareFolder (s : Settings) (folder output : String) (continueOnError : Bool) :
    Work Summary := do
  let top ← Work.look (·.absolute folder)
  if !(← Work.look (·.isFolder top)) then throw (.noFolder top)
  let files ← Work.look (discover · s.excludePatterns top)
  declareAll s top output continueOnError files .zero

/-! ## Sources -/

/-- What came of a source, with the root that its files are seen from. -/
structure Declared where
  summary : Summary
  root : String

/-- Declares a source by itself: it counts as one file, whatever it declares. -/
def declareAlone (s : Settings) (source output : String) (root : String) : Work Summary :=
  tryCatch
    (do
      let p ← declareFile s source output (some root)
      pure (Summary.zero.add { p with declarations := 0, fatal := 0, parseErrors := 0 }))
    fun why => pure ⟨[], Tally.zero.fail (Path.fileName source) why⟩

/-- Declares a file or all scripts of a folder. -/
def declare (s : Settings) (source output : String) : Work Declared := do
  let current ← Work.look (·.currentPath)
  if ← Work.look (·.isFolder source) then
    pure ⟨← declareFolder s source output true, Path.absolute current source⟩
  else if ← Work.look (·.isFile source) then
    let root := Path.folder (Path.absolute current source)
    pure ⟨← declareAlone s source output root, root⟩
  else throw (.noSource source)

end Ambient.Batch
