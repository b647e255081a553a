import Ambient.Batch.Check
import Ambient.Batch.Combine
import Ambient.Cli.Options
import Ambient.Settings.Load

/-!
# Sessions

A session is one run of the command line: settings are loaded, the source is declared, the
declarations are combined and checked, and a report is written whatever came of it.

* `Session`, `Job`: what has been noted so far stays noted when a job fails;
* `declareStep`, `combineStep`, `checkStep`, `proceed`;
* `run`: the status of a command line, with its report.
-/

namespace Ambient.Cli

open Ambient.Batch
open Ambient.Command (Programs)
open Ambient.Data (Value)
open Ambient.Files (Disk)

/-- A run under way. -/
structure Session where
  disk : Disk
  /-- The fields of the report so far. -/
  fields : List (Value × Value)
  failures : List (String × Failure)

/-- A part of a run; it may fail with a message. -/
abbrev Job := ExceptT String (StateM Session)

/-- Puts a field into the report. -/
def note (key : String) (value : Value) : Job Unit :=
  modify fun s => { s with fields := Value.put (.text key) value s.fields }

/-- Does work on the disk of the session. -/
def perform {α : Type} (work : Work α) : Job α := do
  let (outcome, disk) := work.run (← get).disk
  modify fun s => { s with disk := disk }
  match outcome with
  | .ok a => pure a
  | .error why => throw why.message

/-- Notes a path by its tidy absolute form. -/
def notePath (key path : String) : Job Unit := do
  let disk := (← get).disk
  note key (.text (disk.absolute path))

/-- Loads the settings that the options and the environment ask for. -/
def loadStep (env : Settings.Environment) (o : Options) : Job Settings := do
  let strict := if o.strictConfig then some true else none
  match (Settings.run (Settings.load (← get).disk env o.config strict)).1 with
  | .error why => throw why.message
  | .ok s =>
    pure (if o.continueOnError then { s with continuePastFatal := true } else s)

/-- Declares the source and notes what came of it. -/
def declareStep (o : Options) (s : Settings) (output : String) : Job Declared := do
  let declared ← perform (declare s (o.source.getD "") output)
  let tally := declared.summary.tally
  modify fun session => { session with failures := tally.failures }
  tally.counters.forM fun (key, n) => note key (.integer n)
  pure declared

/-- Checks the combined declarations if that is asked for. -/
def checkStep (programs : Programs) (o : Options) (s : Settings) (target : String) :
    Job Bool := do
  if o.check then
    let verdict ← perform (check programs s.checkCommand target standardLimit)
    note "check_passed" (.boolean verdict.passed)
    pure verdict.passed
  else pure true

/-- Combines what was written if a file for it is given, and has it checked. -/
def combineStep (programs : Programs) (o : Options) (s : Settings) (output : String)
    (written : List String) : Job Bool := do
  match Settings.nonEmpty? ((Settings.nonEmpty? o.combined).or s.combinedOutput) with
  | none => pure true
  | some target =>
    let root := (← get).disk.absolute output
    perform (combine written target (some root))
    notePath "combined_output" target
    checkStep programs o s target

/-- All of a run but its report. -/
def proceed (programs : Programs) (env : Settings.Environment) (o : Options) : Job Unit := do
  let s ← loadStep env o
  let output := (Settings.nonEmpty? o.outputFolder).getD s.outputFolder
  notePath "output_dir" output
  let declared ← declareStep o s output
  let passed ← combineStep programs o s output declared.summary.written
  if declared.summary.tally.failed = 0 ∧ passed then note "status" (.text "success")

/-- What came of a run. -/
structure Outcome where
  /-- Zero stands for success. -/
  status : Nat
  report : Value
  /-- The path of the report. -/
  path : String

/-- The fields of a report before anything has been done. -/
def firstFields (o : Options) (run : String) : List (Value × Value) :=
  [(.text "run_id", .text run), (.text "pipeline", .text "closure_dts"),
    (.text "source", .text (o.source.getD "")), (.text "status", .text "failed")]

/-- The session after all of a run but its report; a message it failed with is noted. -/
def finish (programs : Programs) (env : Settings.Environment) (o : Options) (run : String)
    (d : Disk) : Session :=
  match StateT.run (ExceptT.run (proceed programs env o)) ⟨d, firstFields o run, []⟩ with
  | (.ok _, s) => s
  | (.error why, s) => { s with fields := Value.put (.text "error") (.text why) s.fields }

/-- Whether the fields of a report say that all went well. -/
def isSuccess (fields : List (Value × Value)) : Bool :=
  match Value.lookup "status" fields with
  | some (.text status) => status = "success"
  | _ => false

/-- One run of the command line under a name, at a moment. -/
def run (programs : Programs) (env : Settings.Environment) (o : Options) (name moment : String)
    (d : Disk) : Except Failure Outcome × Disk :=
  let s := finish programs env o name d
  let failures := s.failures.map fun f => Report.ofFailure f.1 f.2
  let report := Report.complete s.fields name moment failures
  let last : Work Outcome := do
    Report.write o.reportFolder name report
    pure ⟨if isSuccess s.fields then 0 else 1, report, Report.path o.reportFolder name⟩
  last.run s.disk

end Ambient.Cli
