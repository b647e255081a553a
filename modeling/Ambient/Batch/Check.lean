import Ambient.Batch.Work
import Ambient.Command.Run

/-!
# Checking declarations

A command decides whether a file of declarations is good: it gets the path of the file as its last
argument. A command that is not there, or that takes too long, decides that it is not.

* `Verdict`, `check`.
-/

namespace Ambient.Batch

open Ambient.Command (Programs Run)

/-- What a check decides, and what its command wrote. -/
structure Verdict where
  passed : Bool
  output : String
  deriving DecidableEq, Repr

/-- How many seconds a check may take. -/
def standardLimit : Nat := 600

/-- The verdict on a finished run. -/
def Verdict.ofRun (r : Run) : Verdict := ⟨r.status = 0, r.text⟩

/-- Checks the file at a path. A run that takes as long as it may is broken off. -/
def check (programs : Programs) (command : List String) (path : String) (limit : Nat) :
    Work Verdict := do
  match ← Work.look (programs · (command ++ [path])) with
  | none => if command.isEmpty then throw .noCommand else pure ⟨false, Files.Fault.missing.message⟩
  | some r =>
    if limit ≤ r.seconds then pure ⟨false, "timed out after " ++ toString limit ++ "s"⟩
    else pure (.ofRun r)

end Ambient.Batch
