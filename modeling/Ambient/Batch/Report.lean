import Ambient.Batch.Declare
import Ambient.Data.Json

/-!
# Reports

The report of a run is a page of JSON, kept under the name of the run.

* `Report.complete`: a report with what every report has: the run, the moment, and the failures in
  the order of their files;
* `Report.path`, `Report.write`.
-/

namespace Ambient.Batch.Report

open Ambient.Data (Value)
open Ambient.Files

/-- The folder of reports unless another one is given. -/
def standardFolder : String := "output/run_reports"

/-- The fields of a report, with one more unless it is there. -/
def supply (key : String) (value : Value) (fields : List (Value × Value)) :
    List (Value × Value) :=
  if (Value.lookup key fields).isSome then fields else fields ++ [(.text key, value)]

/-- The file that a failure is about, as a text. -/
def fileOf (failure : Value) : String := ((failure.get? "file").map (·.spelling)).getD ""

/-- A failure as a value. -/
def ofFailure (file : String) (why : Failure) : Value :=
  .table [(.text "file", .text file), (.text "error_type", .text why.label),
    (.text "message", .text why.message)]

/-- A report with what every report has. -/
def complete (fields : List (Value × Value)) (run moment : String) (failures : List Value) :
    Value :=
  let fields := supply "timestamp_utc" (.text moment) (supply "run_id" (.text run) fields)
  .table (Value.put (.text "failures") (.list (Text.sortedBy fileOf failures)) fields)

/-- The path of the report of a run in a folder. -/
def path (folder run : String) : String := Path.join folder (run ++ ".json")

/-- Writes the report of a run into a folder. -/
def write (folder run : String) (report : Value) : Work Unit :=
  Work.writeUnder folder (path folder run) (Data.Json.page report)

end Ambient.Batch.Report
