import Ambient.Batch.Report
import Ambient.Proofs.Batch.Work
import Ambient.Proofs.Data.Table
import Ambient.Proofs.Files.Disk
import Ambient.Proofs.Text.Order

/-!
# What a report has

A report keeps the fields it is made of, and has the failures of a run in the order of their files.
It is one file more on a disk whose folder of reports can be written to.

* `Tally.counterKeys`: the names of the counters of a tally;
* `lookup_supply`, `get?_complete`, `exists_failures_complete`: the fields of a complete report;
* `Takes`: a disk that a report can be written to;
* **`exists_run_write`**: writing a report stores it, and nothing else.
-/

namespace Ambient.Batch

/-! ## Counters -/

namespace Tally

/-- The names of the counters. -/
def counterKeys : List String :=
  ["files_processed", "files_failed", "files_empty", "declarations", "fatal_statements",
    "parse_errors"]

theorem keys_counters (t : Tally) : t.counters.map Prod.fst = counterKeys := rfl

theorem key_mem {t : Tally} {counter : String × ℕ} (h : counter ∈ t.counters) :
    counter.1 ∈ counterKeys :=
  keys_counters t ▸ List.mem_map_of_mem h

theorem nodup_counterKeys : counterKeys.Nodup := by decide

end Tally

namespace Report

open Ambient.Data (Value)
open Ambient.Files (Disk)

variable {fields : List (Value × Value)} {name moment key other : String} {value : Value}
  {failures : List Value}

/-! ## Fields -/

theorem lookup_supply (key other : String) (value : Value) (fields : List (Value × Value)) :
    Value.lookup other (supply key value fields) =
      if other = key then some ((Value.lookup key fields).getD value)
      else Value.lookup other fields := by
  rw [supply]
  by_cases hsome : (Value.lookup key fields).isSome
  · obtain ⟨v, hv⟩ := Option.isSome_iff_exists.mp hsome
    rw [if_pos hsome]
    split_ifs with hkey
    · rw [hkey, hv, Option.getD_some]
    · rfl
  · rw [if_neg hsome, Value.lookup_append]
    split_ifs with hkey
    · rw [hkey, Option.not_isSome_iff_eq_none.mp hsome, Value.lookup_cons_self]
      rfl
    · have hne : Value.text key ≠ .text other := fun heq => hkey (Value.text.inj heq).symm
      rw [Value.lookup_cons_of_ne hne]
      exact Option.or_none

/-- A complete report keeps what has been noted under a key of its own. -/
theorem get?_complete (h : key ∉ ["failures", "timestamp_utc", "run_id"]) :
    (complete fields name moment failures).get? key = Value.lookup key fields := by
  simp only [List.mem_cons, List.not_mem_nil, or_false, not_or] at h
  obtain ⟨hfailures, htime, hrun⟩ := h
  rw [complete, Value.get?, Value.lookup_put, if_neg hfailures, lookup_supply, if_neg htime,
    lookup_supply, if_neg hrun]

/-- The failures in a complete report are those of the run, in the order of their files. -/
theorem exists_failures_complete (fields : List (Value × Value)) (name moment : String)
    (failures : List Value) : ∃ records,
      (complete fields name moment failures).get? "failures" = some (.list records) ∧
        records.Perm failures ∧
          records.Pairwise fun a b => Text.notAfter (fileOf a) (fileOf b) = true := by
  refine ⟨Text.sortedBy fileOf failures, ?_, List.mergeSort_perm _ _, ?_⟩
  · rw [complete, Value.get?, Value.lookup_put, if_pos rfl]
  · exact List.pairwise_mergeSort
      (fun a b c => Text.notAfter_trans (fileOf a) (fileOf b) (fileOf c))
      (fun a b => Text.notAfter_total (fileOf a) (fileOf b)) failures

/-! ## Writing -/

/-- The report of a run can be written to a folder, whatever it says. -/
def Takes (d : Disk) (folder name : String) : Prop :=
  ∃ m, d.makeFolders folder = .ok m ∧ ∀ bytes, ∃ e, m.write (path folder name) bytes = .ok e

/-- **A report is one file more**: it is found at its path, and the rest of the disk stays, the
folder of reports aside. -/
theorem exists_run_write {d : Disk} {folder : String} (h : Takes d folder name) (report : Value) :
    ∃ e, (write folder name report).run d = (.ok (), e) ∧
      Disk.Stored d (d.deposit folder (path folder name)
        (Text.Utf8.encode (Data.Json.page report))) e ∧
      e.read (path folder name) = .ok (Text.Utf8.encode (Data.Json.page report)) := by
  obtain ⟨m, hm, hwrite⟩ := h
  obtain ⟨e, he⟩ := hwrite (Text.Utf8.encode (Data.Json.page report))
  obtain ⟨hstored, hlocate⟩ := Disk.stored_of_written hm he
  refine ⟨e, ?_, hstored, Disk.read_of_locate? hlocate hstored.place⟩
  rw [write, Work.run_writeUnder, hm]
  dsimp only
  rw [he]

end Report

end Ambient.Batch
