import Ambient.Batch.Work

/-!
# Running work

The outcome of work and the disk after it, for each way that work is put together.

* `run_pure`, `run_throw`, `run_bind`, `run_tryCatch`;
* `run_look`, `run_ask`, `run_change`;
* **`run_writeUnder`**: what writing a file comes to.
-/

namespace Ambient.Batch.Work

open Ambient.Files (Disk Fault)

variable {α β : Type}

@[simp] theorem run_pure (a : α) (d : Disk) : (pure a : Work α).run d = (.ok a, d) := rfl

@[simp] theorem run_throw (why : Failure) (d : Disk) :
    (throw why : Work α).run d = (.error why, d) := rfl

@[simp] theorem run_look (f : Disk → α) (d : Disk) : (look f).run d = (.ok (f d), d) := rfl

theorem run_bind (work : Work α) (next : α → Work β) (d : Disk) : (work >>= next).run d =
    match work.run d with
    | (.ok a, e) => (next a).run e
    | (.error why, e) => (.error why, e) := by
  simp only [run, ExceptT.run_bind, StateT.run_bind]
  rcases StateT.run (ExceptT.run work) d with ⟨_ | _, e⟩ <;> rfl

theorem run_tryCatch (work : Work α) (handle : Failure → Work α) (d : Disk) :
    (tryCatch work handle).run d =
      match work.run d with
      | (.ok a, e) => (.ok a, e)
      | (.error why, e) => (handle why).run e := by
  simp only [run, ExceptT.run_tryCatch, StateT.run_bind]
  rcases StateT.run (ExceptT.run work) d with ⟨_ | _, e⟩ <;> rfl

theorem run_ask (f : Disk → Except Fault α) (d : Disk) : (ask f).run d =
    match f d with
    | .ok a => (.ok a, d)
    | .error fault => (.error (.fault fault), d) := by
  have hask : (ask f).run d = Work.run (match f d with
      | .ok a => pure a
      | .error e => throw (.fault e)) d := rfl
  rw [hask]
  cases f d <;> rfl

theorem run_change (f : Disk → Except Fault Disk) (d : Disk) : (change f).run d =
    match f d with
    | .ok e => (.ok (), e)
    | .error fault => (.error (.fault fault), d) := by
  rw [change, run_bind, run_ask]
  cases f d <;> rfl

/-- **Writing a file** makes its folders, and they stay also when the file is refused. -/
theorem run_writeUnder (folder path text : String) (d : Disk) :
    (writeUnder folder path text).run d =
      match d.makeFolders folder with
      | .error fault => (.error (.fault fault), d)
      | .ok m =>
        match m.write path (Text.Utf8.encode text) with
        | .error fault => (.error (.fault fault), m)
        | .ok e => (.ok (), e) := by
  rw [writeUnder, run_bind, run_change]
  cases d.makeFolders folder with
  | error fault => rfl
  | ok m =>
    dsimp only
    rw [run_change]
    cases m.write path (Text.Utf8.encode text) <;> rfl

end Ambient.Batch.Work
