import Ambient.Cli.Session
import Ambient.Proofs.Batch.Report

/-!
# The course of a run

A run goes as far as its steps succeed: it loads the settings, declares the source, combines what
was written and has that checked. The fields that are noted on the way tell how far it came.

* `Session.find?_noting`, `Session.find?_counting`: the fields of a session;
* `Job.run`, `run_loadStep`, `run_declareStep`, `run_checkStep`, `run_combineStep`, `run_proceed`:
  what the jobs of a run come to;
* `Course`, `course`: what comes of a run, step by step;
* `UnderWay`: the fields that stay as they are until the end;
* **`tells_finish`**: the session after a run tells of its course.
-/

namespace Ambient.Cli

open Batch Command Data Files

/-! ## Sessions -/

namespace Session

/-- What is in the report under a key. -/
def find? (s : Session) (key : String) : Option Value := Value.lookup key s.fields

/-- A session with a field more in its report. -/
def noting (s : Session) (key : String) (value : Value) : Session :=
  { s with fields := Value.put (.text key) value s.fields }

/-- A session with several counters in its report. -/
def counting (s : Session) (counters : List (String × ℕ)) : Session :=
  counters.foldl (fun s c => s.noting c.1 (.integer c.2)) s

variable {s : Session} {key other : String} {value : Value}

@[simp] theorem disk_noting : (s.noting key value).disk = s.disk := rfl

theorem find?_noting (other : String) :
    (s.noting key value).find? other = if other = key then some value else s.find? other :=
  Value.lookup_put key other value s.fields

theorem find?_counting {counters : List (String × ℕ)} (h : other ∉ counters.map Prod.fst) :
    (s.counting counters).find? other = s.find? other := by
  induction counters generalizing s with
  | nil => rfl
  | cons counter counters ih =>
    rw [List.map_cons, List.mem_cons, not_or] at h
    rw [counting, List.foldl_cons, ← counting, ih h.2, find?_noting, if_neg h.1]

theorem find?_counting_of_mem {counters : List (String × ℕ)} {counter : String × ℕ}
    (hnodup : (counters.map Prod.fst).Nodup) (h : counter ∈ counters) :
    (s.counting counters).find? counter.1 = some (.integer counter.2) := by
  induction counters generalizing s with
  | nil => cases h
  | cons first counters ih =>
    rw [List.map_cons, List.nodup_cons] at hnodup
    rw [counting, List.foldl_cons, ← counting]
    rcases List.mem_cons.mp h with rfl | h
    · rw [find?_counting hnodup.1, find?_noting, if_pos rfl]
    · exact ih hnodup.2 h

end Session

/-! ## Jobs -/

/-- The outcome of a job, and the session after it. -/
def Job.run {α : Type} (job : Job α) (s : Session) : Except String α × Session :=
  StateT.run (ExceptT.run job) s

namespace Job

variable {α β : Type}

theorem run_get (s : Session) : (get : Job Session).run s = (.ok s, s) := rfl

theorem run_modify (f : Session → Session) (s : Session) :
    (modify f : Job Unit).run s = (.ok (), f s) := rfl

theorem run_bind (job : Job α) (next : α → Job β) (s : Session) : (job >>= next).run s =
    match job.run s with
    | (.ok a, t) => (next a).run t
    | (.error why, t) => (.error why, t) := by
  simp only [run, ExceptT.run_bind, StateT.run_bind]
  rcases StateT.run (ExceptT.run job) s with ⟨_ | _, t⟩ <;> rfl

theorem run_notePath (key path : String) (s : Session) :
    (notePath key path).run s = (.ok (), s.noting key (.text (s.disk.absolute path))) := rfl

theorem run_perform (work : Work α) (s : Session) : (perform work).run s =
    match work.run s.disk with
    | (.ok a, d) => (.ok a, { s with disk := d })
    | (.error why, d) => (.error why.message, { s with disk := d }) := by
  rw [perform, run_bind, run_get]
  dsimp only
  rcases work.run s.disk with ⟨why | a, d⟩ <;> rfl

theorem run_forM_note (counters : List (String × Nat)) (s : Session) :
    (counters.forM fun (key, n) => note key (.integer n)).run s =
      (.ok (), s.counting counters) := by
  induction counters generalizing s with
  | nil => rfl
  | cons counter counters ih => exact ih _

end Job

/-! ## Steps -/

/-- The settings that the options and the environment ask for. -/
def Options.settings (o : Options) (env : Settings.Environment) (d : Disk) :
    Except Settings.Failure Settings :=
  (Settings.run (Settings.load d env o.config
    (if o.strictConfig then some true else .none))).1.map
    fun s => if o.continueOnError then { s with continuePastFatal := true } else s

/-- The folder that declarations are written to. -/
def Options.output (o : Options) (s : Settings) : String :=
  (Settings.nonEmpty? o.outputFolder).getD s.outputFolder

/-- The file that all declarations are collected in. -/
def Options.target? (o : Options) (s : Settings) : Option String :=
  Settings.nonEmpty? ((Settings.nonEmpty? o.combined).or s.combinedOutput)

theorem run_loadStep (env : Settings.Environment) (o : Options) (t : Session) :
    (loadStep env o).run t =
      match o.settings env t.disk with
      | .ok s => (.ok s, t)
      | .error why => (.error why.message, t) := by
  rw [loadStep, Job.run_bind, Job.run_get, Options.settings]
  dsimp only
  generalize (Settings.run _).1 = loaded
  cases loaded <;> rfl

theorem run_declareStep (o : Options) (s : Settings) (output : String) (t : Session) :
    (declareStep o s output).run t =
      match (declare s (o.source.getD "") output).run t.disk with
      | (.ok r, e) => (.ok r, Session.counting
          { t with disk := e, failures := r.summary.tally.failures } r.summary.tally.counters)
      | (.error why, e) => (.error why.message, { t with disk := e }) := by
  rw [declareStep, Job.run_bind, Job.run_perform]
  rcases (declare s (o.source.getD "") output).run t.disk with ⟨why | r, e⟩
  · rfl
  · dsimp only
    rw [Job.run_bind, Job.run_modify]
    dsimp only
    rw [Job.run_bind, Job.run_forM_note]
    rfl

theorem run_checkStep (programs : Programs) (o : Options) (s : Settings) (target : String)
    (t : Session) : (checkStep programs o s target).run t =
      if o.check then
        match (check programs s.checkCommand target standardLimit).run t.disk with
        | (.ok v, e) =>
          (.ok v.passed, Session.noting { t with disk := e } "check_passed" (.boolean v.passed))
        | (.error why, e) => (.error why.message, { t with disk := e })
      else (.ok true, t) := by
  rw [checkStep]
  split_ifs with hcheck
  · rw [Job.run_bind, Job.run_perform]
    rcases (check programs s.checkCommand target standardLimit).run t.disk with ⟨why | v, e⟩ <;> rfl
  · rfl

theorem run_combineStep (programs : Programs) (o : Options) (s : Settings) (output : String)
    (written : List String) (t : Session) :
    (combineStep programs o s output written).run t =
      match o.target? s with
      | none => (.ok true, t)
      | some target =>
        match (combine written target (some (t.disk.absolute output))).run t.disk with
        | (.ok _, e) => (checkStep programs o s target).run
            (Session.noting { t with disk := e } "combined_output" (.text (e.absolute target)))
        | (.error why, e) => (.error why.message, { t with disk := e }) := by
  rw [combineStep, Options.target?]
  cases Settings.nonEmpty? ((Settings.nonEmpty? o.combined).or s.combinedOutput) with
  | none => rfl
  | some target =>
    dsimp only
    rw [Job.run_bind, Job.run_get]
    dsimp only
    rw [Job.run_bind, Job.run_perform]
    rcases (combine written target (some (t.disk.absolute output))).run t.disk with ⟨why | _, e⟩ <;>
      rfl

theorem run_proceed (programs : Programs) (env : Settings.Environment) (o : Options) (t : Session) :
    (proceed programs env o).run t =
    match o.settings env t.disk with
    | .error why => (.error why.message, t)
    | .ok s =>
      match (declareStep o s (o.output s)).run
          (t.noting "output_dir" (.text (t.disk.absolute (o.output s)))) with
      | (.error why, t) => (.error why, t)
      | (.ok r, t) =>
        match (combineStep programs o s (o.output s) r.summary.written).run t with
        | (.error why, t) => (.error why, t)
        | (.ok passed, t) =>
          (.ok (), if r.summary.tally.failed = 0 ∧ passed = true then
            t.noting "status" (.text "success") else t) := by
  rw [proceed, Job.run_bind, run_loadStep]
  cases o.settings env t.disk with
  | error why => rfl
  | ok s =>
    dsimp only
    rw [Job.run_bind, Job.run_notePath]
    dsimp only
    rw [Job.run_bind, ← Options.output]
    rcases (declareStep o s (o.output s)).run _ with ⟨why | r, t⟩
    · rfl
    dsimp only
    rw [Job.run_bind]
    rcases (combineStep programs o s (o.output s) r.summary.written).run t with ⟨why | passed, t⟩
    · rfl
    dsimp only
    split_ifs <;> rfl

/-! ## The course of a run -/

/-- What came of a run up to its report: what was loaded, declared and decided, the message of what
ended it early, and the disk. -/
structure Course where
  settings : Option Settings
  declared : Option Declared
  verdict : Option Verdict
  error : Option String
  disk : Disk

namespace Course

/-- Nothing ended the run early, no file failed, and a check passed if there was one. -/
def succeeds (c : Course) : Bool :=
  c.error.isNone && c.declared.all (·.summary.tally.failed = 0) && c.verdict.all (·.passed)

/-- The outcome of all steps but the report, and the session after them. -/
def ending (c : Course) (t : Session) : Except String Unit × Session :=
  match c.error with
  | some why => (.error why, t)
  | none => (.ok (), if c.succeeds then t.noting "status" (.text "success") else t)

end Course

/-- The course of a run whose source is declared: combining and checking are left. -/
def courseFrom (programs : Programs) (o : Options) (s : Settings) (r : Declared) (e : Disk) :
    Course :=
  match o.target? s with
  | none => ⟨some s, some r, none, none, e⟩
  | some target =>
    match (combine r.summary.written target (some (e.absolute (o.output s)))).run e with
    | (.error why, f) => ⟨some s, some r, none, some why.message, f⟩
    | (.ok _, f) =>
      if o.check then
        match (check programs s.checkCommand target standardLimit).run f with
        | (.error why, g) => ⟨some s, some r, none, some why.message, g⟩
        | (.ok v, g) => ⟨some s, some r, some v, none, g⟩
      else ⟨some s, some r, none, none, f⟩

/-- The course of a run. -/
def course (programs : Programs) (env : Settings.Environment) (o : Options) (d : Disk) : Course :=
  match o.settings env d with
  | .error why => ⟨none, none, none, some why.message, d⟩
  | .ok s =>
    match (declare s (o.source.getD "") (o.output s)).run d with
    | (.error why, e) => ⟨some s, none, none, some why.message, e⟩
    | (.ok r, e) => courseFrom programs o s r e

/-! ## Sessions along a course -/

/-- A session under way, before its status or an error is noted. -/
structure UnderWay (t : Session) (declared : Option Declared) : Prop where
  failures : t.failures = (declared.map (·.summary.tally.failures)).getD []
  status : t.find? "status" = some (.text "failed")
  error : t.find? "error" = none
  counters : ∀ r ∈ declared, ∀ counter ∈ r.summary.tally.counters,
    t.find? counter.1 = some (.integer counter.2)

/-- The keys that a run under way notes besides the counters. -/
def plainKeys : List String := ["output_dir", "combined_output", "check_passed"]

namespace UnderWay

variable {t : Session} {declared : Option Declared} {key name : String} {value : Value}

theorem start (o : Options) (name : String) (d : Disk) :
    UnderWay ⟨d, firstFields o name, []⟩ none where
  failures := rfl
  status := by simp [Session.find?, firstFields, Value.lookup, Value.sameKey]
  error := by simp [Session.find?, firstFields, Value.lookup, Value.sameKey]
  counters := by simp

theorem onDisk (h : UnderWay t declared) (e : Disk) : UnderWay { t with disk := e } declared :=
  ⟨h.failures, h.status, h.error, h.counters⟩

theorem noting (h : UnderWay t declared) (hkey : key ∈ plainKeys) (value : Value) :
    UnderWay (t.noting key value) declared := by
  refine ⟨h.failures, ?_, ?_, fun r hr counter hcounter => ?_⟩
  · have hstatus : "status" ∉ plainKeys := by decide
    rw [Session.find?_noting, if_neg (ne_of_mem_of_not_mem hkey hstatus).symm, h.status]
  · have herror : "error" ∉ plainKeys := by decide
    rw [Session.find?_noting, if_neg (ne_of_mem_of_not_mem hkey herror).symm, h.error]
  · rw [Session.find?_noting, if_neg, h.counters r hr counter hcounter]
    have hdisjoint : ∀ key ∈ Tally.counterKeys, key ∉ plainKeys := by decide
    rintro rfl
    exact hdisjoint _ (Tally.key_mem hcounter) hkey

theorem counting (h : UnderWay t none) (r : Declared) : UnderWay
    (Session.counting { t with failures := r.summary.tally.failures } r.summary.tally.counters)
    (some r) := by
  have hkeys := Tally.keys_counters r.summary.tally
  have hstatus : "status" ∉ Tally.counterKeys := by decide
  have herror : "error" ∉ Tally.counterKeys := by decide
  refine ⟨rfl, ?_, ?_, fun r' hr' counter hcounter => ?_⟩
  · rw [Session.find?_counting (hkeys ▸ hstatus)]
    exact h.status
  · rw [Session.find?_counting (hkeys ▸ herror)]
    exact h.error
  · obtain rfl := Option.mem_some.mp hr'
    exact Session.find?_counting_of_mem (hkeys ▸ Tally.nodup_counterKeys) hcounter

end UnderWay

section

variable {programs : Programs} {env : Settings.Environment} {o : Options} {t : Session}
  {s : Settings} {declared : Option Declared} {r : Declared} {e : Disk} {output : String}
  {why : Failure}

theorem exists_run_declareStep_ok (ht : UnderWay t none)
    (hr : (declare s (o.source.getD "") output).run t.disk = (.ok r, e)) :
    ∃ t', UnderWay t' (some r) ∧ t'.disk = e ∧ (declareStep o s output).run t = (.ok r, t') :=
  ⟨_, (ht.onDisk e).counting r, rfl, by rw [run_declareStep, hr]⟩

theorem exists_run_declareStep_error (ht : UnderWay t none)
    (hr : (declare s (o.source.getD "") output).run t.disk = (.error why, e)) :
    ∃ t', UnderWay t' none ∧ t'.disk = e ∧
      (declareStep o s output).run t = (.error why.message, t') :=
  ⟨_, ht.onDisk e, rfl, by rw [run_declareStep, hr]⟩

/-- **Combining and checking** take the rest of the course, and leave what has been noted. -/
theorem exists_run_combineStep (programs : Programs) (o : Options) (s : Settings)
    (ht : UnderWay t (some r)) : ∃ u, UnderWay u (some r) ∧
      u.disk = (courseFrom programs o s r t.disk).disk ∧
      (combineStep programs o s (o.output s) r.summary.written).run t =
        match (courseFrom programs o s r t.disk).error with
        | some why => (.error why, u)
        | none => (.ok ((courseFrom programs o s r t.disk).verdict.all (·.passed)), u) := by
  have hcombined : "combined_output" ∈ plainKeys := by decide
  have hpassed : "check_passed" ∈ plainKeys := by decide
  -- The cases are those of the course; each leaves the session that the step of that name leaves.
  rw [run_combineStep, courseFrom]
  cases o.target? s with
  | none => exact ⟨t, ht, rfl, rfl⟩
  | some target =>
    dsimp only
    rcases (combine r.summary.written target (some (t.disk.absolute (o.output s)))).run t.disk with
      ⟨why | _, f⟩
    · exact ⟨_, ht.onDisk f, rfl, rfl⟩
    have hu := (ht.onDisk f).noting hcombined (.text (f.absolute target))
    dsimp only
    rw [run_checkStep]
    split_ifs
    · rw [Session.disk_noting]
      dsimp only
      rcases (check programs s.checkCommand target standardLimit).run f with ⟨why | v, g⟩
      · exact ⟨_, hu.onDisk g, rfl, rfl⟩
      · exact ⟨_, (hu.onDisk g).noting hpassed (.boolean v.passed), rfl, rfl⟩
    · exact ⟨_, hu, rfl, rfl⟩

theorem courseFrom_fields (programs : Programs) (o : Options) (s : Settings) (r : Declared)
    (e : Disk) : (courseFrom programs o s r e).settings = some s ∧
      (courseFrom programs o s r e).declared = some r := by
  rw [courseFrom]
  cases o.target? s with
  | none => exact ⟨rfl, rfl⟩
  | some target =>
    dsimp only
    rcases (combine r.summary.written target (some (e.absolute (o.output s)))).run e with
      ⟨why | _, f⟩
    · exact ⟨rfl, rfl⟩
    dsimp only
    split_ifs
    · rcases (check programs s.checkCommand target standardLimit).run f with ⟨why | v, g⟩ <;>
        exact ⟨rfl, rfl⟩
    · exact ⟨rfl, rfl⟩

/-- The session that a run ends with before its status or an error is noted. -/
theorem exists_run_proceed (programs : Programs) (env : Settings.Environment) (o : Options)
    (ht : UnderWay t none) : ∃ u, UnderWay u (course programs env o t.disk).declared ∧
      u.disk = (course programs env o t.disk).disk ∧
      (proceed programs env o).run t = (course programs env o t.disk).ending u := by
  have hkey : "output_dir" ∈ plainKeys := by decide
  rw [run_proceed, course]
  cases o.settings env t.disk with
  | error why => exact ⟨t, ht, rfl, rfl⟩
  | ok s =>
    have hfolder := ht.noting hkey (.text (t.disk.absolute (o.output s)))
    dsimp only
    rcases hr : (declare s (o.source.getD "") (o.output s)).run t.disk with ⟨why | r, e⟩
    · obtain ⟨u, hu, rfl, hdeclare⟩ := exists_run_declareStep_error hfolder hr
      refine ⟨u, hu, rfl, ?_⟩
      rw [hdeclare]
      rfl
    · obtain ⟨v, hv, rfl, hdeclare⟩ := exists_run_declareStep_ok hfolder hr
      obtain ⟨u, hu, hdisk, hcombine⟩ := exists_run_combineStep programs o s hv
      have hdeclared := (courseFrom_fields programs o s r v.disk).2
      refine ⟨u, ?_, hdisk, ?_⟩
      · rwa [hdeclared]
      rw [hdeclare]
      dsimp only
      rw [hcombine, Course.ending]
      cases herror : (courseFrom programs o s r v.disk).error with
      | some why => rfl
      | none => simp [Course.succeeds, herror, hdeclared]

/-- A session tells of a course: its report has what came of the run. -/
structure Tells (t : Session) (c : Course) : Prop where
  disk : t.disk = c.disk
  failures : t.failures = (c.declared.map (·.summary.tally.failures)).getD []
  status : t.find? "status" = some (.text (if c.succeeds then "success" else "failed"))
  error : t.find? "error" = c.error.map .text
  counters : ∀ r ∈ c.declared, ∀ counter ∈ r.summary.tally.counters,
    t.find? counter.1 = some (.integer counter.2)

/-- **The session after a run** tells of the course of the run. -/
theorem tells_finish (programs : Programs) (env : Settings.Environment) (o : Options)
    (name : String) (d : Disk) :
    Tells (finish programs env o name d) (course programs env o d) := by
  obtain ⟨t, ht, hdisk, hrun⟩ := exists_run_proceed programs env o (UnderWay.start o name d)
  have hfinish : finish programs env o name d =
      match (proceed programs env o).run ⟨d, firstFields o name, []⟩ with
      | (.ok _, t) => t
      | (.error why, t) => t.noting "error" (.text why) := rfl
  rw [hfinish, hrun, Course.ending]
  have hstatus : "status" ∉ Tally.counterKeys := by decide
  have herror : "error" ∉ Tally.counterKeys := by decide
  generalize course programs env o d = c at ht hdisk ⊢
  cases hwhy : c.error with
  | some why =>
    refine ⟨hdisk, ht.failures, ?_, ?_, fun r hr counter hcounter => ?_⟩
    · rw [Session.find?_noting, if_neg (by decide), ht.status, Course.succeeds, hwhy]
      rfl
    · rw [Session.find?_noting, if_pos rfl, hwhy]
      rfl
    · rw [Session.find?_noting, if_neg (ne_of_mem_of_not_mem (Tally.key_mem hcounter) herror),
        ht.counters r hr counter hcounter]
  | none =>
    dsimp only
    split_ifs with hsucceeds
    · refine ⟨hdisk, ht.failures, ?_, ?_, fun r hr counter hcounter => ?_⟩
      · rw [Session.find?_noting, if_pos rfl, if_pos hsucceeds]
      · rw [Session.find?_noting, if_neg (by decide), ht.error, hwhy]
        rfl
      · rw [Session.find?_noting, if_neg (ne_of_mem_of_not_mem (Tally.key_mem hcounter) hstatus),
          ht.counters r hr counter hcounter]
    · refine ⟨hdisk, ht.failures, ?_, ?_, ht.counters⟩
      · rw [ht.status, if_neg hsucceeds]
      · rw [ht.error, hwhy]
        rfl

end

end Ambient.Cli
