import Ambient.Proofs.Batch.Draft
import Mathlib

/-!
# Declaring the scripts of a folder

The scripts of a folder are declared one after the other, each on the disk that those before it
leave. Declarations stand where no script does and no two scripts put theirs at one place, so that
each script gives what it gives by itself, and the disk gathers what each of them writes.

* `Summary.of`: the summary of several outcomes;
* `outcomes`, `run_declareAll`: a run is the summary of its outcomes;
* `Gathers`: a disk that holds what several files write, and nothing else;
* `Alone`, `Alone.step`, `Alone.outcomes_eq`: one script more, and all of them;
* **`declareFolder_sum`**: declaring a folder is the sum of declaring its files.
-/

namespace Ambient.Batch

open Ambient.Declaration (ModuleError)
open Ambient.Files
open Ambient.Files.Path (Normal)

/-! ## Summaries -/

/-- The failure among an outcome and the name it is reported under. -/
def failure? : String × Except Failure Product → Option (String × Failure)
  | (file, .error why) => some (file, why)
  | (_, .ok _) => none

/-- The products of several outcomes. -/
def products (os : List (String × Except Failure Product)) : List Product :=
  os.filterMap fun o => o.2.toOption

/-- The summary of several outcomes, each with the name its failure is reported under. -/
def Summary.of (os : List (String × Except Failure Product)) : Summary where
  written := (products os).filterMap Product.path
  tally :=
    { processed := (products os).length
      failed := (os.filterMap failure?).length
      empty := ((products os).filter (·.path.isNone)).length
      declarations := ((products os).map Product.declarations).sum
      fatal := ((products os).map Product.fatal).sum
      parseErrors := ((products os).map Product.parseErrors).sum
      failures := os.filterMap failure? }

variable {os : List (String × Except Failure Product)}

theorem products_concat (file : String) (o : Except Failure Product) :
    products (os ++ [(file, o)]) = products os ++ o.toOption.toList := by
  rw [products, List.filterMap_append]
  cases o <;> rfl

theorem Summary.add_of (file : String) (p : Product) :
    (Summary.of os).add p = Summary.of (os ++ [(file, .ok p)]) := by
  have hproducts : products (os ++ [(file, .ok p)]) = products os ++ [p] := products_concat file _
  have hfailures : (os ++ [(file, Except.ok p)]).filterMap failure? = os.filterMap failure? := by
    rw [List.filterMap_append]
    exact List.append_nil _
  rw [Summary.add, Summary.of, Summary.of, hproducts, hfailures]
  cases hpath : p.path <;> simp [hpath]

theorem Summary.fail_of (file : String) (why : Failure) :
    { Summary.of os with tally := (Summary.of os).tally.fail file why } =
      Summary.of (os ++ [(file, .error why)]) := by
  have hproducts : products (os ++ [(file, .error why)]) = products os :=
    (products_concat file _).trans (List.append_nil _)
  have hfailures : (os ++ [(file, Except.error why)]).filterMap failure? =
      os.filterMap failure? ++ [(file, why)] := List.filterMap_append
  rw [Tally.fail, Summary.of, Summary.of, hproducts, hfailures]
  simp

/-- Every outcome is counted once: among the files that are processed, empty or not, or among those
that fail. -/
theorem Summary.counts_of (os : List (String × Except Failure Product)) :
    (Summary.of os).tally.processed + (Summary.of os).tally.failed = os.length ∧
      (Summary.of os).written.length + (Summary.of os).tally.empty =
        (Summary.of os).tally.processed ∧
      (Summary.of os).tally.failures.length = (Summary.of os).tally.failed := by
  have hproducts : ∀ ps : List Product,
      (ps.filterMap Product.path).length + (ps.filter (·.path.isNone)).length = ps.length := by
    intro ps
    induction ps with
    | nil => rfl
    | cons p ps ih =>
      cases hpath : p.path <;> simp [hpath] <;> omega
  refine ⟨?_, hproducts _, rfl⟩
  induction os with
  | nil => rfl
  | cons o os ih =>
    obtain ⟨file, why | p⟩ := o <;>
      simp only [Summary.of, products, failure?, Except.toOption, List.filterMap_cons,
        List.length_cons] at ih ⊢ <;> omega

/-! ## Runs -/

/-- The outcomes of declaring files one after the other, and the disk after them. -/
def outcomes (s : Settings) (top output : String) (d : Disk) :
    List String → List (String × Except Failure Product) × Disk
  | [] => ([], d)
  | file :: rest =>
    let (o, e) := (declareFile s file output (some top)).run d
    let (later, last) := outcomes s top output e rest
    ((label d.currentPath file (some top), o) :: later, last)

variable {s : Settings} {top output : String}

theorem length_outcomes : ∀ (files : List String) (d : Disk),
    (outcomes s top output d files).1.length = files.length
  | [], _ => rfl
  | file :: rest, d => by
    rw [outcomes, List.length_cons, List.length_cons, length_outcomes rest]

/-- **A run over files** that goes on after failures gives the summary of its outcomes. -/
theorem run_declareAll {files : List String} : ∀ (done : List (String × Except Failure Product))
    (d : Disk), (declareAll s top output true files (Summary.of done)).run d =
      (.ok (Summary.of (done ++ (outcomes s top output d files).1)),
        (outcomes s top output d files).2) := by
  induction files with
  | nil =>
    intro done d
    rw [outcomes, List.append_nil, declareAll, Work.run_pure]
  | cons file files ih =>
    intro done d
    have hcurrent := current_run_declareFile s file output (some top) d
    rw [declareAll, Work.run_bind, Work.run_tryCatch, Work.run_bind, outcomes]
    rcases hrun : (declareFile s file output (some top)).run d with ⟨why | p, e⟩
    · rw [hrun] at hcurrent
      have hpath : e.currentPath = d.currentPath := Disk.currentPath_congr hcurrent
      simp only [if_true, Work.run_bind, Work.run_look, Work.run_pure, hpath]
      rw [Summary.fail_of, ih, List.append_assoc, List.singleton_append]
    · dsimp only
      rw [Work.run_pure]
      dsimp only
      rw [Summary.add_of (label d.currentPath file (some top)), ih, List.append_assoc,
        List.singleton_append]

theorem run_declareFolder {d : Disk} {folder : String}
    (hfolder : d.isFolder (d.absolute folder) = true) :
    (declareFolder s folder output true).run d =
      (.ok (Summary.of (outcomes s (d.absolute folder) output d
          (discover d s.excludePatterns (d.absolute folder))).1),
        (outcomes s (d.absolute folder) output d
          (discover d s.excludePatterns (d.absolute folder))).2) := by
  rw [declareFolder]
  simp only [Work.run_bind, Work.run_look, hfolder, Bool.not_true, Bool.false_eq_true, if_false]
  exact run_declareAll [] d

/-! ## Files by themselves -/

/-- What a file by itself deposits. -/
def depositOf? (s : Settings) (root output : String) (d : Disk) (file : String) :
    Option Disk.Deposit :=
  (draftOf s d file output (some root)).toOption.bind (·.deposit? d)

/-- Scripts below a folder of a disk, none of which is refused when it is declared by itself. -/
structure Alone (s : Settings) (d : Disk) (lead : String) (ns : List String)
    (top root output : String) (files : List String) : Prop where
  proper : d.Proper
  normal : Normal lead ns top
  root_ne : root ≠ ""
  root_eq : d.absolute root = top
  below : ∀ file ∈ files, ∃ above name, Below d lead ns above name file
  unrefused : ∀ file ∈ files, ∀ fault,
    ((declareFile s file output (some root)).run d).1 ≠ .error (.fault fault)

namespace Alone

variable {d e : Disk} {lead root file : String} {ns files done rest : List String}
  {v w : Disk.Deposit} (h : Alone s d lead ns top root output files)

include h

theorem drafted (hfile : file ∈ files) : Drafted d (draftOf s d file output (some root))
    ((declareFile s file output (some root)).run d) :=
  drafted_of_run (h.unrefused file hfile)

theorem stored (hfile : file ∈ files) (hw : depositOf? s root output d file = some w) :
    (∃ p target, ((declareFile s file output (some root)).run d).1 = .ok p ∧
        p.path = some target) ∧
      Disk.Stored d w ((declareFile s file output (some root)).run d).2 := by
  rcases (h.drafted hfile).deposit_cases with ⟨hnone, -⟩ | ⟨w', p, target, hw', hp, hstored, -⟩
  · cases hw.symm.trans hnone
  · obtain rfl := Option.some.inj (hw.symm.trans hw')
    exact ⟨⟨p, target, hp⟩, hstored⟩

theorem admits (hdone : ∀ file ∈ done, file ∈ files) :
    ∀ w ∈ done.filterMap (depositOf? s root output d), d.Admits w := by
  intro w hw
  obtain ⟨file, hfile, hdeposit⟩ := List.mem_filterMap.mp hw
  exact (h.stored (hdone file hfile) hdeposit).2.admits

theorem place_eq {above : List String} {name : String} (hbelow : Below d lead ns above name file)
    (hw : depositOf? s root output d file = some w) : w.place =
      Disk.follow (d.start output) (Path.names output) ++ (above ++ [declarationName name]) := by
  obtain ⟨bytes, hbytes⟩ := hbelow.stored
  rw [depositOf?, draftOf_below hbelow h.root_ne h.root_eq rfl (hbelow.locate? h.proper) hbytes]
    at hw
  cases hdraft : draft s d.currentPath file top output bytes with
  | error why =>
    rw [hdraft] at hw
    cases hw
  | ok draft =>
    rw [hdraft] at hw
    exact place_of_deposit? hbelow h.normal hdraft hw

/-- Two files that deposit something at one place are the same file. -/
theorem deposit_inj {file' : String} (hfile : file ∈ files) (hfile' : file' ∈ files)
    (hv : depositOf? s root output d file = some v)
    (hw : depositOf? s root output d file' = some w) (hplace : v.place = w.place) : v = w := by
  obtain ⟨above, name, hbelow⟩ := h.below file hfile
  obtain ⟨above', name', hbelow'⟩ := h.below file' hfile'
  rw [h.place_eq hbelow hv, h.place_eq hbelow' hw, List.append_cancel_left_eq] at hplace
  rw [hbelow.file_inj hbelow' hplace] at hv
  exact Option.some.inj (hv.symm.trans hw)

/-- No script stands where something is deposited. -/
theorem place_ne {above : List String} {name : String} (hbelow : Below d lead ns above name file)
    (hdone : ∀ file ∈ done, file ∈ files) :
    ∀ w ∈ done.filterMap (depositOf? s root output d), ns ++ (above ++ [name]) ≠ w.place := by
  intro w hw heq
  obtain ⟨file', hfile', hdeposit⟩ := List.mem_filterMap.mp hw
  obtain ⟨above', name', hbelow'⟩ := h.below file' (hdone file' hfile')
  rw [h.place_eq hbelow' hdeposit, ← List.append_assoc, ← List.append_assoc] at heq
  obtain ⟨-, hlast⟩ := List.append_singleton_inj.mp heq
  have hsource := hbelow.source
  rw [hlast, declarationName_not_source] at hsource
  cases hsource

/-- A script gives the same draft after others have been declared. -/
theorem draftOf_laid (hfile : file ∈ files) (hdone : ∀ file ∈ done, file ∈ files)
    (hlaid : Disk.Laid d (done.filterMap (depositOf? s root output d)) e) :
    draftOf s e file output (some top) = draftOf s d file output (some root) := by
  obtain ⟨above, name, hbelow⟩ := h.below file hfile
  obtain ⟨bytes, hbytes⟩ := hbelow.stored
  have hlocate := hbelow.locate? h.proper
  have hlocate' := (hlaid.extends (h.admits hdone)).locate? hlocate
  have hbytes' := hlaid.file (h.admits hdone) hbytes (h.place_ne hbelow hdone)
  rw [draftOf_below hbelow h.root_ne h.root_eq rfl hlocate hbytes,
    draftOf_below hbelow h.normal.ne_empty (h.normal.absolute_eq _) hlaid.current hlocate' hbytes']

/-- **One file more.** After others have been declared, a file gives the outcome it gives by itself,
and what it deposits then is what it deposits by itself. -/
theorem step (hfile : file ∈ files) (hdone : ∀ file ∈ done, file ∈ files)
    (hlaid : Disk.Laid d (done.filterMap (depositOf? s root output d)) e)
    (hrun : ∀ fault, ((declareFile s file output (some top)).run e).1 ≠ .error (.fault fault)) :
    ((declareFile s file output (some top)).run e).1 =
        ((declareFile s file output (some root)).run d).1 ∧
      Disk.Laid d ((done ++ [file]).filterMap (depositOf? s root output d))
        ((declareFile s file output (some top)).run e).2 := by
  have hdrafted := drafted_of_run hrun
  rw [h.draftOf_laid hfile hdone hlaid] at hdrafted
  refine ⟨hdrafted.outcome_eq.trans (h.drafted hfile).outcome_eq.symm, ?_⟩
  have hdeposit : (draftOf s d file output (some root)).toOption.bind (·.deposit? e) =
      depositOf? s root output d file := by
    simp only [depositOf?, deposit?_congr hlaid.current]
  have hnext := hdrafted.laid hlaid fun v hv w hw hplace => by
    rw [hdeposit] at hw
    obtain ⟨file', hfile', hv⟩ := List.mem_filterMap.mp hv
    rw [h.deposit_inj (hdone file' hfile') hfile hv hw hplace]
  rw [hdeposit] at hnext
  have hlist : [file].filterMap (depositOf? s root output d) =
      (depositOf? s root output d file).toList := by
    rw [List.filterMap_cons]
    cases depositOf? s root output d file <;> rfl
  rwa [List.filterMap_append, hlist]

/-- **All files.** Where no write is refused, the outcomes of a run are those of the files by
themselves, and the disk holds what they deposit by themselves. -/
theorem outcomes_eq : ∀ {done : List String} {e : Disk}, (∀ file ∈ rest, file ∈ files) →
    (∀ file ∈ done, file ∈ files) →
    Disk.Laid d (done.filterMap (depositOf? s root output d)) e →
    (∀ o ∈ (outcomes s top output e rest).1, ∀ fault, o.2 ≠ .error (.fault fault)) →
    (outcomes s top output e rest).1 = rest.map (fun file =>
        (label d.currentPath file (some top),
          ((declareFile s file output (some root)).run d).1)) ∧
      Disk.Laid d ((done ++ rest).filterMap (depositOf? s root output d))
        (outcomes s top output e rest).2 := by
  induction rest with
  | nil =>
    intro done e _ _ hlaid _
    exact ⟨rfl, by rwa [List.append_nil]⟩
  | cons file rest ih =>
    intro done e hrest hdone hlaid hrun
    rw [List.forall_mem_cons] at hrest
    rw [outcomes] at hrun ⊢
    rw [List.forall_mem_cons] at hrun
    dsimp only at hrun ⊢
    obtain ⟨houtcome, hnext⟩ := h.step hrest.1 hdone hlaid hrun.1
    have hdone' : ∀ f ∈ done ++ [file], f ∈ files :=
      List.forall_mem_append.mpr ⟨hdone, List.forall_mem_singleton.mpr hrest.1⟩
    obtain ⟨hlater, hlast⟩ := ih hrest.2 hdone' hnext hrun.2
    have hpath := Disk.currentPath_congr hlaid.current
    refine ⟨?_, ?_⟩
    · rw [List.map_cons, ← houtcome, ← hlater, hpath]
    · rwa [List.append_assoc, List.singleton_append] at hlast

end Alone

/-! ## The disk after a run -/

/-- A disk gathers what each of several files changes by itself, and nothing else. -/
structure Gathers (d : Disk) (files : List String)
    (single : String → Except Failure Product × Disk) (after : Disk) : Prop where
  /-- The path of every text that is written leads to the same text. -/
  texts : ∀ file ∈ files, ∀ p target, (single file).1 = .ok p → p.path = some target →
    ∃ bytes, (single file).2.read target = .ok bytes ∧ after.read target = .ok bytes
  /-- A file that fails or declares nothing writes nothing. -/
  quiet : ∀ file ∈ files, (∀ p, (single file).1 = .ok p → p.path = none) → (single file).2 = d
  /-- What a file changes is changed in the same way. -/
  kept : ∀ file ∈ files, ∀ place, (single file).2.node? place ≠ d.node? place →
    after.node? place = (single file).2.node? place
  /-- What is changed is changed so by a file that is written. -/
  changed : ∀ place, after.node? place ≠ d.node? place → ∃ file ∈ files,
    (∃ p target, (single file).1 = .ok p ∧ p.path = some target) ∧
      after.node? place = (single file).2.node? place

theorem Alone.gathers {d after : Disk} {lead root : String} {ns files : List String}
    (h : Alone s d lead ns top root output files)
    (hlaid : Disk.Laid d (files.filterMap (depositOf? s root output d)) after) :
    Gathers d files (fun file => (declareFile s file output (some root)).run d) after := by
  have hmem : ∀ {file w}, file ∈ files → depositOf? s root output d file = some w →
      w ∈ files.filterMap (depositOf? s root output d) :=
    fun hfile hw => List.mem_filterMap.mpr ⟨_, hfile, hw⟩
  refine ⟨fun file hfile p target hp htarget => ?_, fun file hfile hp => ?_,
    fun file hfile place hplace => ?_, fun place hplace => ?_⟩
  · rcases (h.drafted hfile).deposit_cases with
      ⟨-, hno, -⟩ | ⟨w, p', target', hw, hp', hstored, hlocate⟩
    · cases htarget.symm.trans (hno p hp)
    · obtain rfl := Except.ok.inj (hp.symm.trans hp'.1)
      obtain rfl := Option.some.inj (htarget.symm.trans hp'.2)
      have hextends := hlaid.extends_of_mem (h.admits fun _ hf => hf) (hmem hfile hw) hstored
      exact ⟨w.bytes, Disk.read_of_locate? hlocate hstored.place,
        Disk.read_of_locate? (hextends.locate? hlocate) (hlaid.places w (hmem hfile hw))⟩
  · rcases (h.drafted hfile).deposit_cases with ⟨-, -, heq⟩ | ⟨w, p, target, -, hwritten, -⟩
    · exact heq
    · cases hwritten.2.symm.trans (hp p hwritten.1)
  · rcases (h.drafted hfile).deposit_cases with ⟨-, -, heq⟩ | ⟨w, -, -, hw, -, hstored, -⟩
    · exact absurd (congrArg (Disk.node? · place) heq) hplace
    · refine hlaid.node?_eq (hmem hfile hw) hstored ?_
      by_contra hno
      rw [not_or] at hno
      exact hplace (hstored.rest place hno.1 hno.2)
  · obtain ⟨w, hw, hway⟩ := hlaid.exists_of_ne hplace
    obtain ⟨file, hfile, hdeposit⟩ := List.mem_filterMap.mp hw
    obtain ⟨hwritten, hstored⟩ := h.stored hfile hdeposit
    exact ⟨file, hfile, hwritten, hlaid.node?_eq hw hstored hway⟩

/-! ## Folders -/

/-- A disk with two scripts in a folder, of which only the second can be declared. -/
private def twoScripts : Disk where
  nodes := [(["s"], .folder), (["s", "a.js"], .file (Text.Utf8.encode "/** @const */goog.c")),
    (["s", "b.js"], .file (Text.Utf8.encode "/** @enum */goog.E=\x7ba:1\x7d"))]
  current := []

/-- The standard settings without patterns of files that are left out. -/
private def allFiles : Settings := { Settings.standard with excludePatterns := [] }

/-- What is wrong with the first of two scripts. -/
private def missingConst : ModuleError := ⟨.missingType ["const"], 1, "goog.c", some "a.js"⟩

/-- What is written for the second of two scripts. -/
private def enumText : String :=
  "declare module goog \x7b\n    /**\n     * @enum\n     */\n    enum E \x7b a \x7d\n\x7d\n"

private theorem draftOf_twoScripts_first :
    draftOf allFiles twoScripts "/s/a.js" "o" (some "/s") = .error (.module missingConst) := by
  have hread : twoScripts.read (twoScripts.absolute "/s/a.js") =
      .ok (Text.Utf8.encode "/** @const */goog.c") := by rfl
  have hdecode : Text.Utf8.decodeLossy (Text.Utf8.encode "/** @const */goog.c") =
      "/** @const */goog.c".toList := by cbv
  rw [draftOf_of_read (by decide +kernel) (by decide +kernel) hread, draft,
    Script.Program.ofBytes, hdecode]
  decide +kernel

private theorem draftOf_twoScripts_second :
    draftOf allFiles twoScripts "/s/b.js" "o" (some "/s") =
      .ok ⟨⟨some "o/b.d.ts", 1, 0, 0⟩, enumText⟩ := by
  have hread : twoScripts.read (twoScripts.absolute "/s/b.js") =
      .ok (Text.Utf8.encode "/** @enum */goog.E=\x7ba:1\x7d") := by rfl
  have hdecode : Text.Utf8.decodeLossy (Text.Utf8.encode "/** @enum */goog.E=\x7ba:1\x7d") =
      "/** @enum */goog.E=\x7ba:1\x7d".toList := by cbv
  rw [draftOf_of_read (by decide +kernel) (by decide +kernel) hread, draft,
    Script.Program.ofBytes, hdecode]
  decide +kernel

private theorem run_twoScripts_first :
    (declareFile allFiles "/s/a.js" "o" (some "/s")).run twoScripts =
      (.error (.module missingConst), twoScripts) := by
  rw [run_declareFile, draftOf_twoScripts_first]

private theorem run_twoScripts_second :
    ∃ e, (declareFile allFiles "/s/b.js" "o" (some "/s")).run twoScripts =
      (.ok ⟨some "o/b.d.ts", 1, 0, 0⟩, e) := by
  obtain ⟨m, hfolders, hwrite⟩ : ∃ m, twoScripts.makeFolders "o" = .ok m ∧
      ∀ bytes, ∃ e, m.write "o/b.d.ts" bytes = .ok e := ⟨_, rfl, fun _ => ⟨_, rfl⟩⟩
  obtain ⟨e, he⟩ := hwrite (Text.Utf8.encode enumText)
  have hfolder : Path.orHere (Path.folder "o/b.d.ts") = "o" := by decide +kernel
  refine ⟨e, ?_⟩
  rw [run_declareFile, draftOf_twoScripts_second]
  dsimp only [Draft.write]
  rw [hfolder, Work.run_writeUnder, hfolders]
  dsimp only
  rw [he]

end Ambient.Batch
