import Ambient.Batch.Discovery
import Ambient.Batch.Output
import Ambient.Proofs.Files.Disk

/-!
# Discovered files and where their declarations go

A discovered file is a script at some place below the folder. The path of its declarations is read
off the names that lead to it, so that no two scripts share a place for their declarations, and no
script stands at such a place.

* `discover_absolute`, `declarationPath_absolute`, `relative_absolute`: a folder may be named by
  any path to it;
* `Below`: a script below a folder, with the names that lead to it;
* **`exists_below_of_mem_discover`**: what is discovered is a script below the folder;
* `declarationPath_eq`, `follow_declarationPath`: where its declarations go;
* `declarationName_inj`, `file_inj`, `declarationName_not_source`: declarations have names of their
  own.
-/

namespace Ambient.Batch

open Ambient.Files
open Ambient.Files.Path (IsPlain Normal)

variable {d : Disk} {lead folder file name : String} {ns above : List String}

/-! ## Names of declarations -/

/-- The last name of the declarations of a script. -/
def declarationName (name : String) : String :=
  Path.withoutExtension name ++ declarationExtension

theorem toList_append_js {name : String} (h : isSource name = true) :
    (Path.withoutExtension name).toList ++ ['.', 'j', 's'] = name.toList := by
  have hname := Path.withoutExtension_append name
  rw [of_decide_eq_true h] at hname
  conv_rhs => rw [← hname, String.toList_append]
  rfl

theorem toList_declarationName (name : String) : (declarationName name).toList =
    (Path.withoutExtension name).toList ++ ['.', 'd', '.', 't', 's'] := by
  rw [declarationName, String.toList_append]
  rfl

theorem declarationName_inj {name name' : String} (h : isSource name = true)
    (h' : isSource name' = true) (heq : declarationName name = declarationName name') :
    name = name' := by
  have hfront : Path.withoutExtension name = Path.withoutExtension name' :=
    (String.append_left_inj declarationExtension).mp heq
  rw [← String.toList_inj, ← toList_append_js h, ← toList_append_js h', hfront]

/-- No script is named as declarations are. -/
theorem declarationName_not_source (name : String) : isSource (declarationName name) = false := by
  rw [Bool.eq_false_iff]
  intro h
  have hchars := toList_append_js h
  rw [toList_declarationName] at hchars
  simpa using congrArg List.reverse hchars

theorem isPlain_declarationName (h : IsPlain name) : IsPlain (declarationName name) := by
  have hlength : (declarationName name).length =
      (Path.withoutExtension name).length + declarationExtension.length :=
    String.length_append _ _
  have hextension : declarationExtension.length = 5 := rfl
  have hshort : ∀ word : String, word.length < 5 → declarationName name ≠ word := by
    rintro word hword rfl
    omega
  refine ⟨?_, hshort ".." (by decide), ?_⟩
  · simp [Path.isIdle, hshort "" (by decide), hshort "." (by decide)]
  · rw [toList_declarationName, List.mem_append, not_or]
    refine ⟨fun hmem => h.2.2 ?_, by decide⟩
    rw [Path.withoutExtension, String.toList_ofList] at hmem
    exact List.mem_of_mem_take hmem

/-! ## The absolute path of a folder -/

theorem exists_normal_absolute (hd : d.Proper) (path : String) :
    ∃ lead ns, Normal lead ns (d.absolute path) :=
  hd.normal_currentPath.exists_absolute path

theorem absolute_absolute (hd : d.Proper) (path current : String) :
    Path.absolute current (d.absolute path) = d.absolute path := by
  obtain ⟨lead, ns, hnormal⟩ := exists_normal_absolute hd path
  exact hnormal.absolute_eq current

theorem discover_absolute (hd : d.Proper) (patterns : List String) (folder : String) :
    discover d patterns (d.absolute folder) = discover d patterns folder := by
  have htop : d.absolute (d.absolute folder) = d.absolute folder := absolute_absolute hd folder _
  rw [discover, discover, htop]

theorem declarationPath_absolute (hd : d.Proper) (file folder output : String) :
    declarationPath d.currentPath file (d.absolute folder) output =
      declarationPath d.currentPath file folder output := by
  unfold declarationPath
  rw [absolute_absolute hd, Disk.absolute]

theorem relative_absolute (hd : d.Proper) (file folder : String) :
    Path.relative d.currentPath file (d.absolute folder) =
      Path.relative d.currentPath file folder := by
  unfold Path.relative
  dsimp only
  rw [absolute_absolute hd, Disk.absolute]

/-! ## Scripts below a folder -/

/-- A script stands below a folder, and names lead there. -/
structure Below (d : Disk) (lead : String) (ns above : List String) (name file : String) :
    Prop where
  normal : Normal lead (ns ++ (above ++ [name])) file
  source : isSource name = true
  stored : ∃ bytes, d.node? (ns ++ (above ++ [name])) = some (.file bytes)

theorem mem_discover_iff {patterns : List String} : file ∈ discover d patterns folder ↔
    (∃ names ∈ sourcesBelow d (d.absolute folder),
      Path.join (d.absolute folder) (Path.ofNames names) = file) ∧
      isExcluded patterns file = false := by
  rw [discover, Text.sorted, List.mem_mergeSort, List.mem_filter, List.mem_map, Bool.not_eq_true']

/-- **What is discovered** is a script below the folder. -/
theorem exists_below_of_mem_discover {patterns : List String} (hd : d.Proper)
    (hfolder : Normal lead ns folder) (h : file ∈ discover d patterns folder) :
    ∃ above name, Below d lead ns above name file ∧
      file = Path.join folder (Path.ofNames (above ++ [name])) := by
  have htop : d.absolute folder = folder := hfolder.absolute_eq _
  rw [mem_discover_iff, htop] at h
  obtain ⟨⟨names, hnames, rfl⟩, -⟩ := h
  rw [sourcesBelow, List.mem_filter, hfolder.filter_names] at hnames
  obtain ⟨hbelow, hfound⟩ := hnames
  obtain ⟨hne, hplain, hstored⟩ := hd.file_of_mem_filesBelow hbelow
  obtain ⟨above, name, rfl⟩ := (List.eq_nil_or_concat' names).resolve_left hne
  rw [isFound, Bool.and_eq_true, List.getLast?_concat] at hfound
  exact ⟨above, name, ⟨hfolder.join hne hplain, hfound.2, hstored⟩, rfl⟩

namespace Below

variable (h : Below d lead ns above name file)

include h

theorem plain : ∀ n ∈ above ++ [name], IsPlain n :=
  fun n hn => h.normal.plain n (List.mem_append_right _ hn)

theorem isSource_file : isSource file = true := by
  have hfile : Path.fileName file = name := by
    have hnormal := h.normal
    rw [← List.append_assoc] at hnormal
    exact hnormal.fileName_eq
  have hslash : '/' ∉ name.toList := (h.plain name (List.mem_append_right _ List.mem_cons_self)).2.2
  have hextension := Path.extension_congr (hfile.trans (Path.fileName_of_plain hslash).symm)
  rw [isSource, hextension]
  exact h.source

theorem locate? (hd : d.Proper) : d.locate? file = .ok (ns ++ (above ++ [name])) := by
  obtain ⟨bytes, hstored⟩ := h.stored
  exact hd.locate?_normal h.normal hstored

theorem relative_eq (hfolder : Normal lead ns folder) (current : String) :
    Path.relative current file folder = Path.ofNames (above ++ [name]) :=
  Path.relative_normal hfolder h.normal (List.concat_ne_nil _ _) current

/-- The declarations of a script stand below the output folder as the script does below its root. -/
theorem declarationPath_eq (hfolder : Normal lead ns folder) (current output : String) :
    declarationPath current file folder output =
      Path.join output (Path.ofNames (above ++ [declarationName name])) := by
  have hslash : '/' ∉ name.toList := (h.plain name (List.mem_append_right _ List.mem_cons_self)).2.2
  unfold declarationPath
  dsimp only
  rw [h.normal.absolute_eq, hfolder.absolute_eq, h.relative_eq hfolder,
    Path.withoutExtension_concat hslash, declarationName, Path.ofNames_concat_append]

/-- Two scripts whose declarations are named alike are the same script. -/
theorem file_inj {above' : List String} {name' file' : String}
    (h' : Below d lead ns above' name' file')
    (heq : above ++ [declarationName name] = above' ++ [declarationName name']) : file = file' := by
  obtain ⟨rfl, hlast⟩ := List.append_singleton_inj.mp heq
  obtain rfl := declarationName_inj h.source h'.source hlast
  exact h.normal.eq.trans h'.normal.eq.symm

theorem follow_declarationPath (hfolder : Normal lead ns folder) (current output : String) :
    Disk.follow (d.start (declarationPath current file folder output))
        (Path.names (declarationPath current file folder output)) =
      Disk.follow (d.start output) (Path.names output) ++ (above ++ [declarationName name]) := by
  have hplain : ∀ n ∈ above ++ [declarationName name], IsPlain n := by
    have hall := h.plain
    rw [List.forall_mem_append, List.forall_mem_singleton] at hall ⊢
    exact ⟨hall.1, isPlain_declarationName hall.2⟩
  rw [h.declarationPath_eq hfolder, Disk.follow_join d output (List.concat_ne_nil _ _) hplain]

end Below

end Ambient.Batch
