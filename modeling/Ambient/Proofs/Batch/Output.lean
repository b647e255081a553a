import Ambient.Proofs.Batch.Discovery

/-!
# Declarations stand apart

The declarations of a script stand below the output folder where the script stands below its root.
The end of the name tells them from the script, and what is in front of it from those of all other
scripts, so that nothing that is written takes the place of something else.

* `Placed`, `Below.exists_placed`: the way from the output folder down to the declarations;
* **`declarationPath_apart`**: no two scripts have their declarations at one path or one place.
-/

namespace Ambient.Batch

open Ambient.Files
open Ambient.Files.Path (IsPlain Normal)

variable {d : Disk} {lead folder file : String} {ns : List String}

/-- A path that leads down from an output folder to declarations, through the folders that stand
above another path. -/
structure Placed (output inside target way : String) : Prop where
  target_eq : target = Path.join output way
  down : Path.isAbsolute way = false
  upless : ".." ∉ Path.names way
  folder_eq : Path.folder way = Path.folder inside
  exists_stem : ∃ stem, way = stem ++ ".d.ts"

theorem Below.exists_placed {above : List String} {name : String}
    (h : Below d lead ns above name file) (hfolder : Normal lead ns folder)
    (current output : String) : ∃ way, Placed output (Path.relative current file folder)
      (declarationPath current file folder output) way := by
  have hplain := h.plain
  rw [List.forall_mem_append, List.forall_mem_singleton] at hplain
  have hname := isPlain_declarationName hplain.2
  have hway : ∀ n ∈ above ++ [declarationName name], IsPlain n :=
    List.forall_mem_append.mpr ⟨hplain.1, List.forall_mem_singleton.mpr hname⟩
  have hne : above ++ [declarationName name] ≠ [] := List.concat_ne_nil _ _
  refine ⟨Path.ofNames (above ++ [declarationName name]), ?_⟩
  constructor
  · exact h.declarationPath_eq hfolder current output
  · exact Path.isAbsolute_ofNames hne hway
  · rw [Path.names_ofNames hne hway]
    exact fun hup => (hway _ hup).2.1 rfl
  · rw [h.relative_eq hfolder, Path.folder_ofNames hplain.1 hname.2.2,
      Path.folder_ofNames hplain.1 hplain.2.2.2]
  · exact ⟨_, Path.ofNames_concat_append above _ _⟩

/-- **Declarations stand apart.** Different scripts of a folder have their declarations at different
paths, which lead to different places, and each of these paths leads down from the output folder
through the folders that lead to the script. -/
theorem declarationPath_apart (hd : d.Proper) (patterns : List String) (folder output : String) :
    let target := fun file => declarationPath d.currentPath file folder output
    (∀ file ∈ discover d patterns folder, ∀ file' ∈ discover d patterns folder, file ≠ file' →
        target file ≠ target file' ∧
          Disk.follow (d.start (target file)) (Path.names (target file)) ≠
            Disk.follow (d.start (target file')) (Path.names (target file'))) ∧
      ∀ file ∈ discover d patterns folder, ∃ way,
        Placed output (Path.relative d.currentPath file folder) (target file) way := by
  obtain ⟨lead, ns, hfolder⟩ := exists_normal_absolute hd folder
  have hbelow : ∀ file ∈ discover d patterns folder,
      ∃ above name, Below d lead ns above name file := by
    intro file hfile
    rw [← discover_absolute hd] at hfile
    obtain ⟨above, name, h, -⟩ := exists_below_of_mem_discover hd hfolder hfile
    exact ⟨above, name, h⟩
  simp only [← declarationPath_absolute hd _ folder, ← relative_absolute hd _ folder]
  constructor
  · intro file hfile file' hfile' hne
    obtain ⟨above, name, h⟩ := hbelow file hfile
    obtain ⟨above', name', h'⟩ := hbelow file' hfile'
    -- Different places suffice, for a path leads to one place only.
    have hplaces : Disk.follow (d.start output) (Path.names output) ++
        (above ++ [declarationName name]) ≠
        Disk.follow (d.start output) (Path.names output) ++ (above' ++ [declarationName name']) :=
      fun heq => hne (h.file_inj h' (List.append_cancel_left heq))
    rw [← h.follow_declarationPath hfolder d.currentPath,
      ← h'.follow_declarationPath hfolder d.currentPath] at hplaces
    exact ⟨fun heq => hplaces (by rw [heq]), hplaces⟩
  · intro file hfile
    obtain ⟨above, name, h⟩ := hbelow file hfile
    exact h.exists_placed hfolder d.currentPath output

/-- A disk with scripts whose names hold the ends of names of declarations. -/
private def nearScripts : Disk where
  nodes := [(["s"], .folder), (["s", "a.js"], .file []), (["s", "a.d.js"], .file []),
    (["s", "t"], .folder), (["s", "t", ".d.ts.js"], .file [])]
  current := ["s"]

private theorem mem_nearScripts (names : List String)
    (h : names ∈ sourcesBelow nearScripts "/s") :
    Path.join "/s" (Path.ofNames names) ∈ discover nearScripts [] "../s" := by
  have hfolder : nearScripts.absolute "../s" = "/s" := by decide +kernel
  rw [mem_discover_iff, hfolder]
  exact ⟨⟨names, h, rfl⟩, rfl⟩

/-- Scripts whose names hold the ends of names of declarations. -/
theorem declarationPath_apart_near : nearScripts.Proper ∧
    (∀ file ∈ ["/s/a.js", "/s/a.d.js", "/s/t/.d.ts.js"], file ∈ discover nearScripts [] "../s") ∧
    declarationPath "/s" "/s/a.js" "../s" "o" = "o/a.d.ts" ∧
    declarationPath "/s" "/s/a.d.js" "../s" "o" = "o/a.d.d.ts" ∧
    declarationPath "/s" "/s/t/.d.ts.js" "../s" "o" = "o/t/.d.ts.d.ts" ∧
    declarationPath "/s" "/s/a.js" "../s" "o" ≠ declarationPath "/s" "/s/a.d.js" "../s" "o" ∧
    ∃ way, Placed "o" "t/.d.ts.js" (declarationPath "/s" "/s/t/.d.ts.js" "../s" "o") way := by
  have hproper : nearScripts.Proper := by decide +kernel
  have hfirst : "/s/a.js" ∈ discover nearScripts [] "../s" :=
    mem_nearScripts ["a.js"] (by decide +kernel)
  have hsecond : "/s/a.d.js" ∈ discover nearScripts [] "../s" :=
    mem_nearScripts ["a.d.js"] (by decide +kernel)
  have hthird : "/s/t/.d.ts.js" ∈ discover nearScripts [] "../s" :=
    mem_nearScripts ["t", ".d.ts.js"] (by decide +kernel)
  have hcurrent : nearScripts.currentPath = "/s" := by decide +kernel
  have hinside : Path.relative "/s" "/s/t/.d.ts.js" "../s" = "t/.d.ts.js" := by decide +kernel
  obtain ⟨hapart, hplaced⟩ := declarationPath_apart hproper [] "../s" "o"
  rw [hcurrent] at hapart hplaced
  have hway := hplaced _ hthird
  rw [hinside] at hway
  refine ⟨hproper, by simp [hfirst, hsecond, hthird], by decide +kernel, by decide +kernel,
    by decide +kernel, (hapart _ hfirst _ hsecond (by decide)).1, hway⟩

end Ambient.Batch
