import Ambient.Proofs.Batch.Discovery
import Ambient.Proofs.Text.Glob
import Ambient.Proofs.Text.Order
import Ambient.Settings.Basic

/-!
# One tree at two places

Patterns are matched against absolute paths, so what is left out depends on the folders that a tree
stands in, and on the name of its own top: `*/goog/testing/*` reaches the folder `testing` of a tree
whose top is `goog`. What is discovered is nevertheless read off one list that only the tree
determines, and the standard patterns see little of a place.

* `scriptPaths`, `scriptPaths_congr`: the scripts of a tree, in order, whatever stands above it;
* `discover_eq`, `found_eq`: what is discovered of them;
* `LeftOut`, **`isExcluded_standard_iff`**: the standard patterns, said of the names on a path;
* `leftOut_append_iff`, `SeenAlike`, **`seenAlike_iff`**: what a place adds, and the places that are
  seen alike;
* **`found_moved`**: one tree at two places.
-/

namespace Ambient.Batch

open Ambient.Files
open Ambient.Files.Path (IsPlain Normal)

variable {d : Disk} {lead folder path : String} {ns names : List String}

/-! ## The scripts of a tree -/

/-- What stands below a place, each with the names that lead there from it. -/
abbrev Tree := List (List String × Node)

/-- The paths of the scripts of a tree from its top, in order. -/
def scriptPaths (tree : Tree) : List String :=
  Text.sorted <| List.map Path.ofNames <| List.filter isFound <| tree.filterMap fun n =>
    match n.2 with
    | .file _ => some n.1
    | .folder => none

/-- The order in which a tree is listed is no matter. -/
theorem scriptPaths_congr {tree tree' : Tree} (h : tree.Perm tree') :
    scriptPaths tree = scriptPaths tree' :=
  Text.sorted_congr (((h.filterMap _).filter isFound).map Path.ofNames)

theorem scriptPaths_below (hfolder : Normal lead ns folder) :
    scriptPaths (d.below ns) = Text.sorted ((sourcesBelow d folder).map Path.ofNames) := by
  rw [sourcesBelow, hfolder.filter_names]
  rfl

theorem exists_names_of_mem_scriptPaths (hd : d.Proper) (hpath : path ∈ scriptPaths (d.below ns)) :
    ∃ names, path = Path.ofNames names ∧ names ≠ [] ∧ ∀ n ∈ names, IsPlain n := by
  rw [scriptPaths, Text.mem_sorted] at hpath
  obtain ⟨names, hnames, rfl⟩ := List.mem_map.mp hpath
  obtain ⟨hne, hplain, -⟩ := hd.file_of_mem_filesBelow (List.mem_filter.mp hnames).1
  exact ⟨names, rfl, hne, hplain⟩

/-- Paths that lead down are joined to a base by putting the same text in front. -/
theorem exists_join_eq (base : String) : ∃ front, ∀ path, Path.isAbsolute path = false →
    Path.join base path = front ++ path := by
  by_cases hend : (base.isEmpty || base.toList.getLast? = some '/') = true
  · exact ⟨base, fun path h => by rw [Path.join, h, if_neg Bool.false_ne_true, if_pos hend]⟩
  · exact ⟨base ++ "/", fun path h => by
      rw [Path.join, h, if_neg Bool.false_ne_true, if_neg hend]⟩

/-- Joining keeps the order of paths. -/
theorem sorted_map_join (base : String) {paths : List String}
    (h : ∀ path ∈ paths, Path.isAbsolute path = false) :
    Text.sorted (paths.map (Path.join base)) = (Text.sorted paths).map (Path.join base) := by
  obtain ⟨front, hfront⟩ := exists_join_eq base
  have hmap : ∀ {texts : List String}, (∀ path ∈ texts, Path.isAbsolute path = false) →
      texts.map (Path.join base) = texts.map (front ++ ·) :=
    fun htexts => List.map_congr_left fun path hpath => hfront path (htexts path hpath)
  rw [hmap h, hmap fun path hpath => h path (Text.mem_sorted.mp hpath), Text.sorted_map_append]

/-- **What is discovered** are the scripts of the tree that no pattern matches where they stand. -/
theorem discover_eq (hd : d.Proper) (hfolder : Normal lead ns (d.absolute folder))
    (patterns : List String) :
    discover d patterns folder = ((scriptPaths (d.below ns)).filter fun path =>
      !isExcluded patterns (Path.join (d.absolute folder) path)).map
        (Path.join (d.absolute folder)) := by
  have hdown : ∀ path ∈ ((sourcesBelow d (d.absolute folder)).map Path.ofNames).filter fun path =>
      !isExcluded patterns (Path.join (d.absolute folder) path), Path.isAbsolute path = false := by
    intro path hpath
    have hmem : path ∈ scriptPaths (d.below ns) := by
      rw [scriptPaths_below hfolder]
      exact Text.mem_sorted.mpr (List.mem_filter.mp hpath).1
    obtain ⟨names, rfl, hne, hplain⟩ := exists_names_of_mem_scriptPaths hd hmem
    exact Path.isAbsolute_ofNames hne hplain
  rw [scriptPaths_below hfolder, Text.filter_sorted, ← sorted_map_join _ hdown, discover,
    ← Function.comp_def (Path.join _), ← List.map_map, List.filter_map]
  rfl

theorem relative_join (hd : d.Proper) (hfolder : Normal lead ns (d.absolute folder))
    (hpath : path ∈ scriptPaths (d.below ns)) :
    Path.relative d.currentPath (Path.join (d.absolute folder) path) folder = path := by
  obtain ⟨names, rfl, hne, hplain⟩ := exists_names_of_mem_scriptPaths hd hpath
  rw [← relative_absolute hd]
  exact Path.relative_normal hfolder (hfolder.join hne hplain) hne _

/-- What is discovered, as paths from the top of the tree. -/
def found (d : Disk) (patterns : List String) (folder : String) : List String :=
  (discover d patterns folder).map fun file => Path.relative d.currentPath file folder

theorem found_eq (hd : d.Proper) (hfolder : Normal lead ns (d.absolute folder))
    (patterns : List String) :
    found d patterns folder = (scriptPaths (d.below ns)).filter fun path =>
      !isExcluded patterns (Path.join (d.absolute folder) path) := by
  rw [found, discover_eq hd hfolder, List.map_map]
  calc
    _ = ((scriptPaths (d.below ns)).filter fun path =>
        !isExcluded patterns (Path.join (d.absolute folder) path)).map id := by
      apply List.map_congr_left
      intro path hpath
      rw [Function.comp_apply, id_eq]
      exact relative_join hd hfolder (List.mem_filter.mp hpath).1
    _ = _ := List.map_id _

/-! ## What the standard patterns leave out -/

/-- The folders that hold nothing to read, with what they have to stand in. -/
def hiddenFolders : List (List String) := [["demos"], ["goog", "result"], ["goog", "testing"]]

/-- Some names in a row lead to a folder that holds nothing to read. -/
def Hidden (ns : List String) : Prop := ∃ words ∈ hiddenFolders, words <:+: ns

instance : DecidablePred Hidden := fun ns =>
  inferInstanceAs (Decidable (∃ words ∈ hiddenFolders, words <:+: ns))

/-- The script that stands in for a frame. -/
def mockFrame : List String := ["goog", "net", "mockiframeio.js"]

/-- The names that lead from the top to a file that the standard patterns leave out: a test, what
stands in a folder that holds nothing to read, or the mock of a frame. -/
def LeftOut (ns : List String) : Prop :=
  (∃ name ∈ ns.getLast?, "_test.js".toList <:+ name.toList) ∨ Hidden ns.dropLast ∨ mockFrame <:+ ns

instance : DecidablePred LeftOut := fun ns =>
  inferInstanceAs (Decidable ((∃ name ∈ ns.getLast?, "_test.js".toList <:+ name.toList) ∨
    Hidden ns.dropLast ∨ mockFrame <:+ ns))

theorem infix_dropLast_iff {words : List String} (hne : words ≠ []) :
    words <:+: ns.dropLast ↔ ∃ after, after ≠ [] ∧ words ++ after <:+ ns := by
  constructor
  · rintro ⟨before, after, heq⟩
    have hns : ns ≠ [] := by
      rintro rfl
      simp [hne] at heq
    refine ⟨after ++ [ns.getLast hns], List.concat_ne_nil _ _, before, ?_⟩
    rw [← List.append_assoc, ← List.append_assoc, heq, List.dropLast_append_getLast]
  · rintro ⟨after, hafter, before, rfl⟩
    rw [← List.append_assoc, List.dropLast_append_of_ne_nil hafter]
    exact ⟨before, after.dropLast, rfl⟩

/-- The pattern of what stands in a folder. -/
def folderPattern (words : List String) : String := "*" ++ ("/" ++ Path.ofNames words ++ "/" ++ "*")

/-- The pattern of a file. -/
def filePattern (words : List String) : String := "*" ++ ("/" ++ Path.ofNames words)

theorem standardPatterns_eq : Settings.standardPatterns =
    ["*" ++ "_test.js"] ++ hiddenFolders.map folderPattern ++ [filePattern mockFrame] := by
  decide +kernel

theorem globMatch_folderPattern_iff (h : Normal lead ns path) {words : List String}
    (hne : words ≠ []) (hplain : ∀ n ∈ words, IsPlain n)
    (hsigns : Text.Signless ("/" ++ Path.ofNames words ++ "/")) :
    Text.globMatch (folderPattern words) path = true ↔ words <:+: ns.dropLast := by
  obtain ⟨word, later, rfl⟩ := List.exists_cons_of_ne_nil hne
  have hword : word ≠ "" := (hplain word List.mem_cons_self).ne_empty
  rw [folderPattern, Text.globMatch_between_iff hsigns,
    Path.infix_toList_iff hne fun n hn => (hplain n hn).2.2, infix_dropLast_iff hne]
  constructor
  · rintro ⟨before, after, hbefore, hafter, heq⟩
    exact ⟨after, hafter, (h.exists_before_iff hword).mp ⟨before, hbefore, heq⟩⟩
  · rintro ⟨after, hafter, hend⟩
    obtain ⟨before, hbefore, heq⟩ := (h.exists_before_iff hword).mpr hend
    exact ⟨before, after, hbefore, hafter, heq⟩

theorem globMatch_filePattern_iff (h : Normal lead ns path) {words : List String}
    (hne : words ≠ []) (hplain : ∀ n ∈ words, IsPlain n)
    (hsigns : Text.Signless ("/" ++ Path.ofNames words)) :
    Text.globMatch (filePattern words) path = true ↔ words <:+ ns := by
  obtain ⟨word, later, rfl⟩ := List.exists_cons_of_ne_nil hne
  rw [filePattern, Text.globMatch_behind_iff hsigns,
    Path.suffix_toList_iff hne fun n hn => (hplain n hn).2.2]
  exact h.exists_before_iff (hplain word List.mem_cons_self).ne_empty

theorem globMatch_name_iff (h : Normal lead ns path) (hne : ns ≠ []) {ending : String}
    (hsigns : Text.Signless ending) (hslash : '/' ∉ ending.toList) :
    Text.globMatch ("*" ++ ending) path = true ↔
      ∃ name ∈ ns.getLast?, ending.toList <:+ name.toList := by
  obtain ⟨above, name, rfl⟩ := (List.eq_nil_or_concat' ns).resolve_left hne
  rw [Text.globMatch_behind_iff hsigns, h.suffix_iff hslash, List.getLast?_concat]
  simp

theorem readable_hiddenFolders : ∀ words ∈ hiddenFolders, words ≠ [] ∧
    (∀ n ∈ words, IsPlain n) ∧ Text.Signless ("/" ++ Path.ofNames words ++ "/") := by
  decide +kernel

/-- **The standard patterns**, said of the names that lead to a file. -/
theorem isExcluded_standard_iff (h : Normal lead ns path) (hne : ns ≠ []) :
    isExcluded Settings.standardPatterns path = true ↔ LeftOut ns := by
  have hhidden : (hiddenFolders.map folderPattern).any (fun p => Text.globMatch p path) = true ↔
      Hidden ns.dropLast := by
    rw [List.any_map, List.any_eq_true, Hidden]
    refine exists_congr fun words => and_congr_right fun hwords => ?_
    obtain ⟨hwordsne, hplain, hsigns⟩ := readable_hiddenFolders words hwords
    exact globMatch_folderPattern_iff h hwordsne hplain hsigns
  rw [isExcluded, standardPatterns_eq]
  simp only [List.any_append, List.any_cons, List.any_nil, Bool.or_false, Bool.or_eq_true]
  rw [hhidden, globMatch_name_iff h hne (by decide) (by decide),
    globMatch_filePattern_iff h (by decide) (by decide) (by decide), or_assoc, LeftOut]

/-! ## What the standard patterns see of a place -/

theorem pair_infix_append_iff {α : Type*} {v w : α} {xs ys : List α} :
    [v, w] <:+: xs ++ ys ↔ [v, w] <:+: xs ∨ [v, w] <:+: ys ∨ [v] <:+ xs ∧ [w] <+: ys := by
  rw [List.infix_append_iff]
  constructor
  · rintro (hxs | hys | ⟨front, rest, heq, hfront, hrest⟩)
    · exact Or.inl hxs
    · exact Or.inr (Or.inl hys)
    · -- The pair is cut in front of its first member, between its members, or behind its last one.
      simp only [List.cons_eq_append_iff, List.nil_eq_append_iff] at heq
      obtain ⟨rfl, rfl⟩ | ⟨_, rfl, ⟨rfl, rfl⟩ | ⟨_, rfl, rfl, rfl⟩⟩ := heq
      · exact Or.inr (Or.inl hrest.isInfix)
      · exact Or.inr (Or.inr ⟨hfront, hrest⟩)
      · exact Or.inl hfront.isInfix
  · rintro (hxs | hys | ⟨hfront, hrest⟩)
    · exact Or.inl hxs
    · exact Or.inr (Or.inl hys)
    · exact Or.inr (Or.inr ⟨[v], [w], rfl, hfront, hrest⟩)

theorem suffix_append_iff {α : Type*} {l xs ys : List α} :
    l <:+ xs ++ ys ↔ l <:+ ys ∨ ∃ front, l = front ++ ys ∧ front <:+ xs := by
  constructor
  · rintro ⟨before, heq⟩
    rcases List.append_eq_append_iff.mp heq with ⟨front, rfl, rfl⟩ | ⟨rest, rfl, rfl⟩
    · exact Or.inr ⟨front, rfl, List.suffix_append _ _⟩
    · exact Or.inl (List.suffix_append _ _)
  · rintro (hys | ⟨front, rfl, hfront⟩)
    · exact hys.trans (List.suffix_append _ _)
    · exact (List.suffix_append_inj_of_length_eq rfl).mpr ⟨hfront, rfl⟩

theorem hidden_append_iff : Hidden (ns ++ names) ↔ Hidden ns ∨ Hidden names ∨
    ["goog"] <:+ ns ∧ (["result"] <+: names ∨ ["testing"] <+: names) := by
  simp only [Hidden, hiddenFolders, List.mem_cons, List.not_mem_nil, or_false, exists_eq_or_imp,
    exists_eq_left, pair_infix_append_iff, List.singleton_infix_iff, List.mem_append]
  tauto

theorem mockFrame_suffix_append_iff (hne : names ≠ []) : mockFrame <:+ ns ++ names ↔
    mockFrame <:+ names ∨ ["goog"] <:+ ns ∧ names = ["net", "mockiframeio.js"] ∨
      ["goog", "net"] <:+ ns ∧ names = ["mockiframeio.js"] := by
  rw [suffix_append_iff]
  constructor
  · rintro (hend | ⟨front, heq, hfront⟩)
    · exact Or.inl hend
    · simp only [mockFrame, List.cons_eq_append_iff, List.nil_eq_append_iff] at heq
      obtain ⟨rfl, rfl⟩ | ⟨_, rfl, ⟨rfl, rfl⟩ | ⟨_, rfl, ⟨rfl, rfl⟩ | ⟨_, rfl, rfl, rfl⟩⟩⟩ := heq
      · exact Or.inl List.suffix_rfl
      · exact Or.inr (Or.inl ⟨hfront, rfl⟩)
      · exact Or.inr (Or.inr ⟨hfront, rfl⟩)
      · exact absurd rfl hne
  · rintro (hend | ⟨hfront, rfl⟩ | ⟨hfront, rfl⟩)
    · exact Or.inl hend
    · exact Or.inr ⟨["goog"], rfl, hfront⟩
    · exact Or.inr ⟨["goog", "net"], rfl, hfront⟩

/-- What a place adds to what is left out of a tree: everything, if the place is hidden itself, and
what the end of the place and the beginning of the way down make up together. -/
theorem leftOut_append_iff (hne : names ≠ []) : LeftOut (ns ++ names) ↔
    Hidden ns ∨ LeftOut names ∨
      ["goog"] <:+ ns ∧ (["result"] <+: names.dropLast ∨ ["testing"] <+: names.dropLast ∨
        names = ["net", "mockiframeio.js"]) ∨
      ["goog", "net"] <:+ ns ∧ names = ["mockiframeio.js"] := by
  rw [LeftOut, LeftOut, List.getLast?_append_of_ne_nil _ hne, List.dropLast_append_of_ne_nil hne,
    hidden_append_iff, mockFrame_suffix_append_iff hne]
  simp only [and_or_left, or_assoc, or_left_comm]

/-- The standard patterns see two places alike: both hide everything, or neither does and they end
alike as far as the patterns look beyond a name. -/
structure SeenAlike (ns ns' : List String) : Prop where
  hidden : Hidden ns ↔ Hidden ns'
  goog : ¬ Hidden ns → (["goog"] <:+ ns ↔ ["goog"] <:+ ns')
  net : ¬ Hidden ns → (["goog", "net"] <:+ ns ↔ ["goog", "net"] <:+ ns')

theorem SeenAlike.leftOut_iff {ns' : List String} (h : SeenAlike ns ns') (hne : names ≠ []) :
    LeftOut (ns ++ names) ↔ LeftOut (ns' ++ names) := by
  rw [leftOut_append_iff hne, leftOut_append_iff hne, ← h.hidden]
  by_cases hhidden : Hidden ns
  · simp only [hhidden, true_or]
  · rw [h.goog hhidden, h.net hhidden]

/-- **Places that are seen alike** are those where the same scripts are left out of every tree. -/
theorem seenAlike_iff {ns' : List String} : SeenAlike ns ns' ↔
    ∀ names, isFound names = true → (∀ n ∈ names, IsPlain n) →
      (LeftOut (ns ++ names) ↔ LeftOut (ns' ++ names)) := by
  constructor
  · intro h names hfound _
    refine h.leftOut_iff ?_
    rintro rfl
    cases hfound
  · intro h
    have hown : ¬ LeftOut ["a.js"] ∧ ¬ LeftOut ["result", "a.js"] ∧
        ¬ LeftOut ["mockiframeio.js"] := by decide +kernel
    obtain ⟨hscript, hresult, hmock⟩ := hown
    have hhidden : Hidden ns ↔ Hidden ns' := by
      simpa [leftOut_append_iff, hscript] using h ["a.js"] (by decide +kernel) (by decide +kernel)
    -- One script for each way in which the end of a place counts.
    refine ⟨hhidden, fun hns => ?_, fun hns => ?_⟩
    · simpa [leftOut_append_iff, hresult, hns, ← hhidden] using
        h ["result", "a.js"] (by decide +kernel) (by decide +kernel)
    · simpa [leftOut_append_iff, hmock, hns, ← hhidden] using
        h ["mockiframeio.js"] (by decide +kernel) (by decide +kernel)

/-! ## One tree at two places -/

theorem found_standard_eq (hd : d.Proper) (hfolder : Normal lead ns (d.absolute folder)) :
    found d Settings.standardPatterns folder = (scriptPaths (d.below ns)).filter fun path =>
      ¬ LeftOut (ns ++ Path.names path) := by
  rw [found_eq hd hfolder]
  refine List.filter_congr fun path hpath => ?_
  obtain ⟨names, rfl, hne, hplain⟩ := exists_names_of_mem_scriptPaths hd hpath
  have hnormal := hfolder.join hne hplain
  rw [Path.names_ofNames hne hplain, Bool.eq_iff_iff, Bool.not_eq_true', ← Bool.not_eq_true,
    isExcluded_standard_iff hnormal (List.append_ne_nil_of_right_ne_nil _ hne), decide_eq_true_iff]

/-- **One tree at two places.** What is discovered of it at either place is read off one list, which
the tree determines; it is the same if the standard patterns see the places alike, and if they do
not, there is a script that is left out at one of them only. -/
theorem found_moved {d' : Disk} {lead' folder' : String} {ns' : List String} (hd : d.Proper)
    (hd' : d'.Proper) (hfolder : Normal lead ns (d.absolute folder))
    (hfolder' : Normal lead' ns' (d'.absolute folder'))
    (htree : (d.below ns).Perm (d'.below ns')) :
    (found d Settings.standardPatterns folder = (scriptPaths (d.below ns)).filter fun path =>
        ¬ LeftOut (ns ++ Path.names path)) ∧
      (found d' Settings.standardPatterns folder' = (scriptPaths (d.below ns)).filter fun path =>
        ¬ LeftOut (ns' ++ Path.names path)) ∧
      (SeenAlike ns ns' → found d Settings.standardPatterns folder =
        found d' Settings.standardPatterns folder') ∧
      (¬ SeenAlike ns ns' → ∃ names, isFound names = true ∧ (∀ n ∈ names, IsPlain n) ∧
        ¬ (LeftOut (ns ++ names) ↔ LeftOut (ns' ++ names))) := by
  have hplace := found_standard_eq hd hfolder
  have hplace' := found_standard_eq hd' hfolder'
  rw [← scriptPaths_congr htree] at hplace'
  refine ⟨hplace, hplace', fun hseen => ?_, fun hseen => ?_⟩
  · rw [hplace, hplace']
    refine List.filter_congr fun path hpath => ?_
    obtain ⟨names, rfl, hne, hplain⟩ := exists_names_of_mem_scriptPaths hd hpath
    rw [Path.names_ofNames hne hplain, decide_eq_decide, hseen.leftOut_iff hne]
  · by_contra hall
    exact hseen <| seenAlike_iff.mpr fun names hfound hplain =>
      by_contra fun hdiffer => hall ⟨names, hfound, hplain, hdiffer⟩

/-- A disk with one tree at two places, both named `goog`. -/
private def twoCopies : Disk where
  nodes := [(["a"], .folder), (["a", "goog"], .folder), (["a", "goog", "testing"], .folder),
    (["a", "goog", "testing", "t.js"], .file []), (["a", "goog", "b.js"], .file []),
    (["a", "goog", "b_test.js"], .file []), (["a", "goog", "B.js"], .file []),
    (["goog"], .folder), (["goog", "B.js"], .file []), (["goog", "b.js"], .file []),
    (["goog", "b_test.js"], .file []), (["goog", "testing"], .folder),
    (["goog", "testing", "t.js"], .file [])]
  current := ["a"]

private theorem scriptPaths_twoCopies : scriptPaths (twoCopies.below ["a", "goog"]) =
    ["B.js", "b.js", "b_test.js", "testing/t.js"] :=
  Text.sorted_eq_of_perm (by decide +kernel) (by decide +kernel)

/-- One tree at two places that are seen alike. -/
theorem found_moved_twice : twoCopies.Proper ∧
    (twoCopies.below ["a", "goog"]).Perm (twoCopies.below ["goog"]) ∧
    found twoCopies Settings.standardPatterns "goog" = ["B.js", "b.js"] ∧
    found twoCopies Settings.standardPatterns "../goog" = ["B.js", "b.js"] := by
  have hproper : twoCopies.Proper := by decide +kernel
  have htree : (twoCopies.below ["a", "goog"]).Perm (twoCopies.below ["goog"]) := by
    decide +kernel
  have hfolder : Normal "/" ["a", "goog"] (twoCopies.absolute "goog") :=
    ⟨by decide, by decide, by decide +kernel⟩
  have hfolder' : Normal "/" ["goog"] (twoCopies.absolute "../goog") :=
    ⟨by decide, by decide, by decide +kernel⟩
  obtain ⟨hplace, -, hseen, -⟩ := found_moved hproper hproper hfolder hfolder' htree
  have hfound : found twoCopies Settings.standardPatterns "goog" = ["B.js", "b.js"] := by
    rw [hplace, scriptPaths_twoCopies]
    decide +kernel
  have halike : SeenAlike ["a", "goog"] ["goog"] := by
    constructor <;> decide
  exact ⟨hproper, htree, hfound, (hseen halike).symm.trans hfound⟩

/-- A disk with one tree at two places, one of them among demos. -/
private def amongDemos : Disk where
  nodes := [(["demos"], .folder), (["demos", "lib"], .folder),
    (["demos", "lib", "a.js"], .file []), (["home"], .folder), (["home", "lib"], .folder),
    (["home", "lib", "a.js"], .file [])]
  current := []

/-- The same tree is read at one place and left out at the other. -/
theorem found_among_demos : amongDemos.Proper ∧
    amongDemos.below ["demos", "lib"] = amongDemos.below ["home", "lib"] ∧
    found amongDemos Settings.standardPatterns "/demos/lib" = [] ∧
    found amongDemos Settings.standardPatterns "/home/lib" = ["a.js"] := by
  have hproper : amongDemos.Proper := by decide +kernel
  have htree : amongDemos.below ["demos", "lib"] = amongDemos.below ["home", "lib"] := by
    decide +kernel
  have hdemos : Normal "/" ["demos", "lib"] (amongDemos.absolute "/demos/lib") :=
    ⟨by decide, by decide, by decide +kernel⟩
  have hhome : Normal "/" ["home", "lib"] (amongDemos.absolute "/home/lib") :=
    ⟨by decide, by decide, by decide +kernel⟩
  have hscripts : scriptPaths (amongDemos.below ["home", "lib"]) = ["a.js"] :=
    Text.sorted_eq_of_perm (by decide +kernel) (by decide +kernel)
  refine ⟨hproper, htree, ?_, ?_⟩
  · rw [found_standard_eq hproper hdemos, htree, hscripts]
    decide +kernel
  · rw [found_standard_eq hproper hhome, hscripts]
    decide +kernel

end Ambient.Batch
