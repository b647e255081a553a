import Ambient.Files.Disk
import Ambient.Proofs.Files.Path
import Ambient.Refusal
import Mathlib.Data.List.Induction

/-!
# What is written on a disk

To write a file under folders that are made for it is to put a file at one place and to see that
there are folders at others. Which places these are can be read off the paths, so that the same text
is stored in the same way on any two disks that take it.

* `Proper`: the disks that files and folders can make up;
* `follow`, `passed`: where a path leads, and the places on its way;
* `Proper.follow_absolute`, `Proper.names_of_isFile`: a path and its tidy form lead to one place;
* `Deposit`, `Stored`: a file and the folders for it, and what storing it does;
* `Laid`: a disk that holds the files of several deposits;
* **`stored_of_written`**: writing under new folders stores a deposit;
* **`Laid.concat`**: one deposit more;
* `Laid.extends_of_mem`, `read_of_locate?`: what is found on a disk is found after more deposits.
-/

namespace Ambient.Files.Disk

open Ambient.Files.Path (IsPlain Normal)

variable {d e f : Disk} {here place : Location} {path lead : String}

/-! ## Well-formed disks -/

/-- Every place is listed once, under names that lead down to it through folders. -/
structure Proper (d : Disk) : Prop where
  nodup : (d.nodes.map Prod.fst).Nodup
  plain : ∀ entry ∈ d.nodes, entry.1 ≠ [] ∧ ∀ name ∈ entry.1, IsPlain name
  parents : ∀ entry ∈ d.nodes, d.node? entry.1.dropLast = some .folder
  current : ∀ name ∈ d.current, IsPlain name

instance (d : Disk) : Decidable d.Proper :=
  decidable_of_iff ((d.nodes.map Prod.fst).Nodup ∧
      (∀ entry ∈ d.nodes, entry.1 ≠ [] ∧ ∀ name ∈ entry.1, IsPlain name) ∧
      (∀ entry ∈ d.nodes, d.node? entry.1.dropLast = some .folder) ∧
      ∀ name ∈ d.current, IsPlain name)
    ⟨fun ⟨h₁, h₂, h₃, h₄⟩ => ⟨h₁, h₂, h₃, h₄⟩, fun h => ⟨h.1, h.2, h.3, h.4⟩⟩

theorem node?_eq_lookup (h : place ≠ []) : d.node? place = d.nodes.lookup place := by
  rw [node?, if_neg (by simpa using h)]

theorem Proper.node?_of_mem (hd : d.Proper) {node : Node} (h : (place, node) ∈ d.nodes) :
    d.node? place = some node := by
  obtain ⟨before, after, hl⟩ := List.append_of_mem h
  rw [node?_eq_lookup (hd.plain _ h).1, List.lookup_eq_some_iff]
  refine ⟨before, after, hl, fun entry hentry => ?_⟩
  have hnodup := hd.nodup
  rw [hl, List.map_append, List.map_cons] at hnodup
  rw [bne_iff_ne]
  rintro rfl
  exact (List.nodup_append.mp hnodup).2.2 _ (List.mem_map_of_mem hentry) _ List.mem_cons_self rfl

theorem mem_of_node? (hne : place ≠ []) {node : Node} (h : d.node? place = some node) :
    (place, node) ∈ d.nodes := by
  rw [node?_eq_lookup hne] at h
  obtain ⟨before, after, hl, -⟩ := List.lookup_eq_some_iff.mp h
  rw [hl]
  exact List.mem_append_right _ List.mem_cons_self

theorem Proper.node?_above (hd : d.Proper) {ns : List String} : ∀ {node : Node}, ns ≠ [] →
    d.node? (here ++ ns) = some node → d.node? here = some .folder := by
  induction ns using List.reverseRecOn with
  | nil => exact fun hne => absurd rfl hne
  | append_singleton ns name ih =>
    intro node _ h
    rw [← List.append_assoc] at h
    have hparent := hd.parents _ (mem_of_node? (List.concat_ne_nil _ _) h)
    rw [List.dropLast_concat] at hparent
    by_cases hne : ns = []
    · rwa [hne, List.append_nil] at hparent
    · exact ih hne hparent

/-! ## Where paths lead -/

/-- The place that a list of names leads to, where nothing stands in the way. -/
def follow (here : Location) : List String → Location
  | [] => here
  | name :: rest =>
    if Path.isIdle name then follow here rest
    else if name = ".." then follow here.dropLast rest
    else follow (here ++ [name]) rest

/-- The places that a list of names passes, each below the one before it. -/
def passed (here : Location) : List String → List Location
  | [] => []
  | name :: rest =>
    if Path.isIdle name then passed here rest
    else if name = ".." then passed here.dropLast rest
    else (here ++ [name]) :: passed (here ++ [name]) rest

theorem follow_append (here : Location) (ms ns : List String) :
    follow here (ms ++ ns) = follow (follow here ms) ns := by
  induction ms generalizing here with
  | nil => rfl
  | cons name ms ih =>
    rw [List.cons_append, follow, follow]
    split_ifs <;> exact ih _

theorem follow_plain {ns : List String} (h : ∀ n ∈ ns, IsPlain n) :
    follow here ns = here ++ ns := by
  induction ns generalizing here with
  | nil => rw [follow, List.append_nil]
  | cons n ns ih =>
    rw [List.forall_mem_cons] at h
    rw [follow, if_neg (by rw [h.1.1]; exact Bool.false_ne_true), if_neg h.1.2.1, ih h.2,
      List.append_assoc, List.singleton_append]

/-- A walk ends where its names lead. -/
theorem walk_eq_follow {ns : List String} (h : d.walk here ns = .ok place) :
    place = follow here ns := by
  induction ns generalizing here with
  | nil => exact (Except.ok.inj h).symm
  | cons name ns ih =>
    rw [walk] at h
    rw [follow]
    split at h
    · cases h
    · cases h
    · split_ifs at h ⊢
      · exact ih h
      · exact ih h
      · exact ih h

theorem walk_cons {name : String} (hname : IsPlain name) (hhere : d.node? here = some .folder)
    (hnext : (d.node? (here ++ [name])).isSome) (ns : List String) :
    d.walk here (name :: ns) = d.walk (here ++ [name]) ns := by
  rw [walk, hhere]
  dsimp only
  rw [if_neg (by rw [hname.1]; exact Bool.false_ne_true), if_neg hname.2.1,
    if_neg (by simpa [Option.isNone_iff_eq_none, ← Option.isSome_iff_ne_none] using hnext)]

theorem walk_append {ms ns : List String} {mid : Location} (h : d.walk here ms = .ok mid) :
    d.walk here (ms ++ ns) = d.walk mid ns := by
  induction ms generalizing here with
  | nil => rw [← Except.ok.inj h, List.nil_append]
  | cons name ms ih =>
    rw [List.cons_append]
    rw [walk] at h ⊢
    split at h
    · cases h
    · cases h
    · split_ifs at h ⊢
      · exact ih h
      · exact ih h
      · exact ih h

/-- A walk over plain names finds what stands there. -/
theorem Proper.walk_plain (hd : d.Proper) {node : Node} {ns : List String}
    (hplain : ∀ n ∈ ns, IsPlain n) (h : d.node? (here ++ ns) = some node) :
    d.walk here ns = .ok (here ++ ns) := by
  induction ns generalizing here with
  | nil => rw [walk, List.append_nil]
  | cons n ns ih =>
    rw [List.forall_mem_cons] at hplain
    have hhere := hd.node?_above (List.cons_ne_nil n ns) h
    rw [← List.singleton_append, ← List.append_assoc] at h
    have hnext : (d.node? (here ++ [n])).isSome := by
      by_cases hne : ns = []
      · rw [hne, List.append_nil] at h
        rw [h]
        rfl
      · rw [hd.node?_above hne h]
        rfl
    rw [walk_cons hplain.1 hhere hnext, ih hplain.2 h, List.append_assoc, List.singleton_append]

theorem walk_empty_names (hhere : d.node? here = some .folder) (k : ℕ) (ns : List String) :
    d.walk here (List.replicate k "" ++ ns) = d.walk here ns := by
  induction k with
  | zero => rw [List.replicate_zero, List.nil_append]
  | succ k ih =>
    rw [List.replicate_succ, List.cons_append, walk, hhere]
    exact ih

/-- A normal path leads to the place its names name. -/
theorem Proper.locate?_normal (hd : d.Proper) {top : String} {ns : List String} {node : Node}
    (hpath : Path.Normal top ns path) (h : d.node? ns = some node) :
    d.locate? path = .ok ns := by
  obtain ⟨k, hk⟩ := hpath.exists_names
  rw [locate?, if_neg (by simpa using hpath.ne_empty), start, if_pos hpath.isAbsolute, hk,
    walk_empty_names rfl]
  exact hd.walk_plain hpath.plain h

/-! ## Tidy paths -/

theorem follow_idle {name : String} (h : Path.isIdle name = true) (here : Location) :
    follow here [name] = here := by
  rw [follow, if_pos h, follow]

/-- Tidying takes the same steps as following. -/
theorem reverse_foldl_step {seen : List String} (hseen : ∀ n ∈ seen, IsPlain n) :
    ∀ {words : List String}, (∀ word ∈ words, '/' ∉ word.toList) →
      (words.foldl (Path.step true) seen).reverse = follow seen.reverse words := by
  intro words hwords
  induction words generalizing seen with
  | nil => rfl
  | cons word words ih =>
    rw [List.forall_mem_cons] at hwords
    rw [List.foldl_cons, ih (Path.plain_step hseen hwords.1) hwords.2, follow]
    by_cases hidle : Path.isIdle word = true
    · rw [if_pos hidle, Path.step_idle hidle]
    by_cases hup : word = ".."
    · subst hup
      rw [if_neg hidle, if_pos rfl]
      cases seen with
      | nil => rfl
      | cons last above =>
        rw [List.forall_mem_cons] at hseen
        have hstep : Path.step true (last :: above) ".." = above := if_neg hseen.1.2.1
        rw [hstep, List.reverse_cons, List.dropLast_concat]
    · rw [if_neg hidle, if_neg hup,
        Path.step_plain ⟨Bool.eq_false_iff.mpr hidle, hup, hwords.1⟩, List.reverse_cons]

theorem Proper.normal_currentPath (hd : d.Proper) : Normal "/" d.current d.currentPath :=
  ⟨List.mem_cons_self, hd.current, rfl⟩

theorem follow_normal {ns : List String} (h : Normal lead ns path) :
    follow [] (Path.names path) = ns := by
  obtain ⟨k, hk⟩ := h.exists_names
  have hempty : ∀ here, follow here (List.replicate (k + 1) "") = here := by
    intro here
    induction k + 1 with
    | zero => rfl
    | succ k ih => rw [List.replicate_succ, follow, if_pos (by decide), ih]
  rw [hk, follow_append, hempty, follow_plain h.plain, List.nil_append]

/-- **A path and its tidy absolute form** lead to the same place. -/
theorem Proper.follow_absolute (hd : d.Proper) {ns : List String}
    (h : Normal lead ns (d.absolute path)) : follow (d.start path) (Path.names path) = ns := by
  have htidy : ∀ {p : String}, Path.isAbsolute p = true → Path.tidy p = d.absolute path →
      follow [] (Path.names p) = ns := by
    intro p hp heq
    have hnormal := Path.normal_tidy hp
    rw [heq] at hnormal
    have hwords : ∀ word ∈ Path.names p, '/' ∉ word.toList :=
      fun word hword => Text.notMem_of_mem_cutString hword
    rw [h.names_unique hnormal, reverse_foldl_step (List.forall_mem_nil _) hwords]
    rfl
  have hcurrent := hd.normal_currentPath
  rw [start]
  split_ifs with habsolute
  · exact htidy habsolute (by rw [absolute, Path.absolute, if_pos habsolute])
  · have hrelative := Bool.eq_false_iff.mpr habsolute
    rw [← htidy (p := Path.join d.currentPath path)
      (by rw [Path.isAbsolute_join _ hrelative, hcurrent.isAbsolute])
      (by rw [absolute, Path.absolute, if_neg habsolute])]
    rcases Path.names_join d.currentPath hrelative with hnames | ⟨above, hbase, hnames⟩
    · rw [hnames, follow_append, follow_normal hcurrent]
    · have hend := follow_normal hcurrent
      rw [hbase, follow_append, follow_idle (by decide)] at hend
      rw [hnames, follow_append, hend]

theorem Proper.locate?_absolute (hd : d.Proper) {ns : List String}
    (h : Normal lead ns (d.absolute path)) (hlocate : d.locate? path = .ok place) :
    place = ns := by
  rw [locate?] at hlocate
  split_ifs at hlocate
  rw [walk_eq_follow hlocate, hd.follow_absolute h]

theorem isFolder_iff : d.isFolder path = true ↔
    ∃ place, d.locate? path = .ok place ∧ d.node? place = some .folder := by
  rw [isFolder, decide_eq_true_iff, at?]
  cases d.locate? path with
  | error fault => simp
  | ok place => simp

theorem isFile_iff : d.isFile path = true ↔
    ∃ place bytes, d.locate? path = .ok place ∧ d.node? place = some (.file bytes) := by
  rw [isFile, at?]
  cases d.locate? path with
  | error fault => simp
  | ok place =>
    dsimp only
    split <;> simp_all

theorem Proper.isFolder_absolute (hd : d.Proper) (h : d.isFolder path = true) :
    d.isFolder (d.absolute path) = true := by
  obtain ⟨place, hlocate, hfolder⟩ := isFolder_iff.mp h
  obtain ⟨top, ns, hnormal⟩ := hd.normal_currentPath.exists_absolute path
  obtain rfl := hd.locate?_absolute hnormal hlocate
  exact isFolder_iff.mpr ⟨_, hd.locate?_normal hnormal hfolder, hfolder⟩

theorem exists_walk_append {ms ns : List String} (h : d.walk here (ms ++ ns) = .ok place) :
    ∃ mid, d.walk here ms = .ok mid ∧ d.walk mid ns = .ok place := by
  induction ms generalizing here with
  | nil => exact ⟨here, rfl, h⟩
  | cons name ms ih =>
    rw [List.cons_append, walk] at h
    rw [walk]
    split at h
    · cases h
    · cases h
    · split_ifs at h ⊢
      · exact ih h
      · exact ih h
      · exact ih h

/-- What stands above a place where something stands is a folder. -/
theorem Proper.node?_dropLast (hd : d.Proper) {node : Node} (h : d.node? place = some node) :
    d.node? place.dropLast = some .folder := by
  by_cases hne : place = []
  · rw [hne]
    rfl
  · exact hd.parents _ (mem_of_node? hne h)

/-- **A path that leads to a file** ends with a name that leads down to it. -/
theorem Proper.names_of_isFile (hd : d.Proper) (h : d.isFile path = true) :
    ∃ above name bytes, Path.names path = above ++ [name] ∧ IsPlain name ∧
      d.locate? path = .ok (follow (d.start path) above ++ [name]) ∧
      d.node? (follow (d.start path) above ++ [name]) = some (.file bytes) := by
  obtain ⟨place, bytes, hlocate, hfile⟩ := isFile_iff.mp h
  obtain ⟨above, name, hnames⟩ :=
    (List.eq_nil_or_concat' (Path.names path)).resolve_left (Text.cutString_ne_nil '/' path)
  have hslash : '/' ∉ name.toList := by
    refine Text.notMem_of_mem_cutString (s := path) ?_
    rw [← Path.names, hnames]
    exact List.mem_append_right _ List.mem_cons_self
  have hwalk : d.walk (d.start path) (above ++ [name]) = .ok place := by
    rw [locate?] at hlocate
    split_ifs at hlocate
    rwa [← hnames]
  obtain ⟨mid, hmid, hlast⟩ := exists_walk_append hwalk
  obtain rfl := walk_eq_follow hmid
  -- The last name is no step that stays or goes up, for these end at folders.
  have hplain : IsPlain name := by
    rw [walk] at hlast
    split at hlast
    · cases hlast
    · cases hlast
    rename_i hfolder
    refine ⟨Bool.eq_false_iff.mpr fun hidle => ?_, fun hup => ?_, hslash⟩
    · rw [if_pos hidle, walk] at hlast
      obtain rfl := Except.ok.inj hlast
      cases hfolder.symm.trans hfile
    · subst hup
      rw [if_neg (by decide), if_pos rfl, walk] at hlast
      obtain rfl := Except.ok.inj hlast
      cases (hd.node?_dropLast hfolder).symm.trans hfile
  have hplace := walk_eq_follow hlast
  rw [follow_plain (List.forall_mem_singleton.mpr hplain)] at hplace
  subst hplace
  exact ⟨above, name, bytes, hnames, hplain, hlocate, hfile⟩

/-! ## What stays in place -/

theorem start_congr (h : e.current = d.current) (path : String) : e.start path = d.start path := by
  rw [start, start, h]

theorem currentPath_congr (h : e.current = d.current) : e.currentPath = d.currentPath := by
  rw [currentPath, currentPath, h]

/-- What stands on a disk stands on another one, files possibly changed. -/
structure Extends (d e : Disk) : Prop where
  current : e.current = d.current
  folder : ∀ p, d.node? p = some .folder → e.node? p = some .folder
  present : ∀ p, (d.node? p).isSome → (e.node? p).isSome

theorem Extends.walk (h : Extends d e) {ns : List String} (hwalk : d.walk here ns = .ok place) :
    e.walk here ns = .ok place := by
  induction ns generalizing here with
  | nil => exact hwalk
  | cons name ns ih =>
    rw [Disk.walk] at hwalk ⊢
    split at hwalk
    · cases hwalk
    · cases hwalk
    rename_i hfolder
    rw [h.folder _ hfolder]
    dsimp only
    by_cases hidle : Path.isIdle name = true
    · rw [if_pos hidle] at hwalk ⊢
      exact ih hwalk
    by_cases hup : name = ".."
    · rw [if_neg hidle, if_pos hup] at hwalk ⊢
      exact ih hwalk
    rw [if_neg hidle, if_neg hup] at hwalk ⊢
    cases hnext : d.node? (here ++ [name]) with
    | none => rw [hnext] at hwalk; cases hwalk
    | some node =>
      have hpresent := h.present _ (Option.isSome_of_eq_some hnext)
      rw [hnext] at hwalk
      rw [if_neg (by simpa [Option.isSome_iff_ne_none] using hpresent)]
      exact ih hwalk

theorem Extends.locate? (h : Extends d e) (hlocate : d.locate? path = .ok place) :
    e.locate? path = .ok place := by
  rw [Disk.locate?] at hlocate ⊢
  split_ifs at hlocate ⊢
  rw [start_congr h.current]
  exact h.walk hlocate

/-- Plain names behind a path lead down from where the path leads. -/
theorem follow_join (d : Disk) (base : String) {ns : List String} (hne : ns ≠ [])
    (hplain : ∀ n ∈ ns, IsPlain n) :
    follow (d.start (Path.join base (Path.ofNames ns)))
        (Path.names (Path.join base (Path.ofNames ns))) =
      follow (d.start base) (Path.names base) ++ ns := by
  have habsolute := Path.isAbsolute_ofNames hne hplain
  have hstart : d.start (Path.join base (Path.ofNames ns)) = d.start base := by
    rw [start, start, Path.isAbsolute_join base habsolute]
  have hnames := Path.names_join base habsolute
  rw [Path.names_ofNames hne hplain] at hnames
  rw [hstart]
  rcases hnames with h | ⟨above, hbase, h⟩
  · rw [h, follow_append, follow_plain hplain]
  · have hempty : ∀ here, follow here [""] = here := fun here => rfl
    rw [h, hbase, follow_append, follow_append, follow_plain hplain, hempty]

/-! ## One change -/

theorem lookup_putIn (place other : Location) (node : Node) : ∀ l : List (Location × Node),
    (putIn place node l).lookup other = if other = place then some node else l.lookup other
  | [] => by
    rw [putIn, List.lookup_cons]
    split_ifs with h
    · rw [beq_iff_eq.mpr h]
    · rw [beq_eq_false_iff_ne.mpr h]
  | (p, n) :: rest => by
    rw [putIn]
    by_cases hp : p = place
    · subst hp
      rw [if_pos rfl, List.lookup_cons, List.lookup_cons]
      split_ifs with h
      · rw [beq_iff_eq.mpr h]
      · rw [beq_eq_false_iff_ne.mpr h]
    · rw [if_neg hp, List.lookup_cons, List.lookup_cons, lookup_putIn place other node rest]
      split_ifs with h
      · rw [h, beq_eq_false_iff_ne.mpr (Ne.symm hp)]
      · rfl

/-- What stands on a disk after one node has been put somewhere. -/
theorem node?_put (hne : place ≠ []) (d : Disk) (node : Node) (other : Location) :
    (d.put place node).node? other = if other = place then some node else d.node? other := by
  by_cases hother : other = []
  · rw [hother, if_neg (Ne.symm hne)]
    rfl
  · rw [node?_eq_lookup hother, node?_eq_lookup hother, put, lookup_putIn]

/-- A file that does not take the place of a folder leaves every path where it leads. -/
theorem extends_put (hne : place ≠ []) (hplace : d.node? place ≠ some .folder)
    (bytes : List UInt8) : Extends d (d.put place (.file bytes)) := by
  refine ⟨rfl, fun p hp => ?_, fun p hp => ?_⟩
  · rw [node?_put hne, if_neg, hp]
    rintro rfl
    exact hplace hp
  · rw [node?_put hne]
    split_ifs
    · rfl
    · exact hp

/-- Folders are made on a way: each place on it is a folder then, and was not a file before. -/
structure Made (d : Disk) (ways : List Location) (e : Disk) : Prop where
  current : e.current = d.current
  folders : ∀ p ∈ ways, e.node? p = some .folder
  before : ∀ p ∈ ways, ∀ bytes, d.node? p ≠ some (.file bytes)
  rest : ∀ p, p ∉ ways → e.node? p = d.node? p

theorem made_of_makeFrom {ns : List String} (h : d.makeFrom here ns = .ok e) :
    Made d (passed here ns) e := by
  induction ns generalizing d here with
  | nil =>
    obtain rfl := Except.ok.inj h
    exact ⟨rfl, by simp [passed], by simp [passed], fun _ _ => rfl⟩
  | cons name ns ih =>
    rw [makeFrom] at h
    unfold passed
    by_cases hidle : Path.isIdle name = true
    · rw [if_pos hidle] at h ⊢
      exact ih h
    by_cases hup : name = ".."
    · rw [if_neg hidle, if_pos hup] at h ⊢
      exact ih h
    rw [if_neg hidle, if_neg hup] at h ⊢
    have hne : here ++ [name] ≠ [] := List.concat_ne_nil _ _
    have hself : ∀ {g : Disk}, Made g (passed (here ++ [name]) ns) e →
        g.node? (here ++ [name]) = some .folder → e.node? (here ++ [name]) = some .folder := by
      intro g hmade hg
      by_cases hmem : here ++ [name] ∈ passed (here ++ [name]) ns
      · exact hmade.folders _ hmem
      · rw [hmade.rest _ hmem, hg]
    split at h
    · rename_i hfolder
      have hmade := ih h
      refine ⟨hmade.current, List.forall_mem_cons.mpr ⟨hself hmade hfolder, hmade.folders⟩,
        List.forall_mem_cons.mpr ⟨fun bytes hfile => ?_, hmade.before⟩, fun p hp => ?_⟩
      · rw [hfolder] at hfile
        cases hfile
      · exact hmade.rest p fun hmem => hp (List.mem_cons_of_mem _ hmem)
    · cases h
    · rename_i hnone
      have hmade := ih h
      refine ⟨hmade.current, List.forall_mem_cons.mpr ⟨hself hmade ?_, hmade.folders⟩,
        List.forall_mem_cons.mpr ⟨fun bytes hfile => ?_, fun p hp bytes hfile => ?_⟩,
        fun p hp => ?_⟩
      · rw [node?_put hne, if_pos rfl]
      · rw [hnone] at hfile
        cases hfile
      · refine hmade.before p hp bytes ?_
        rw [node?_put hne, if_neg, hfile]
        rintro rfl
        rw [hnone] at hfile
        cases hfile
      · rw [List.mem_cons, not_or] at hp
        rw [hmade.rest p hp.2, node?_put hne, if_neg hp.1]

/-- A file is written at the end of a walk to a folder. -/
theorem write_eq_ok {bytes : List UInt8} (h : d.write path bytes = .ok e) :
    ∃ above name, Path.names path = above ++ [name] ∧ IsPlain name ∧
      d.walk (d.start path) above = .ok (follow (d.start path) above) ∧
      d.node? (follow (d.start path) above) = some .folder ∧
      d.node? (follow (d.start path) above ++ [name]) ≠ some .folder ∧
      e = d.put (follow (d.start path) above ++ [name]) (.file bytes) := by
  rw [write] at h
  split at h
  · cases h
  rename_i name above hnames
  obtain ⟨place, hwalk, h⟩ := bind_eq_ok.mp h
  split at h
  · cases h
  · cases h
  rename_i hfolder
  split_ifs at h with hlast hoccupied
  rw [not_or, not_or] at hlast
  obtain rfl := walk_eq_follow hwalk
  -- The last name is not empty, so that none has been dropped behind it.
  have hsplit : Path.names path = above.reverse ++ [name] := by
    rw [← List.reverse_inj, List.reverse_append, List.reverse_reverse, List.reverse_singleton,
      List.singleton_append, ← hnames]
    cases hreversed : (Path.names path).reverse with
    | nil => rw [hreversed] at hnames; cases hnames
    | cons last others =>
      rw [hreversed] at hlast
      rw [List.dropWhile_cons, if_neg]
      simpa using hlast.1
  have hslash : '/' ∉ name.toList := by
    refine Text.notMem_of_mem_cutString (s := path) ?_
    rw [← Path.names, hsplit]
    exact List.mem_append_right _ List.mem_cons_self
  have hempty : name ≠ "" := by
    rintro rfl
    rw [hsplit] at hlast
    simp at hlast
  refine ⟨above.reverse, name, hsplit, ⟨?_, hlast.2.2, hslash⟩, hwalk, hfolder, hoccupied,
    (Except.ok.inj h).symm⟩
  simp [Path.isIdle, hempty, hlast.2.1]

/-! ## Deposits -/

/-- A file at a place, and the places of the folders that are made for it. -/
structure Deposit where
  ways : List Location
  place : Location
  bytes : List UInt8

/-- What is deposited when bytes are written to a path under new folders. -/
def deposit (d : Disk) (folder path : String) (bytes : List UInt8) : Deposit where
  ways := passed (d.start folder) (Path.names folder)
  place := follow (d.start path) (Path.names path)
  bytes := bytes

/-- Nothing on a disk stands in the way of a deposit. -/
structure Admits (d : Disk) (w : Deposit) : Prop where
  place : d.node? w.place ≠ some .folder
  ways : ∀ p ∈ w.ways, ∀ bytes, d.node? p ≠ some (.file bytes)

/-- A deposit has been stored on a disk. -/
structure Stored (d : Disk) (w : Deposit) (e : Disk) : Prop where
  current : e.current = d.current
  admits : d.Admits w
  place : e.node? w.place = some (.file w.bytes)
  ways : ∀ p ∈ w.ways, e.node? p = some .folder
  rest : ∀ p, p ≠ w.place → p ∉ w.ways → e.node? p = d.node? p

/-- **Writing under new folders** stores a deposit, and the path leads to it then. -/
theorem stored_of_written {m : Disk} {folder : String} {bytes : List UInt8}
    (hm : d.makeFolders folder = .ok m) (he : m.write path bytes = .ok e) :
    Stored d (d.deposit folder path bytes) e ∧
      e.locate? path = .ok (d.deposit folder path bytes).place := by
  rw [makeFolders] at hm
  split_ifs at hm
  have hmade := made_of_makeFrom hm
  obtain ⟨above, name, hnames, hname, hwalk, hfolder, hoccupied, rfl⟩ := write_eq_ok he
  have hstart := start_congr hmade.current path
  have hplace : follow (m.start path) above ++ [name] = (d.deposit folder path bytes).place := by
    rw [deposit, hnames, follow_append, hstart, follow_plain (List.forall_mem_singleton.mpr hname)]
  have hne : follow (m.start path) above ++ [name] ≠ [] := List.concat_ne_nil _ _
  rw [hplace] at hoccupied hne ⊢
  have hput := node?_put hne m (.file bytes)
  refine ⟨⟨hmade.current, ⟨fun hfold => ?_, hmade.before⟩, ?_, fun p hp => ?_, fun p hne' hp => ?_⟩,
    ?_⟩
  · by_cases hway :
        (d.deposit folder path bytes).place ∈ passed (d.start folder) (Path.names folder)
    · exact hoccupied (hmade.folders _ hway)
    · exact hoccupied ((hmade.rest _ hway).trans hfold)
  · rw [hput, if_pos rfl]
    rfl
  · rw [hput, if_neg]
    · exact hmade.folders p hp
    · rintro rfl
      exact hoccupied (hmade.folders _ hp)
  · rw [hput, if_neg hne', hmade.rest p hp]
  · have hextends := extends_put hne hoccupied bytes
    have hpath : path ≠ "" := by
      rintro rfl
      have hlast := congrArg List.getLast? hnames
      rw [List.getLast?_concat] at hlast
      exact hname.ne_empty (Option.some.inj hlast).symm
    rw [locate?, if_neg (by simpa using hpath), start_congr hextends.current, hnames,
      walk_append (hextends.walk hwalk), walk_cons hname (hextends.folder _ hfolder), walk, hplace]
    rw [hplace, hput, if_pos rfl]
    rfl

/-- A disk holds the files of several deposits and is as another one elsewhere. -/
structure Laid (d : Disk) (ws : List Deposit) (e : Disk) : Prop where
  current : e.current = d.current
  places : ∀ w ∈ ws, e.node? w.place = some (.file w.bytes)
  ways : ∀ w ∈ ws, ∀ p ∈ w.ways, e.node? p = some .folder
  rest : ∀ p, (∀ w ∈ ws, p ≠ w.place ∧ p ∉ w.ways) → e.node? p = d.node? p

variable {ws : List Deposit} {w : Deposit}

theorem laid_nil (d : Disk) : Laid d [] d :=
  ⟨rfl, by simp, by simp, fun _ _ => rfl⟩

/-- **One deposit more.** The files of the deposits before it stay unless it has their place, and
then it has to be the same file. -/
theorem Laid.concat (h : Laid d ws e) (hw : Stored e w f)
    (hsame : ∀ v ∈ ws, v.place = w.place → v.bytes = w.bytes) : Laid d (ws ++ [w]) f := by
  refine ⟨hw.current.trans h.current, ?_, ?_, fun p hp => ?_⟩
  · rw [List.forall_mem_append, List.forall_mem_singleton]
    refine ⟨fun v hv => ?_, hw.place⟩
    by_cases hplace : v.place = w.place
    · rw [hplace, hsame v hv hplace, hw.place]
    · rw [hw.rest _ hplace fun hway => hw.admits.ways _ hway _ (h.places v hv), h.places v hv]
  · rw [List.forall_mem_append, List.forall_mem_singleton]
    refine ⟨fun v hv p hp => ?_, hw.ways⟩
    by_cases hway : p ∈ w.ways
    · exact hw.ways p hway
    · have hplace : p ≠ w.place := by
        rintro rfl
        exact hw.admits.place (h.ways v hv _ hp)
      rw [hw.rest p hplace hway, h.ways v hv p hp]
  · rw [List.forall_mem_append, List.forall_mem_singleton] at hp
    rw [hw.rest p hp.2.1 hp.2.2, h.rest p hp.1]

/-! ## What is found after deposits -/

theorem Laid.extends (h : Laid d ws e) (hadmits : ∀ w ∈ ws, d.Admits w) : Extends d e := by
  have hcases : ∀ p, e.node? p = d.node? p ∨ (∃ w ∈ ws, p = w.place) ∨ ∃ w ∈ ws, p ∈ w.ways := by
    intro p
    by_cases hp : ∀ w ∈ ws, p ≠ w.place ∧ p ∉ w.ways
    · exact Or.inl (h.rest p hp)
    · push Not at hp
      obtain ⟨w, hw, hway⟩ := hp
      by_cases hplace : p = w.place
      · exact Or.inr (Or.inl ⟨w, hw, hplace⟩)
      · exact Or.inr (Or.inr ⟨w, hw, hway hplace⟩)
  refine ⟨h.current, fun p hp => ?_, fun p hp => ?_⟩
  · rcases hcases p with heq | ⟨w, hw, rfl⟩ | ⟨w, hw, hway⟩
    · rw [heq, hp]
    · exact absurd hp (hadmits w hw).place
    · exact h.ways w hw p hway
  · rcases hcases p with heq | ⟨w, hw, rfl⟩ | ⟨w, hw, hway⟩
    · rwa [heq]
    · rw [h.places w hw]
      rfl
    · rw [h.ways w hw p hway]
      rfl

/-- A file that stands at no place of a deposit stays. -/
theorem Laid.file (h : Laid d ws e) (hadmits : ∀ w ∈ ws, d.Admits w) {bytes : List UInt8}
    (hfile : d.node? place = some (.file bytes)) (hplace : ∀ w ∈ ws, place ≠ w.place) :
    e.node? place = some (.file bytes) := by
  rw [h.rest place fun w hw => ⟨hplace w hw, fun hway => (hadmits w hw).ways _ hway _ hfile⟩, hfile]

/-- The disk after one of the deposits alone is extended by the disk after all of them. -/
theorem Laid.extends_of_mem (h : Laid d ws e) (hadmits : ∀ w ∈ ws, d.Admits w) (hw : w ∈ ws)
    (hf : Stored d w f) : Extends f e := by
  have hextends := h.extends hadmits
  refine ⟨h.current.trans hf.current.symm, fun p hp => ?_, fun p hp => ?_⟩
  · by_cases hway : p ∈ w.ways
    · exact h.ways w hw p hway
    · have hplace : p ≠ w.place := by
        rintro rfl
        rw [hf.place] at hp
        cases hp
      rw [hf.rest p hplace hway] at hp
      exact hextends.folder p hp
  · by_cases hway : p ∈ w.ways
    · rw [h.ways w hw p hway]
      rfl
    by_cases hplace : p = w.place
    · rw [hplace, h.places w hw]
      rfl
    · rw [hf.rest p hplace hway] at hp
      exact hextends.present p hp

theorem Laid.node?_eq (h : Laid d ws e) (hw : w ∈ ws) (hf : Stored d w f)
    (hp : place = w.place ∨ place ∈ w.ways) : e.node? place = f.node? place := by
  rcases hp with rfl | hway
  · rw [h.places w hw, hf.place]
  · rw [h.ways w hw _ hway, hf.ways _ hway]

theorem Laid.exists_of_ne (h : Laid d ws e) (hp : e.node? place ≠ d.node? place) :
    ∃ w ∈ ws, place = w.place ∨ place ∈ w.ways := by
  by_contra hno
  refine hp (h.rest place fun w hw => ?_)
  exact ⟨fun hplace => hno ⟨w, hw, Or.inl hplace⟩, fun hway => hno ⟨w, hw, Or.inr hway⟩⟩

/-! ## Files that are found -/

theorem read_of_locate? {bytes : List UInt8} (h : d.locate? path = .ok place)
    (hfile : d.node? place = some (.file bytes)) : d.read path = .ok bytes := by
  rw [read, h, ok_bind, hfile]

theorem isFile_of_locate? {bytes : List UInt8} (h : d.locate? path = .ok place)
    (hfile : d.node? place = some (.file bytes)) : d.isFile path = true := by
  rw [isFile, at?, h]
  dsimp only
  rw [hfile]

theorem belowLocation?_eq_some {names : List String} : ∀ {place p : Location},
    belowLocation? place p = some names → names ≠ [] ∧ p = place ++ names
  | [], [], h => by cases h
  | [], name :: rest, h => by
    obtain rfl := Option.some.inj h
    exact ⟨List.cons_ne_nil _ _, rfl⟩
  | _ :: _, [], h => by cases h
  | a :: place, b :: p, h => by
    rw [belowLocation?] at h
    split_ifs at h with hab
    obtain ⟨hne, rfl⟩ := belowLocation?_eq_some h
    exact ⟨hne, by rw [hab, List.cons_append]⟩

theorem Proper.file_of_mem_filesBelow (hd : d.Proper) {names : List String}
    (h : names ∈ d.filesBelow place) : names ≠ [] ∧ (∀ n ∈ names, IsPlain n) ∧
      ∃ bytes, d.node? (place ++ names) = some (.file bytes) := by
  obtain ⟨⟨names', node⟩, hbelow, hfile⟩ := List.mem_filterMap.mp h
  cases node with
  | folder => cases hfile
  | file bytes =>
    obtain rfl := Option.some.inj hfile
    obtain ⟨⟨p, node⟩, hnode, hmap⟩ := List.mem_filterMap.mp hbelow
    obtain ⟨names', hlocation, hpair⟩ := Option.map_eq_some_iff.mp hmap
    obtain ⟨rfl, rfl⟩ := Prod.mk.inj hpair
    obtain ⟨hne, rfl⟩ := belowLocation?_eq_some hlocation
    refine ⟨hne, fun n hn => (hd.plain _ hnode).2 n (List.mem_append_right _ hn), bytes, ?_⟩
    exact hd.node?_of_mem hnode

end Ambient.Files.Disk
