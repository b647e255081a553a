import Ambient.Files.Path
import Ambient.Proofs.Text.Cut

/-!
# Normal paths

An absolute path has a normal form: slashes at the top and then names that each lead one step down.
Tidying gives this form and leaves it as it is, and in this form paths are joined and told apart by
their names alone.

* `IsPlain`, `Normal`: names that lead down, and paths in normal form;
* `names_ofNames`, `names_join`: the names of a path that is put together;
* **`normal_tidy`**, **`Normal.tidy_eq`**: tidying gives the normal form, and keeps it;
* `Normal.join`, `relative_normal`: what is below a path, and the way to it from there;
* `fileName_concat`, `folder_ofNames`, `Normal.above`, `withoutExtension_append`,
  `withoutExtension_concat`: the last name, what stands above it, and its extension;
* `infix_toList_iff`, `suffix_toList_iff`, `Normal.suffix_iff`: names in the text of a path.
-/

namespace Ambient.Files.Path

/-! ## Names -/

/-- A name that leads one step down. -/
def IsPlain (name : String) : Prop := isIdle name = false ∧ name ≠ ".." ∧ '/' ∉ name.toList

instance : DecidablePred IsPlain := fun name =>
  inferInstanceAs (Decidable (isIdle name = false ∧ name ≠ ".." ∧ '/' ∉ name.toList))

theorem IsPlain.ne_empty {name : String} (h : IsPlain name) : name ≠ "" := by
  rintro rfl
  exact absurd h.1 (by decide)

theorem names_ofNames {ns : List String} (hne : ns ≠ []) (h : ∀ n ∈ ns, IsPlain n) :
    names (ofNames ns) = ns :=
  Text.cutString_intercalate hne fun n hn => (h n hn).2.2

theorem names_slash (a b : String) : names (a ++ "/" ++ b) = names a ++ names b :=
  Text.cutString_append_sep '/' a b

theorem ofNames_append {ms ns : List String} (hm : ms ≠ []) (hn : ns ≠ []) :
    ofNames (ms ++ ns) = ofNames ms ++ "/" ++ ofNames ns :=
  Text.intercalate_append "/" hm hn

theorem ofNames_singleton (n : String) : ofNames [n] = n := String.intercalate_singleton

/-- A path of plain names starts with a name. -/
theorem exists_ofNames_cons {ns : List String} (hne : ns ≠ []) (h : ∀ n ∈ ns, IsPlain n) :
    ∃ c rest, (ofNames ns).toList = c :: rest ∧ c ≠ '/' := by
  obtain ⟨n, later, rfl⟩ := List.exists_cons_of_ne_nil hne
  have hn := h n List.mem_cons_self
  obtain ⟨c, rest, hchars⟩ := List.exists_cons_of_ne_nil
    (String.toList_eq_nil_iff.not.mpr hn.ne_empty)
  have hc : c ≠ '/' := fun hc => hn.2.2 (by rw [hchars, hc]; exact List.mem_cons_self)
  cases later with
  | nil =>
    rw [ofNames_singleton]
    exact ⟨c, rest, hchars, hc⟩
  | cons next later =>
    rw [← List.singleton_append, ofNames_append (List.cons_ne_nil _ _) (List.cons_ne_nil _ _),
      ofNames_singleton, String.toList_append, String.toList_append, hchars]
    exact ⟨c, _, rfl, hc⟩

theorem isAbsolute_ofNames {ns : List String} (hne : ns ≠ []) (h : ∀ n ∈ ns, IsPlain n) :
    isAbsolute (ofNames ns) = false := by
  obtain ⟨c, rest, hchars, hc⟩ := exists_ofNames_cons hne h
  simpa [isAbsolute, hchars] using hc

theorem ofNames_ne_empty {ns : List String} (hne : ns ≠ []) (h : ∀ n ∈ ns, IsPlain n) :
    ofNames ns ≠ "" := by
  obtain ⟨c, rest, hchars, -⟩ := exists_ofNames_cons hne h
  intro hempty
  rw [hempty] at hchars
  cases hchars

/-! ## Joined paths -/

theorem isAbsolute_append {base : String} (hbase : base ≠ "") (path : String) :
    isAbsolute (base ++ path) = isAbsolute base := by
  obtain ⟨c, rest, hchars⟩ := List.exists_cons_of_ne_nil
    (String.toList_eq_nil_iff.not.mpr hbase)
  rw [isAbsolute, isAbsolute, String.toList_append, hchars]
  rfl

theorem isAbsolute_join (base : String) {path : String} (h : isAbsolute path = false) :
    isAbsolute (join base path) = isAbsolute base := by
  rw [join, if_neg (by rw [h]; exact Bool.false_ne_true)]
  by_cases hbase : base = ""
  · subst hbase
    rw [if_pos (by decide), String.empty_append, h]
    decide
  · split_ifs
    · exact isAbsolute_append hbase path
    · rw [String.append_assoc]
      exact isAbsolute_append hbase _

theorem names_concat_slash (path : String) : names (path ++ "/") = names path ++ [""] := by
  have hnames := names_slash path ""
  rwa [String.append_empty] at hnames

theorem exists_of_ends_slash {base : String} (h : base.toList.getLast? = some '/') :
    ∃ front, base = front ++ "/" := by
  obtain ⟨front, hfront⟩ := List.getLast?_eq_some_iff.mp h
  refine ⟨String.ofList front, ?_⟩
  rw [← String.toList_inj, String.toList_append, String.toList_ofList, hfront]
  rfl

/-- A base that ends with a slash has an empty name last, which a path behind it replaces. -/
theorem names_join (base : String) {path : String} (h : isAbsolute path = false) :
    names (join base path) = names base ++ names path ∨
      ∃ above, names base = above ++ [""] ∧ names (join base path) = above ++ names path := by
  rw [join, if_neg (by rw [h]; exact Bool.false_ne_true)]
  split_ifs with hend
  · refine Or.inr ?_
    rw [Bool.or_eq_true] at hend
    rcases hend with hempty | hslash
    · obtain rfl : base = "" := by simpa using hempty
      exact ⟨[], by decide, by rw [String.empty_append, List.nil_append]⟩
    · obtain ⟨front, rfl⟩ := exists_of_ends_slash (of_decide_eq_true hslash)
      exact ⟨names front, names_concat_slash front, names_slash front path⟩
  · exact Or.inl (names_slash base path)

/-! ## The normal form -/

/-- An absolute path in normal form: one or two slashes at the top, and plain names. -/
structure Normal (top : String) (ns : List String) (path : String) : Prop where
  top_mem : top ∈ ["/", "//"]
  plain : ∀ n ∈ ns, IsPlain n
  eq : path = top ++ ofNames ns

variable {top path base : String} {ns ms : List String}

theorem names_cons_slash (path : String) : names ("/" ++ path) = "" :: names path := by
  have hnames := names_slash "" path
  rwa [String.empty_append] at hnames

/-- Before its plain names a normal path has only empty ones. -/
theorem Normal.exists_names (h : Normal top ns path) :
    ∃ k, names path = List.replicate (k + 1) "" ++ ns := by
  obtain ⟨k, hk⟩ : ∃ k, names (ofNames ns) = List.replicate k "" ++ ns := by
    by_cases hne : ns = []
    · subst hne
      exact ⟨1, by decide⟩
    · exact ⟨0, names_ofNames hne h.plain⟩
  have htop := h.top_mem
  rw [List.mem_cons, List.mem_singleton] at htop
  rw [h.eq]
  rcases htop with rfl | rfl
  · exact ⟨k, by rw [names_cons_slash, hk]; rfl⟩
  · refine ⟨k + 1, ?_⟩
    rw [show ("//" : String) = "/" ++ "/" from rfl, String.append_assoc, names_cons_slash,
      names_cons_slash, hk]
    rfl

theorem Normal.filter_names (h : Normal top ns path) :
    (names path).filter (fun n => !n.isEmpty) = ns := by
  obtain ⟨k, hk⟩ := h.exists_names
  rw [hk, List.filter_append]
  have hempty : (List.replicate (k + 1) "").filter (fun n : String => !n.isEmpty) = [] :=
    List.filter_eq_nil_iff.mpr fun n hn => by simp [List.eq_of_mem_replicate hn]
  rw [hempty, List.nil_append]
  exact List.filter_eq_self.mpr fun n hn => by simpa using (h.plain n hn).ne_empty

theorem Normal.names_unique (h : Normal top ns path) {top' : String} {ns' : List String}
    (h' : Normal top' ns' path) : ns = ns' := by
  rw [← h.filter_names, h'.filter_names]

theorem Normal.isAbsolute (h : Normal top ns path) : isAbsolute path = true := by
  have htop := h.top_mem
  rw [List.mem_cons, List.mem_singleton] at htop
  rw [h.eq]
  rcases htop with rfl | rfl <;> exact isAbsolute_append (by decide) _

theorem Normal.ne_empty (h : Normal top ns path) : path ≠ "" := by
  rintro rfl
  exact absurd h.isAbsolute (by decide)

theorem Normal.lead_eq (h : Normal top ns path) : lead path = top := by
  have htop := h.top_mem
  rw [List.mem_cons, List.mem_singleton] at htop
  rw [h.eq]
  by_cases hne : ns = []
  · subst hne
    rcases htop with rfl | rfl <;> decide
  · obtain ⟨c, rest, hchars, hc⟩ := exists_ofNames_cons hne h.plain
    rw [lead, String.toList_append, hchars]
    rcases htop with rfl | rfl
    · simp [hc]
    · simp [hc]

/-! ## Tidying -/

theorem step_idle {name : String} (h : isIdle name = true) (atTop : Bool) (seen : List String) :
    step atTop seen name = seen := by
  unfold step
  rw [if_pos h]

theorem step_plain {name : String} (h : IsPlain name) (atTop : Bool) (seen : List String) :
    step atTop seen name = name :: seen := by
  unfold step
  rw [if_neg (by rw [h.1]; exact Bool.false_ne_true), if_neg h.2.1]

theorem foldl_step_empty (atTop : Bool) (seen : List String) (k : ℕ) :
    (List.replicate k "").foldl (step atTop) seen = seen := by
  induction k with
  | zero => rfl
  | succ k ih => rw [List.replicate_succ, List.foldl_cons, step_idle (by decide), ih]

theorem foldl_step_plain (atTop : Bool) : ∀ {ns : List String} (seen : List String),
    (∀ n ∈ ns, IsPlain n) → ns.foldl (step atTop) seen = ns.reverse ++ seen
  | [], seen, _ => rfl
  | n :: ns, seen, h => by
    rw [List.forall_mem_cons] at h
    rw [List.foldl_cons, step_plain h.1, foldl_step_plain atTop _ h.2, List.reverse_cons,
      List.append_assoc]
    rfl

/-- At the top no step up is kept. -/
theorem plain_step {seen : List String} (hseen : ∀ n ∈ seen, IsPlain n) {name : String}
    (h : '/' ∉ name.toList) : ∀ n ∈ step true seen name, IsPlain n := by
  by_cases hidle : isIdle name = true
  · rwa [step_idle hidle]
  by_cases hup : name = ".."
  · subst hup
    cases seen with
    | nil => exact List.forall_mem_nil _
    | cons last above =>
      rw [List.forall_mem_cons] at hseen
      have hstep : step true (last :: above) ".." = above := if_neg hseen.1.2.1
      rw [hstep]
      exact hseen.2
  · rw [step_plain ⟨Bool.eq_false_iff.mpr hidle, hup, h⟩, List.forall_mem_cons]
    exact ⟨⟨Bool.eq_false_iff.mpr hidle, hup, h⟩, hseen⟩

theorem plain_foldl_step : ∀ {words seen : List String}, (∀ n ∈ seen, IsPlain n) →
    (∀ word ∈ words, '/' ∉ word.toList) → ∀ n ∈ words.foldl (step true) seen, IsPlain n
  | [], _, hseen, _ => hseen
  | word :: words, seen, hseen, h => by
    rw [List.forall_mem_cons] at h
    rw [List.foldl_cons]
    exact plain_foldl_step (plain_step hseen h.1) h.2

theorem lead_mem (h : isAbsolute path = true) : lead path ∈ ["/", "//"] := by
  obtain ⟨rest, hchars⟩ := List.head?_eq_some_iff.mp (of_decide_eq_true h)
  rw [lead, hchars]
  split <;> simp_all

/-- **Tidying** an absolute path gives its normal form. -/
theorem normal_tidy (h : isAbsolute path = true) :
    Normal (lead path) ((names path).foldl (step true) []).reverse (tidy path) := by
  refine ⟨lead_mem h, ?_, ?_⟩
  · intro n hn
    exact plain_foldl_step (List.forall_mem_nil _)
      (fun word hword => Text.notMem_of_mem_cutString hword) n (List.mem_reverse.mp hn)
  · have hne : lead path ++ ofNames ((names path).foldl (step true) []).reverse ≠ "" := by
      intro hempty
      have htop := lead_mem h
      rw [String.append_eq_empty_iff] at hempty
      rw [hempty.1] at htop
      exact absurd htop (by decide)
    rw [tidy, h, orHere, if_neg (by simpa using hne)]

/-- **Tidying** keeps the normal form. -/
theorem Normal.tidy_eq (h : Normal top ns path) : tidy path = path := by
  obtain ⟨k, hk⟩ := h.exists_names
  have hfold : ((names path).foldl (step true) []).reverse = ns := by
    rw [hk, List.foldl_append, foldl_step_empty, foldl_step_plain true _ h.plain,
      List.append_nil, List.reverse_reverse]
  rw [tidy, h.isAbsolute, hfold, h.lead_eq, ← h.eq, orHere, if_neg (by simpa using h.ne_empty)]

/-- Every path is seen from a normal one as a normal one. -/
theorem Normal.exists_absolute {current : String} (h : Normal top ns current) (path : String) :
    ∃ top' ns', Normal top' ns' (absolute current path) := by
  rw [absolute]
  split_ifs with habsolute
  · exact ⟨_, _, normal_tidy habsolute⟩
  · refine ⟨_, _, normal_tidy ?_⟩
    rw [isAbsolute_join _ (Bool.eq_false_iff.mpr habsolute), h.isAbsolute]

theorem Normal.absolute_eq (h : Normal top ns path) (current : String) :
    absolute current path = path := by
  rw [absolute, if_pos h.isAbsolute, h.tidy_eq]

/-! ## Below a path -/

/-- A normal path ends with a slash only at the top. -/
theorem Normal.ends_slash_iff (h : Normal top ns path) :
    path.toList.getLast? = some '/' ↔ ns = [] := by
  constructor
  · intro hend
    obtain ⟨front, rfl⟩ := exists_of_ends_slash hend
    obtain ⟨k, hk⟩ := h.exists_names
    rw [names_concat_slash] at hk
    by_contra hne
    have hlast := congrArg List.getLast? hk
    rw [List.getLast?_concat, List.getLast?_append_of_ne_nil _ hne] at hlast
    exact (h.plain "" (List.mem_of_getLast? hlast.symm)).ne_empty rfl
  · rintro rfl
    have htop := h.top_mem
    rw [List.mem_cons, List.mem_singleton] at htop
    rw [h.eq]
    rcases htop with rfl | rfl <;> decide

/-- Plain names behind a normal path. -/
theorem Normal.join (h : Normal top ns base) (hne : ms ≠ []) (hplain : ∀ n ∈ ms, IsPlain n) :
    Normal top (ns ++ ms) (Path.join base (ofNames ms)) := by
  refine ⟨h.top_mem, List.forall_mem_append.mpr ⟨h.plain, hplain⟩, ?_⟩
  rw [Path.join, if_neg (by rw [isAbsolute_ofNames hne hplain]; exact Bool.false_ne_true)]
  have hbase : base.isEmpty = false := by simpa using h.ne_empty
  by_cases hnil : ns = []
  · rw [hbase, Bool.false_or, if_pos (decide_eq_true (h.ends_slash_iff.mpr hnil)), h.eq, hnil,
      List.nil_append]
    rw [show ofNames [] = "" from rfl, String.append_empty]
  · rw [hbase, Bool.false_or, if_neg (by simpa using h.ends_slash_iff.not.mpr hnil), h.eq,
      ofNames_append hnil hne]
    simp only [String.append_assoc]

theorem dropShared_append : ∀ ns ms : List String, dropShared (ns ++ ms) ns = (ms, [])
  | [], ms => by cases ms <;> rfl
  | n :: ns, ms => by rw [List.cons_append, dropShared, if_pos rfl, dropShared_append ns ms]

/-- The way from a normal path to what is below it. -/
theorem relative_normal (hbase : Normal top ns base) (hpath : Normal top (ns ++ ms) path)
    (hne : ms ≠ []) (current : String) : relative current path base = ofNames ms := by
  have hplain : ∀ n ∈ ms, IsPlain n := fun n hn => hpath.plain n (List.mem_append_right _ hn)
  unfold relative
  dsimp only
  rw [hpath.absolute_eq, hbase.absolute_eq, hpath.filter_names, hbase.filter_names,
    dropShared_append]
  dsimp only
  rw [List.map_nil, List.nil_append, orHere, if_neg (by simpa using ofNames_ne_empty hne hplain)]

/-! ## Last names -/

theorem lastCut?_of_notMem {sep : Char} {s : List Char} (h : sep ∉ s) : lastCut? sep s = none := by
  induction s with
  | nil => rfl
  | cons c s ih =>
    rw [List.mem_cons, not_or] at h
    rw [lastCut?, ih h.2, if_neg (Ne.symm h.1)]

theorem lastCut?_append {sep : Char} {after : List Char} (h : sep ∉ after) :
    ∀ before : List Char, lastCut? sep (before ++ sep :: after) = some (before, after)
  | [] => by rw [List.nil_append, lastCut?, lastCut?_of_notMem h, if_pos rfl]
  | c :: before => by rw [List.cons_append, lastCut?, lastCut?_append h before]

theorem lastCut?_eq_some {sep : Char} {s before after : List Char}
    (h : lastCut? sep s = some (before, after)) : s = before ++ sep :: after := by
  induction s generalizing before with
  | nil => cases h
  | cons c s ih =>
    rw [lastCut?] at h
    split at h
    · rename_i before' after' hrest
      obtain ⟨rfl, rfl⟩ := Prod.mk.inj (Option.some.inj h)
      rw [ih hrest]
      rfl
    · split_ifs at h with hc
      obtain ⟨rfl, rfl⟩ := Prod.mk.inj (Option.some.inj h)
      rw [hc]
      rfl

theorem fileName_slash {n : String} (h : '/' ∉ n.toList) (path : String) :
    fileName (path ++ "/" ++ n) = n := by
  have hchars : (path ++ "/" ++ n).toList = path.toList ++ '/' :: n.toList := by
    rw [String.toList_append, String.toList_append, List.append_assoc]
    rfl
  rw [fileName, hchars, lastCut?_append h]
  exact String.ofList_toList

theorem fileName_of_plain {n : String} (h : '/' ∉ n.toList) : fileName n = n := by
  rw [fileName, lastCut?_of_notMem h]

/-- The last name of plain names. -/
theorem fileName_concat {n : String} (h : '/' ∉ n.toList) (ms : List String) :
    fileName (ofNames (ms ++ [n])) = n := by
  by_cases hne : ms = []
  · rw [hne, List.nil_append, ofNames_singleton, fileName_of_plain h]
  · rw [ofNames_append hne (List.cons_ne_nil _ _), ofNames_singleton, fileName_slash h]

theorem fileName_of_names {above : List String} {last : String}
    (h : names path = above ++ [last]) : fileName path = last := by
  have hslash : '/' ∉ last.toList := by
    refine Text.notMem_of_mem_cutString (s := path) ?_
    rw [← names, h]
    exact List.mem_append_right _ List.mem_cons_self
  have hpath : ofNames (names path) = path := Text.intercalate_cutString '/' path
  rw [← hpath, h, fileName_concat hslash]

theorem Normal.fileName_eq {n : String} (h : Normal top (ns ++ [n]) path) : fileName path = n := by
  have hslash : '/' ∉ n.toList := (h.plain n (List.mem_append_right _ List.mem_cons_self)).2.2
  by_cases hne : ns = []
  · have htop := h.top_mem
    rw [List.mem_cons, List.mem_singleton] at htop
    rw [h.eq, hne, List.nil_append, ofNames_singleton]
    rcases htop with rfl | rfl
    · exact fileName_slash hslash ""
    · exact fileName_slash hslash "/"
  · rw [h.eq, ofNames_append hne (List.cons_ne_nil _ _), ofNames_singleton, ← String.append_assoc,
      ← String.append_assoc, fileName_slash hslash]

theorem folder_slash {n : String} (h : '/' ∉ n.toList) {path : String} (hne : path ≠ "")
    (hend : path.toList.getLast? ≠ some '/') : folder (path ++ "/" ++ n) = path := by
  have hchars : (path ++ "/" ++ n).toList = path.toList ++ '/' :: n.toList := by
    rw [String.toList_append, String.toList_append, List.append_assoc]
    rfl
  obtain ⟨c, rest, hrest⟩ := List.exists_cons_of_ne_nil
    (List.reverse_eq_nil_iff.not.mpr (String.toList_eq_nil_iff.not.mpr hne))
  rw [← List.head?_reverse, hrest] at hend
  have hkept : (path.toList.reverse.dropWhile (· = '/')).reverse = path.toList := by
    rw [hrest, List.dropWhile_cons_of_neg (by simpa using hend), ← hrest, List.reverse_reverse]
  rw [folder, hchars, lastCut?_append h]
  dsimp only
  rw [hkept, if_neg (by simpa using hne), String.ofList_toList]

/-- What stands above the last of some plain names. -/
theorem folder_ofNames {n : String} (hplain : ∀ m ∈ ns, IsPlain m) (h : '/' ∉ n.toList) :
    folder (ofNames (ns ++ [n])) = ofNames ns := by
  by_cases hne : ns = []
  · rw [hne, List.nil_append, ofNames_singleton, folder, lastCut?_of_notMem h]
    rfl
  · rw [ofNames_append hne (List.cons_ne_nil _ _), ofNames_singleton]
    refine folder_slash h (ofNames_ne_empty hne hplain) fun hend => ?_
    obtain ⟨front, hfront⟩ := exists_of_ends_slash hend
    have hnames := names_ofNames hne hplain
    rw [hfront, names_concat_slash] at hnames
    refine (hplain "" ?_).ne_empty rfl
    rw [← hnames]
    exact List.mem_append_right _ List.mem_cons_self

/-- What stands above the last name of a normal path is normal. -/
theorem Normal.above {n : String} (h : Normal top (ns ++ [n]) path) :
    Normal top ns (folder path) := by
  have hplain : ∀ n ∈ ns, IsPlain n := fun m hm => h.plain m (List.mem_append_left _ hm)
  have hslash : '/' ∉ n.toList := (h.plain n (List.mem_append_right _ List.mem_cons_self)).2.2
  refine ⟨h.top_mem, hplain, ?_⟩
  by_cases hne : ns = []
  · have htop := h.top_mem
    rw [List.mem_cons, List.mem_singleton] at htop
    rw [h.eq, hne, List.nil_append, ofNames_singleton]
    rcases htop with rfl | rfl
    · rw [folder, String.toList_append,
        show "/".toList ++ n.toList = [] ++ '/' :: n.toList from rfl, lastCut?_append hslash]
      rfl
    · rw [folder, String.toList_append,
        show "//".toList ++ n.toList = ['/'] ++ '/' :: n.toList from rfl, lastCut?_append hslash]
      rfl
  · have hbase : Normal top ns (top ++ ofNames ns) := ⟨h.top_mem, hplain, rfl⟩
    rw [h.eq, ofNames_append hne (List.cons_ne_nil _ _), ofNames_singleton, ← String.append_assoc,
      ← String.append_assoc, folder_slash hslash hbase.ne_empty (hbase.ends_slash_iff.not.mpr hne)]

/-- A normal path is its last name behind what stands above. -/
theorem Normal.join_above {n : String} (h : Normal top (ns ++ [n]) path) :
    Path.join (folder path) n = path := by
  have hlast : ∀ m ∈ [n], IsPlain m := fun m hm => h.plain m (List.mem_append_right _ hm)
  have hjoin := h.above.join (List.cons_ne_nil _ _) hlast
  rw [ofNames_singleton] at hjoin
  rw [hjoin.eq, ← h.eq]

/-! ## Extensions -/

theorem extension_congr {a b : String} (h : fileName a = fileName b) :
    extension a = extension b := by
  rw [extension, extension, h]

theorem lastCut?_suffix {sep : Char} {s before after : List Char}
    (h : lastCut? sep s = some (before, after)) : sep :: after <:+ s := by
  rw [lastCut?_eq_some h]
  exact List.suffix_append _ _

theorem fileName_suffix (path : String) : (fileName path).toList <:+ path.toList := by
  rw [fileName]
  split
  · rename_i before after hcut
    rw [String.toList_ofList]
    exact (List.suffix_cons _ _).trans (lastCut?_suffix hcut)
  · exact List.suffix_rfl

theorem extension_suffix (path : String) : (extension path).toList <:+ path.toList := by
  rw [extension]
  split
  · rename_i before after hcut
    rw [String.toList_ofList]
    exact ((lastCut?_suffix hcut).trans (List.dropWhile_suffix _)).trans (fileName_suffix path)
  · exact List.nil_suffix

/-- A path is what stands in front of its extension, and that. -/
theorem withoutExtension_append (path : String) :
    withoutExtension path ++ extension path = path := by
  obtain ⟨front, hfront⟩ := extension_suffix path
  have hlength : path.length - (extension path).length = front.length := by
    rw [← String.length_toList, ← String.length_toList, ← hfront, List.length_append,
      Nat.add_sub_cancel]
  rw [← String.toList_inj, String.toList_append, withoutExtension, String.toList_ofList, hlength,
    ← hfront, List.take_left]

theorem ofNames_concat_append (ms : List String) (a b : String) :
    ofNames (ms ++ [a ++ b]) = ofNames (ms ++ [a]) ++ b := by
  by_cases hne : ms = []
  · rw [hne, List.nil_append, List.nil_append, ofNames_singleton, ofNames_singleton]
  · rw [ofNames_append hne (List.cons_ne_nil _ _), ofNames_append hne (List.cons_ne_nil _ _),
      ofNames_singleton, ofNames_singleton]
    simp only [String.append_assoc]

/-- What stands in front of an extension keeps the names above it. -/
theorem withoutExtension_concat {n : String} (h : '/' ∉ n.toList) (ms : List String) :
    withoutExtension (ofNames (ms ++ [n])) = ofNames (ms ++ [withoutExtension n]) := by
  have hextension : extension (ofNames (ms ++ [n])) = extension n :=
    extension_congr ((fileName_concat h ms).trans (fileName_of_plain h).symm)
  have hpath := withoutExtension_append (ofNames (ms ++ [n]))
  rw [hextension] at hpath
  refine (String.append_left_inj (extension n)).mp ?_
  rw [hpath, ← ofNames_concat_append, withoutExtension_append]

/-! ## Names in the text of a path -/

/-- Names between slashes stand in the text of a path where they stand among its names, with some
name before them and some name behind them. -/
theorem infix_toList_iff {words : List String} (hne : words ≠ [])
    (h : ∀ word ∈ words, '/' ∉ word.toList) :
    ("/" ++ ofNames words ++ "/").toList <:+: path.toList ↔
      ∃ before after, before ≠ [] ∧ after ≠ [] ∧ names path = before ++ (words ++ after) := by
  have hwords : names (ofNames words) = words := Text.cutString_intercalate hne h
  constructor
  · rintro ⟨before, after, hpath⟩
    have htext : path = String.ofList before ++ "/" ++ ofNames words ++ "/" ++
        String.ofList after := by
      simp [← String.toList_inj, ← hpath]
    refine ⟨names (String.ofList before), names (String.ofList after), Text.cutString_ne_nil _ _,
      Text.cutString_ne_nil _ _, ?_⟩
    rw [htext, names_slash, names_slash, hwords, List.append_assoc]
  · rintro ⟨before, after, hbefore, hafter, hnames⟩
    have hpath : ofNames (names path) = path := Text.intercalate_cutString '/' path
    rw [← hpath, hnames, ofNames_append hbefore (List.append_ne_nil_of_left_ne_nil hne after),
      ofNames_append hne hafter]
    exact ⟨(ofNames before).toList, (ofNames after).toList, by simp⟩

/-- Names behind slashes stand at the end of the text of a path where they stand at the end of its
names, with some name before them. -/
theorem suffix_toList_iff {words : List String} (hne : words ≠ [])
    (h : ∀ word ∈ words, '/' ∉ word.toList) :
    ("/" ++ ofNames words).toList <:+ path.toList ↔
      ∃ before, before ≠ [] ∧ names path = before ++ words := by
  have hwords : names (ofNames words) = words := Text.cutString_intercalate hne h
  constructor
  · rintro ⟨before, hpath⟩
    have htext : path = String.ofList before ++ "/" ++ ofNames words := by
      simp [← String.toList_inj, ← hpath]
    exact ⟨names (String.ofList before), Text.cutString_ne_nil _ _,
      by rw [htext, names_slash, hwords]⟩
  · rintro ⟨before, hbefore, hnames⟩
    have hpath : ofNames (names path) = path := Text.intercalate_cutString '/' path
    rw [← hpath, hnames, ofNames_append hbefore hne]
    exact ⟨(ofNames before).toList, by simp⟩

/-- The empty names at the top of a normal path are none of the words that stand on it. -/
theorem Normal.exists_before_iff (h : Normal top ns path) {words : List String} {w : String}
    (hw : w ≠ "") :
    (∃ before, before ≠ [] ∧ names path = before ++ (w :: words)) ↔ w :: words <:+ ns := by
  obtain ⟨k, hk⟩ := h.exists_names
  rw [hk]
  constructor
  · rintro ⟨before, -, heq⟩
    rcases List.append_eq_append_iff.mp heq with ⟨as, -, hns⟩ | ⟨bs, hempty, hwords⟩
    · exact ⟨as, hns.symm⟩
    · cases bs with
      | nil => exact ⟨[], hwords⟩
      | cons b bs =>
        have hb : b ∈ List.replicate (k + 1) "" := by
          rw [hempty]
          exact List.mem_append_right _ List.mem_cons_self
        rw [(List.cons.inj hwords).1, List.eq_of_mem_replicate hb] at hw
        exact absurd rfl hw
  · rintro ⟨before, hns⟩
    refine ⟨List.replicate (k + 1) "" ++ before, ?_, ?_⟩
    · exact List.append_ne_nil_of_left_ne_nil (by simp) before
    · rw [← hns, List.append_assoc]

/-- The end of a path is the end of its last name, if it is no longer. -/
theorem Normal.suffix_iff {n : String} (h : Normal top (ns ++ [n]) path) {s : List Char}
    (hs : '/' ∉ s) : s <:+ path.toList ↔ s <:+ n.toList := by
  have hname : ('/' :: n.toList) <:+ path.toList := by
    have hn : n ≠ "" := (h.plain n (List.mem_append_right _ List.mem_cons_self)).ne_empty
    have hslash : '/' ∉ n.toList := (h.plain n (List.mem_append_right _ List.mem_cons_self)).2.2
    have hend := (suffix_toList_iff (List.cons_ne_nil n []) (by simpa using hslash)).mpr
      ((h.exists_before_iff hn).mpr (List.suffix_append ns [n]))
    rwa [ofNames_singleton, String.toList_append] at hend
  constructor
  · intro hend
    by_cases hlength : s.length ≤ n.toList.length
    · exact List.suffix_of_suffix_length_le hend ((List.suffix_cons _ _).trans hname) hlength
    · have hlong := List.suffix_of_suffix_length_le hname hend (by
        rw [List.length_cons]
        omega)
      exact absurd (hlong.subset List.mem_cons_self) hs
  · exact fun hend => (hend.trans (List.suffix_cons _ _)).trans hname

end Ambient.Files.Path
