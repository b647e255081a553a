import Ambient.Proofs.Text.Cut
import Ambient.Text.Blank
import Mathlib.Data.List.DropRight
import Mathlib.Data.List.Infix

/-!
# Blanks at the ends of a text, and its lines

* `trimRight_append`, `trim_isInfix`, `head?_trim`, `getLast?_trim`, `trim_eq_self`: what is left of
  a text without the blanks at its ends;
* `exists_lines_cons`, `exists_lines_concat`: where the ends of a text stand in its lines;
* `break_notMem_of_mem_lines`, `infix_of_mem_lines`: what its lines are made of;
* **`lines_glue`**, `lines_glue_feed`: lines joined by feeds are told apart again, unless the last
  one is empty and no feed stands behind it.
-/

namespace Ambient.Text

variable {s t : List Char} {c : Char}

/-! ## Blanks -/

theorem isBlank_of_isBreak (h : isBreak c = true) : isBlank c = true := by
  simp only [isBreak, Bool.or_eq_true, Bool.and_eq_true, decide_eq_true_eq, beq_iff_eq] at h
  simp only [isBlank, Bool.or_eq_true, Bool.and_eq_true, decide_eq_true_eq, beq_iff_eq]
  omega

theorem isBreak_of_not_blank (h : isBlank c = false) : isBreak c = false := by
  by_contra hbreak
  rw [isBlank_of_isBreak (by simpa using hbreak)] at h
  cases h

theorem trimRight_eq_rdropWhile (s : List Char) : trimRight s = s.rdropWhile isBlank := rfl

theorem trimRight_append (s t : List Char) :
    trimRight (s ++ t) = if trimRight t = [] then trimRight s else s ++ trimRight t := by
  simp only [trimRight, List.reverse_append, List.dropWhile_append, List.reverse_eq_nil_iff,
    List.isEmpty_iff]
  split
  · rfl
  · rw [List.reverse_append, List.reverse_reverse]

theorem trimRight_eq_nil (h : ∀ c ∈ s, isBlank c = true) : trimRight s = [] :=
  List.rdropWhile_eq_nil_iff.mpr h

theorem trimRight_concat_of_not_blank (h : isBlank c = false) : trimRight (s ++ [c]) = s ++ [c] :=
  List.rdropWhile_concat_neg _ _ _ (by simp [h])

theorem trimRight_cons_of_not_blank (h : isBlank c = false) (s : List Char) :
    trimRight (c :: s) = c :: trimRight s := by
  have hc : trimRight [c] = [c] := trimRight_concat_of_not_blank (s := []) h
  rw [← List.singleton_append, trimRight_append, hc]
  split
  · rename_i hs
    rw [hs]
  · rfl

theorem trim_isInfix (s : List Char) : trim s <:+: s := by
  have hright : trim s <+: trimLeft s := List.rdropWhile_prefix isBlank _
  exact hright.isInfix.trans (List.dropWhile_suffix isBlank).isInfix

theorem head?_trim (h : trim s ≠ []) : ∃ c t, trim s = c :: t ∧ isBlank c = false := by
  obtain ⟨c, t, hct⟩ : ∃ c t, trimLeft s = c :: t := by
    refine List.exists_cons_of_ne_nil fun hnil => h ?_
    rw [trim, hnil]
    rfl
  have hc : isBlank c = false := by
    have hhead := List.head?_dropWhile_not isBlank s
    rw [trimLeft] at hct
    simpa only [hct, List.head?_cons] using hhead
  exact ⟨c, trimRight t, by rw [trim, hct, trimRight_cons_of_not_blank hc], hc⟩

theorem getLast?_trim (h : trim s ≠ []) : ∃ t c, trim s = t ++ [c] ∧ isBlank c = false := by
  refine ⟨(trim s).dropLast, (trim s).getLast h, (List.dropLast_append_getLast h).symm, ?_⟩
  exact Bool.eq_false_iff.mpr (List.rdropWhile_last_not isBlank (trimLeft s) h)

theorem trim_eq_self {a b : Char} (hs : s = a :: t) (ha : isBlank a = false)
    {u : List Char} (hu : s = u ++ [b]) (hb : isBlank b = false) : trim s = s := by
  rw [trim, hs, trimLeft_of_not_blank ha, ← hs, hu, trimRight_concat_of_not_blank hb]

theorem trim_trim (s : List Char) : trim (trim s) = trim s := by
  by_cases h : trim s = []
  · rw [h, trim_nil]
  obtain ⟨a, t, hs, ha⟩ := head?_trim h
  obtain ⟨u, b, hu, hb⟩ := getLast?_trim h
  exact trim_eq_self hs ha hu hb

theorem trim_cons_of_blank (h : isBlank c = true) (s : List Char) : trim (c :: s) = trim s := by
  rw [trim, trimLeft, List.dropWhile_cons_of_pos h, trim, trimLeft]

theorem trim_concat_of_blank (h : isBlank c = true) (s : List Char) :
    trim (s ++ [c]) = trim s := by
  rw [trim, trimLeft, List.dropWhile_append, trim, trimLeft]
  split
  · rename_i hs
    rw [List.isEmpty_iff.mp hs, List.dropWhile_cons_of_pos h]
    rfl
  · rw [trimRight_append, if_pos (trimRight_eq_nil (by simpa using h))]

theorem exists_blanks (s : List Char) : ∃ lead trail, (∀ c ∈ lead, isBlank c = true) ∧
    (∀ c ∈ trail, isBlank c = true) ∧ s = lead ++ (trim s ++ trail) := by
  refine ⟨s.takeWhile isBlank, (trimLeft s).rtakeWhile isBlank, ?_, ?_, ?_⟩
  · exact fun c hc => List.mem_takeWhile_imp hc
  · exact fun c hc => List.mem_rtakeWhile_imp hc
  · rw [trim, trimRight_eq_rdropWhile, List.rdropWhile_append_rtakeWhile, trimLeft,
      List.takeWhile_append_dropWhile]

theorem trim_between {lead trail : List Char} (hlead : ∀ c ∈ lead, isBlank c = true)
    (htrail : ∀ c ∈ trail, isBlank c = true) (s : List Char) :
    trim (lead ++ (s ++ trail)) = trim s := by
  have hleft : trim (lead ++ (s ++ trail)) = trim (s ++ trail) := by
    rw [trim, trimLeft, List.dropWhile_append_of_pos hlead, trim, trimLeft]
  rw [hleft]
  clear hleft
  induction trail using List.reverseRecOn with
  | nil => rw [List.append_nil]
  | append_singleton trail c ih =>
    rw [List.forall_mem_append, List.forall_mem_singleton] at htrail
    rw [← List.append_assoc, trim_concat_of_blank htrail.2, ih htrail.1]

/-! ## Lines -/

theorem lines_cons_of_break (h : isBreak c = true) (hs : c = '\r' → s.head? ≠ some '\n') :
    lines (c :: s) = [] :: lines s := by
  rw [lines, if_pos h]
  rintro rest rfl rfl
  exact hs rfl rfl

theorem lines_cons_of_not_break (h : isBreak c = false) (s : List Char) :
    lines (c :: s) = (c :: ((lines s).head?).getD []) :: (lines s).tail := by
  rw [lines, h, if_neg Bool.false_ne_true]
  · cases lines s <;> rfl
  · rintro rest rfl rfl
    cases h

theorem break_notMem_of_mem_lines {line : List Char} (h : line ∈ lines s) :
    ∀ c ∈ line, isBreak c = false := by
  fun_induction lines s generalizing line with
  | case1 => cases h
  | case2 rest ih =>
    rcases List.mem_cons.mp h with rfl | h
    · simp
    · exact ih h
  | case3 c rest hnot hbreak ih =>
    rcases List.mem_cons.mp h with rfl | h
    · simp
    · exact ih h
  | case4 c rest hnot hbreak hlines =>
    obtain rfl : line = [c] := List.mem_singleton.mp h
    simpa using hbreak
  | case5 c rest hnot hbreak first others hlines ih =>
    rw [hlines] at ih
    rcases List.mem_cons.mp h with rfl | h
    · rw [List.forall_mem_cons]
      exact ⟨by simpa using hbreak, ih List.mem_cons_self⟩
    · exact ih (List.mem_cons_of_mem _ h)

/-- The first line begins the text, and every line stands in it. -/
theorem prefix_infix_lines (s : List Char) :
    (∀ line ∈ (lines s).head?, line <+: s) ∧ ∀ line ∈ lines s, line <:+: s := by
  fun_induction lines s with
  | case1 => simp
  | case2 rest ih =>
    refine ⟨by simp, List.forall_mem_cons.mpr ⟨List.nil_infix, fun line h => ?_⟩⟩
    exact (ih.2 line h).trans (List.suffix_append ['\r', '\n'] rest).isInfix
  | case3 c rest hnot hbreak ih =>
    refine ⟨by simp, List.forall_mem_cons.mpr ⟨List.nil_infix, fun line h => ?_⟩⟩
    exact (ih.2 line h).trans (List.suffix_cons c rest).isInfix
  | case4 c rest hnot hbreak hlines =>
    have hfirst : [c] <+: c :: rest := List.prefix_append [c] rest
    exact ⟨by simp, by simpa using hfirst.isInfix⟩
  | case5 c rest hnot hbreak first others hlines ih =>
    rw [hlines] at ih
    have hfirst : c :: first <+: c :: rest := List.cons_prefix_cons.mpr ⟨rfl, ih.1 first rfl⟩
    refine ⟨by simpa using hfirst, List.forall_mem_cons.mpr ⟨hfirst.isInfix, fun line h => ?_⟩⟩
    exact (ih.2 line (List.mem_cons_of_mem _ h)).trans (List.suffix_cons c rest).isInfix

theorem infix_of_mem_lines {line : List Char} (h : line ∈ lines s) : line <:+: s :=
  (prefix_infix_lines s).2 line h

theorem exists_lines_cons (h : isBreak c = false) (s : List Char) :
    ∃ line others, lines (c :: s) = (c :: line) :: others :=
  ⟨_, _, lines_cons_of_not_break h s⟩

theorem exists_lines_concat (h : isBreak c = false) (s : List Char) :
    ∃ others line, lines (s ++ [c]) = others ++ [line ++ [c]] := by
  fun_induction lines s with
  | case1 => exact ⟨[], [], lines_cons_of_not_break h []⟩
  | case2 rest ih =>
    obtain ⟨others, line, hlines⟩ := ih
    refine ⟨[] :: others, line, ?_⟩
    rw [List.cons_append, List.cons_append, lines, hlines, List.cons_append]
  | case3 d rest hnot hbreak ih =>
    obtain ⟨others, line, hlines⟩ := ih
    have hhead : d = '\r' → (rest ++ [c]).head? ≠ some '\n' := by
      intro hd hfeed
      cases rest with
      | nil =>
        obtain rfl : c = '\n' := by simpa using hfeed
        cases h
      | cons e rest =>
        obtain rfl : e = '\n' := by simpa using hfeed
        exact hnot rest hd rfl
    refine ⟨[] :: others, line, ?_⟩
    rw [List.cons_append, lines_cons_of_break hbreak hhead, hlines, List.cons_append]
  | case4 d rest hnot hbreak hrest ih =>
    obtain ⟨others, line, hlines⟩ := ih
    rw [List.cons_append, lines_cons_of_not_break (by simpa using hbreak), hlines]
    cases others with
    | nil => exact ⟨[], d :: line, rfl⟩
    | cons first others => exact ⟨(d :: first) :: others, line, rfl⟩
  | case5 d rest hnot hbreak first others hrest ih =>
    obtain ⟨others, line, hlines⟩ := ih
    rw [List.cons_append, lines_cons_of_not_break (by simpa using hbreak), hlines]
    cases others with
    | nil => exact ⟨[], d :: line, rfl⟩
    | cons first others => exact ⟨(d :: first) :: others, line, rfl⟩

theorem lines_append_feed {line : List Char} (h : ∀ c ∈ line, isBreak c = false) (s : List Char) :
    lines (line ++ '\n' :: s) = line :: lines s := by
  induction line with
  | nil => rw [List.nil_append, lines_cons_of_break rfl (by rintro ⟨⟩)]
  | cons c line ih =>
    rw [List.forall_mem_cons] at h
    rw [List.cons_append, lines_cons_of_not_break h.1, ih h.2, List.head?_cons, Option.getD_some,
      List.tail_cons]

theorem lines_of_not_break {line : List Char} (hne : line ≠ [])
    (h : ∀ c ∈ line, isBreak c = false) : lines line = [line] := by
  induction line with
  | nil => exact absurd rfl hne
  | cons c line ih =>
    rw [List.forall_mem_cons] at h
    rw [lines_cons_of_not_break h.1]
    by_cases hnil : line = []
    · subst hnil
      rfl
    · rw [ih hnil h.2]
      rfl

/-- **Lines joined by feeds** are the lines of the text, unless the last one is empty. -/
theorem lines_glue {others : List (List Char)} {last : List Char} (hlast : last ≠ [])
    (h : ∀ line ∈ others ++ [last], ∀ c ∈ line, isBreak c = false) :
    lines (glue '\n' (others ++ [last])) = others ++ [last] := by
  induction others with
  | nil => exact lines_of_not_break hlast (h last (by simp))
  | cons first others ih =>
    rw [List.cons_append, List.forall_mem_cons] at h
    obtain ⟨next, later, hlater⟩ : ∃ next later, others ++ [last] = next :: later := by
      cases others <;> exact ⟨_, _, rfl⟩
    have hrest := ih h.2
    rw [hlater] at hrest
    rw [List.cons_append, hlater, glue, lines_append_feed h.1, hrest]

/-- Behind the last of the lines a feed stands as well. -/
theorem lines_glue_feed {parts : List (List Char)} (hne : parts ≠ [])
    (h : ∀ line ∈ parts, ∀ c ∈ line, isBreak c = false) :
    lines (glue '\n' parts ++ ['\n']) = parts := by
  induction parts with
  | nil => exact absurd rfl hne
  | cons line later ih =>
    rw [List.forall_mem_cons] at h
    by_cases hnil : later = []
    · subst hnil
      rw [glue, lines_append_feed h.1]
      rfl
    · rw [glue_cons hnil, List.append_assoc, List.cons_append, lines_append_feed h.1, ih hnil h.2]

end Ambient.Text
