import Ambient.Declaration.Printer
import Ambient.Proofs.Text.Lines
import Ambient.Script.Program
import Mathlib.Data.List.Chain

/-!
# Comments printed again

A documentation block is printed on lines of its own, each behind the same margin and the same
decoration. Reading the printed block takes the margin and the decoration away again, and what is
left are the lines of the first reading without the blanks at their ends.

* `Unclosed`: a text without the mark that closes a block, and what keeps it so;
* `decorate`, `undecorate_decorate`: one printed line, and the same line read;
* `trim_glue_body`, `body_glue`: the lines of a trimmed text without the blanks at their ends;
* `unwrapChars_reprinted`: the printed lines read together;
* **`comment_reprinted`**: the block that is printed for a documentation block.
-/

namespace Ambient.Declaration

open Ambient.Doc (Comment undecorate unwrapChars)

variable {s t u line margin : List Char}

/-! ## The mark that closes a block -/

/-- No mark that closes a block stands in a text. -/
def Unclosed (s : List Char) : Prop := s.IsChain fun c d => ¬ (c = '*' ∧ d = '/')

theorem unclosed_iff : Unclosed s ↔ ¬ ['*', '/'] <:+: s := by
  rw [Unclosed, List.isChain_iff_forall_rel_of_append_cons_cons]
  constructor
  · rintro h ⟨before, after, hs⟩
    rw [List.append_assoc, List.cons_append, List.cons_append, List.nil_append] at hs
    exact h hs.symm ⟨rfl, rfl⟩
  · rintro h c d before after hs ⟨rfl, rfl⟩
    exact h ⟨before, after, by simp [hs]⟩

theorem unclosed_of_notMem (h : '*' ∉ s) : Unclosed s := by
  rw [unclosed_iff]
  exact fun hmark => h (hmark.subset (by simp))

theorem Unclosed.part (h : Unclosed s) (ht : t <:+: s) : Unclosed t := List.IsChain.infix h ht

theorem Unclosed.append (hs : Unclosed s) (ht : Unclosed t)
    (h : s.getLast? = some '*' → t.head? ≠ some '/') : Unclosed (s ++ t) := by
  refine List.IsChain.append hs ht ?_
  rintro c hc d hd ⟨rfl, rfl⟩
  exact h hc hd

theorem Unclosed.glue {pieces : List (List Char)} (h : ∀ piece ∈ pieces, Unclosed piece) :
    Unclosed (Text.glue '\n' pieces) := by
  induction pieces with
  | nil => exact List.isChain_nil
  | cons first later ih =>
    rw [List.forall_mem_cons] at h
    by_cases hnil : later = []
    · subst hnil
      exact h.1
    · have hfeed : Unclosed ['\n'] := List.isChain_singleton _
      rw [Text.glue_cons hnil]
      exact h.1.append (hfeed.append (ih h.2) (by simp)) (by simp)

theorem undecorate_suffix (line : List Char) : undecorate line <:+ line := by
  have hdrop : line.dropWhile Doc.isIndent <:+ line := List.dropWhile_suffix _
  unfold undecorate
  split
  · rename_i c rest hline
    rw [hline] at hdrop
    split
    · exact (List.suffix_append ['*', c] rest).trans hdrop
    · exact (List.suffix_cons '*' (c :: rest)).trans hdrop
  · exact List.nil_suffix
  · exact hdrop

theorem Unclosed.unwrapChars (h : Unclosed s) : Unclosed (unwrapChars s) := by
  refine Unclosed.part (Unclosed.glue fun piece hpiece => ?_) (Text.trim_isInfix _)
  obtain ⟨line, hline, rfl⟩ := List.mem_map.mp hpiece
  exact (h.part (Text.infix_of_mem_cut hline)).part (undecorate_suffix line).isInfix

/-- A block that is closed at the end of a text, and nowhere before. -/
theorem blockLength?_eq (h : Unclosed (s ++ ['*'])) (after : List Char) :
    Script.blockLength? (s ++ '*' :: '/' :: after) = some (s.length + 2) := by
  induction s with
  | nil => rfl
  | cons c s ih =>
    have hrest : Unclosed (s ++ ['*']) := h.part (List.suffix_cons c _).isInfix
    rw [List.cons_append, Script.blockLength?, ih hrest]
    · rfl
    · rintro rest rfl hs
      rw [unclosed_iff] at h
      refine h ⟨[], (s ++ ['*']).tail, ?_⟩
      cases s with
      | nil => cases hs
      | cons d s =>
        obtain ⟨rfl, -⟩ := List.cons.inj hs
        rfl

/-- A script has such a block for a comment. -/
theorem element?_block (h : Unclosed (s ++ ['*'])) {cursor : Script.Cursor} {after : List Char}
    (hcursor : cursor.rest = '/' :: '*' :: (s ++ '*' :: '/' :: after)) (depth line : ℕ) :
    Script.element? depth line cursor =
      some (.comment ⟨.block, String.ofList s⟩, cursor.drop (s.length + 4)) := by
  have hlength := blockLength?_eq h after
  have htake : (s ++ '*' :: '/' :: after).take (s.length + 2 - 2) = s := by
    rw [Nat.add_sub_cancel, List.take_left]
  rw [Script.element?, hcursor]
  simp only [hlength, Option.map_some, htake]

theorem unclosed_of_blockLength? {n : ℕ} (h : Script.blockLength? s = some n) :
    Unclosed (s.take (n - 1)) := by
  fun_induction Script.blockLength? s generalizing n with
  | case1 => cases h
  | case2 rest =>
    obtain rfl := Option.some.inj h
    exact List.isChain_singleton _
  | case3 c rest hnot ih =>
    obtain ⟨n, hn, rfl⟩ := Option.map_eq_some_iff.mp h
    rw [Nat.add_sub_cancel]
    cases n with
    | zero => exact List.isChain_nil
    | succ n =>
      have hfirst : Unclosed [c] := List.isChain_singleton _
      rw [List.take_succ_cons]
      refine hfirst.append (ih hn) fun hstar hslash => ?_
      -- Then the block is closed here already.
      obtain rfl : c = '*' := by simpa using hstar
      cases rest with
      | nil => simp at hslash
      | cons d rest =>
        cases n with
        | zero => simp at hslash
        | succ n =>
          obtain rfl : d = '/' := by simpa using hslash
          exact hnot rest rfl rfl

/-- Every block comment of a script comes without the mark that closes it. -/
theorem mark_notMem_of_element? {depth line : ℕ} {cursor later : Script.Cursor} {c : Comment}
    (h : Script.element? depth line cursor = some (.comment c, later)) (hdoc : c.isDoc = true) :
    ¬ ['*', '/'] <:+: c.value.toList := by
  unfold Script.element? at h
  split at h
  · obtain ⟨hc, -⟩ := Prod.mk.inj (Option.some.inj h)
    obtain rfl := Script.Element.comment.inj hc
    simp [Comment.isDoc] at hdoc
  · rename_i rest hrest
    obtain ⟨n, hn, hc⟩ := Option.map_eq_some_iff.mp h
    obtain rfl := Script.Element.comment.inj (Prod.mk.inj hc).1
    rw [String.toList_ofList, ← unclosed_iff]
    have hshort : rest.take (n - 2) <+: rest.take (n - 1) := List.take_prefix_take_left (by omega)
    exact (unclosed_of_blockLength? hn).part hshort.isInfix
  · cases (Prod.mk.inj (Option.some.inj h)).1
  · cases (Prod.mk.inj (Option.some.inj h)).1
  · obtain ⟨form, hform, hc⟩ := Option.map_eq_some_iff.mp h
    cases (Prod.mk.inj hc).1

/-! ## One line -/

/-- A line of a comment behind its margin and its decoration. -/
def decorate (margin line : List Char) : List Char :=
  margin ++ ' ' :: '*' :: if line = [] then [] else ' ' :: line

theorem trimRight_decorated (margin line : List Char) :
    Text.trimRight (margin ++ ' ' :: '*' :: ' ' :: line) =
      decorate margin (Text.trimRight line) := by
  have hsplit : margin ++ ' ' :: '*' :: ' ' :: line = (margin ++ [' ', '*', ' ']) ++ line := by simp
  rw [hsplit, Text.trimRight_append, decorate]
  by_cases h : Text.trimRight line = []
  · have hmargin : margin ++ [' ', '*', ' '] = (margin ++ [' ', '*']) ++ [' '] := by simp
    have hstar : margin ++ [' ', '*'] = (margin ++ [' ']) ++ ['*'] := by simp
    rw [if_pos h, if_pos h, hmargin, Text.trimRight_append,
      if_pos (Text.trimRight_eq_nil (by simp [Text.isBlank])), hstar,
      Text.trimRight_concat_of_not_blank rfl]
  · rw [if_neg h, if_neg h, List.append_assoc]
    rfl

theorem dropWhile_indent (hmargin : ∀ b ∈ margin, Doc.isIndent b = true) (s : List Char) :
    (margin ++ s).dropWhile Doc.isIndent = s.dropWhile Doc.isIndent :=
  List.dropWhile_append_of_pos hmargin

theorem undecorate_decorate (hmargin : ∀ b ∈ margin, Doc.isIndent b = true) (line : List Char) :
    undecorate (decorate margin line) = line := by
  have hdrop : (decorate margin line).dropWhile Doc.isIndent =
      '*' :: if line = [] then [] else ' ' :: line := by
    rw [decorate, dropWhile_indent hmargin]
    rfl
  rw [undecorate, hdrop]
  by_cases h : line = []
  · subst h
    rfl
  · rw [if_neg h]
    rfl

theorem Unclosed.decorate (hmargin : ∀ b ∈ margin, Doc.isIndent b = true) (h : Unclosed line) :
    Unclosed (decorate margin line) := by
  have hfront : Unclosed margin := unclosed_of_notMem fun hstar => by cases hmargin _ hstar
  refine hfront.append ?_ (fun _ => by simp)
  by_cases hnil : line = []
  · rw [if_pos hnil]
    simp [Unclosed]
  · have hblank : Unclosed [' ', '*', ' '] := by simp [Unclosed]
    rw [if_neg hnil]
    exact hblank.append h (by simp)

/-! ## The lines of a comment -/

/-- The lines of a text; one empty line for a text without any. -/
def body (s : List Char) : List (List Char) :=
  match Text.lines s with
  | [] => [[]]
  | lines => lines

theorem body_of_lines_ne_nil (h : Text.lines s ≠ []) : body s = Text.lines s := by
  unfold body
  split
  · rename_i hlines
    exact absurd hlines h
  · rfl

theorem body_of_lines_eq_nil (h : Text.lines s = []) : body s = [[]] := by
  rw [body, h]

theorem body_ne_nil (s : List Char) : body s ≠ [] := by
  by_cases h : Text.lines s = []
  · rw [body_of_lines_eq_nil h]
    exact List.cons_ne_nil _ _
  · rwa [body_of_lines_ne_nil h]

theorem infix_of_mem_body (h : line ∈ body s) :
    line <:+: s ∧ ∀ c ∈ line, Text.isBreak c = false := by
  by_cases hlines : Text.lines s = []
  · rw [body_of_lines_eq_nil hlines, List.mem_singleton] at h
    subst h
    exact ⟨List.nil_infix, by simp⟩
  · rw [body_of_lines_ne_nil hlines] at h
    exact ⟨Text.infix_of_mem_lines h, Text.break_notMem_of_mem_lines h⟩

/-- What can be said about the lines of a trimmed text that has any: the first begins and the last
ends with a character that is not blank. -/
theorem exists_body_ends (hu : Text.trim u = u) (hne : u ≠ []) :
    (∃ a line others, body u = (a :: line) :: others ∧ Text.isBlank a = false) ∧
      ∃ others line b, body u = others ++ [line ++ [b]] ∧ Text.isBlank b = false := by
  have hne' : Text.trim u ≠ [] := by rwa [hu]
  obtain ⟨a, t, hat, ha⟩ := Text.head?_trim hne'
  obtain ⟨t', b, htb, hb⟩ := Text.getLast?_trim hne'
  rw [hu] at hat htb
  obtain ⟨line, others, hfirst⟩ := Text.exists_lines_cons (Text.isBreak_of_not_blank ha) t
  obtain ⟨others', line', hlast⟩ := Text.exists_lines_concat (Text.isBreak_of_not_blank hb) t'
  rw [← hat] at hfirst
  rw [← htb] at hlast
  have hbody : body u = Text.lines u := body_of_lines_ne_nil (by simp [hfirst])
  exact ⟨⟨a, line, others, hbody.trans hfirst, ha⟩, others', line', b, hbody.trans hlast, hb⟩

/-- The lines of a text without the blanks at their ends. -/
def trimmedBody (s : List Char) : List (List Char) := (body s).map Text.trimRight

theorem trimmedBody_ne_nil (s : List Char) : trimmedBody s ≠ [] :=
  List.map_eq_nil_iff.not.mpr (body_ne_nil s)

theorem infix_of_mem_trimmedBody (h : line ∈ trimmedBody s) :
    line <:+: s ∧ ∀ c ∈ line, Text.isBreak c = false := by
  obtain ⟨whole, hwhole, rfl⟩ := List.mem_map.mp h
  have hfront : Text.trimRight whole <+: whole := List.rdropWhile_prefix Text.isBlank _
  obtain ⟨hpart, hbreak⟩ := infix_of_mem_body hwhole
  exact ⟨hfront.isInfix.trans hpart, fun c hc => hbreak c (hfront.subset hc)⟩

/-- The one line of a text without lines is not seen when the lines are joined. -/
theorem glue_trimmedBody (s : List Char) :
    Text.glue '\n' (trimmedBody s) = Text.glue '\n' ((Text.lines s).map Text.trimRight) := by
  by_cases h : Text.lines s = []
  · rw [trimmedBody, body_of_lines_eq_nil h, h]
    rfl
  · rw [trimmedBody, body_of_lines_ne_nil h]

theorem trim_glue_trimmedBody (hu : Text.trim u = u) :
    Text.trim (Text.glue '\n' (trimmedBody u)) = Text.glue '\n' (trimmedBody u) := by
  by_cases hne : u = []
  · subst hne
    rfl
  obtain ⟨⟨a, line, others, hfirst, ha⟩, others', line', b, hlast, hb⟩ := exists_body_ends hu hne
  have hhead : Text.glue '\n' (trimmedBody u) =
      a :: Text.glue '\n' (Text.trimRight line :: others.map Text.trimRight) := by
    rw [trimmedBody, hfirst, List.map_cons, Text.trimRight_cons_of_not_blank ha]
    exact Text.glue_append_cons [a] _ _
  have htail : Text.glue '\n' (trimmedBody u) =
      Text.glue '\n' (others'.map Text.trimRight ++ [line']) ++ [b] := by
    rw [trimmedBody, hlast, List.map_append, List.map_singleton,
      Text.trimRight_concat_of_not_blank hb]
    exact Text.glue_concat_append _ _ _
  exact Text.trim_eq_self hhead ha htail hb

theorem body_glue_trimmedBody (hu : Text.trim u = u) :
    body (Text.glue '\n' (trimmedBody u)) = trimmedBody u := by
  by_cases hne : u = []
  · subst hne
    rfl
  obtain ⟨-, others, line, b, hlast, hb⟩ := exists_body_ends hu hne
  have htrimmed : trimmedBody u = others.map Text.trimRight ++ [line ++ [b]] := by
    rw [trimmedBody, hlast, List.map_append, List.map_singleton,
      Text.trimRight_concat_of_not_blank hb]
  have hbreaks : ∀ l ∈ trimmedBody u, ∀ c ∈ l, Text.isBreak c = false :=
    fun l hl => (infix_of_mem_trimmedBody hl).2
  rw [htrimmed] at hbreaks ⊢
  have hlines := Text.lines_glue (List.concat_ne_nil b line) hbreaks
  rw [body_of_lines_ne_nil (by simp [hlines]), hlines]

theorem trimmedBody_glue_trimmedBody (hu : Text.trim u = u) :
    trimmedBody (Text.glue '\n' (trimmedBody u)) = trimmedBody u := by
  have htwice : Text.trimRight ∘ Text.trimRight = Text.trimRight := by
    funext line
    exact List.rdropWhile_idempotent Text.isBlank line
  rw [trimmedBody, body_glue_trimmedBody hu, trimmedBody, List.map_map, htwice]

/-! ## The block -/

/-- What stands between the marks of the block that is printed for a text. -/
def reprinted (margin s : List Char) : List Char :=
  Text.glue '\n'
    (['*'] :: (trimmedBody (unwrapChars s)).map (decorate margin) ++ [margin ++ [' ']])

theorem feed_notMem_of_indent (hmargin : ∀ b ∈ margin, Doc.isIndent b = true) :
    '\n' ∉ margin := fun hfeed => by cases hmargin _ hfeed

theorem feed_notMem_decorate (hmargin : ∀ b ∈ margin, Doc.isIndent b = true)
    (h : ∀ c ∈ line, Text.isBreak c = false) : '\n' ∉ decorate margin line := by
  have hline : '\n' ∉ line := fun hfeed => by cases h _ hfeed
  rw [decorate]
  split <;> simp [feed_notMem_of_indent hmargin, hline]

/-- **The printed lines read together** are the lines that were printed. -/
theorem unwrapChars_reprinted (hmargin : ∀ b ∈ margin, Doc.isIndent b = true) (s : List Char) :
    unwrapChars (reprinted margin s) = Text.glue '\n' (trimmedBody (unwrapChars s)) := by
  have htrim : Text.trim (unwrapChars s) = unwrapChars s := Text.trim_trim _
  have hcut : Text.cut '\n' (reprinted margin s) =
      ['*'] :: (trimmedBody (unwrapChars s)).map (decorate margin) ++ [margin ++ [' ']] := by
    refine Text.cut_glue (by simp) fun piece hpiece => ?_
    rw [List.mem_append, List.mem_cons, List.mem_map, List.mem_singleton] at hpiece
    rcases hpiece with (rfl | ⟨line, hline, rfl⟩) | rfl
    · decide
    · exact feed_notMem_decorate hmargin (infix_of_mem_trimmedBody hline).2
    · simp [feed_notMem_of_indent hmargin]
  have hlines : ((trimmedBody (unwrapChars s)).map (decorate margin)).map undecorate =
      trimmedBody (unwrapChars s) := by
    rw [List.map_map]
    exact List.map_id'' (undecorate_decorate hmargin) _
  have hlast : undecorate (margin ++ [' ']) = [] := by
    rw [undecorate, dropWhile_indent hmargin]
    rfl
  have hfirst : undecorate ['*'] = [] := rfl
  rw [unwrapChars, hcut, List.map_append, List.map_cons, List.map_singleton, hfirst, hlines, hlast,
    Text.glue_concat (List.cons_ne_nil _ _), Text.glue_cons (trimmedBody_ne_nil _),
    Text.trim_concat_of_blank rfl, List.nil_append, Text.trim_cons_of_blank rfl,
    trim_glue_trimmedBody htrim]

/-- The block from its margin on, up to the last character, has no mark that closes it. -/
theorem unclosed_reprinted (hmargin : ∀ b ∈ margin, Doc.isIndent b = true) (hs : Unclosed s) :
    Unclosed (margin ++ '/' :: '*' :: (reprinted margin s ++ ['*'])) := by
  have hsplit : margin ++ '/' :: '*' :: (reprinted margin s ++ ['*']) =
      Text.glue '\n' ((margin ++ ['/', '*', '*']) ::
        (trimmedBody (unwrapChars s)).map (decorate margin) ++ [margin ++ [' ', '*']]) := by
    have hopening : margin ++ ['/', '*', '*'] = (margin ++ ['/', '*']) ++ ['*'] := by simp
    have hclosing : margin ++ [' ', '*'] = (margin ++ [' ']) ++ ['*'] := by simp
    rw [hopening, hclosing, Text.glue_concat_append, List.cons_append, Text.glue_append_cons,
      ← List.cons_append, reprinted]
    simp
  have hfront : Unclosed margin := unclosed_of_notMem fun hstar => by cases hmargin _ hstar
  rw [hsplit]
  refine Unclosed.glue fun piece hpiece => ?_
  rw [List.mem_append, List.mem_cons, List.mem_map, List.mem_singleton] at hpiece
  rcases hpiece with (rfl | ⟨line, hline, rfl⟩) | rfl
  · exact hfront.append (by simp [Unclosed]) fun hstar =>
      absurd (hmargin _ (List.mem_of_getLast? hstar)) (by decide)
  · exact Unclosed.decorate hmargin (hs.unwrapChars.part (infix_of_mem_trimmedBody hline).1)
  · exact hfront.append (by simp [Unclosed]) (by simp)

theorem toList_joinLines (lines : List String) :
    (joinLines lines).toList = Text.glue '\n' (lines.map String.toList) := by
  rw [joinLines, String.toList_intercalate, Text.glue_eq_intercalate]
  rfl

theorem commentBody_eq (comment : String) :
    commentBody comment = (body (unwrapChars comment.toList)).map String.ofList := by
  have hlines : Text.linesOf (Doc.unwrap comment) =
      (Text.lines (unwrapChars comment.toList)).map String.ofList := by
    rw [Text.linesOf, Doc.unwrap, String.toList_ofList]
  rw [commentBody, body, hlines]
  cases Text.lines (unwrapChars comment.toList) <;> rfl

theorem commentLines_eq (margin : String) {comment : String} (h : comment ≠ "") :
    commentLines margin (some comment) =
      (margin ++ "/**") ::
        (trimmedBody (unwrapChars comment.toList)).map
          (fun line => String.ofList (decorate margin.toList line)) ++
        [margin ++ " */"] := by
  have hline : ∀ line : List Char,
      Text.stripRight (margin ++ " * " ++ String.ofList line) =
        String.ofList (decorate margin.toList (Text.trimRight line)) := by
    intro line
    rw [Text.stripRight, ← trimRight_decorated]
    simp
  rw [commentLines, if_neg (by simpa using h), commentBody_eq, trimmedBody, List.map_map,
    List.map_map]
  simp only [Function.comp_def, hline]

theorem toList_block (margin : String) {comment : String} (h : comment ≠ "") :
    (joinLines (commentLines margin (some comment))).toList =
      margin.toList ++ '/' :: '*' :: (reprinted margin.toList comment.toList ++ ['*', '/']) := by
  have hopening : (margin ++ "/**").toList = (margin.toList ++ ['/', '*']) ++ ['*'] := by simp
  have hclosing : (margin ++ " */").toList = (margin.toList ++ [' ']) ++ ['*', '/'] := by simp
  have hlines : String.toList ∘ (fun line => String.ofList (decorate margin.toList line)) =
      decorate margin.toList := by
    funext line
    exact String.toList_ofList
  rw [toList_joinLines, commentLines_eq margin h, List.map_append, List.map_cons, List.map_map,
    List.map_singleton, hlines, hopening, hclosing, Text.glue_concat_append, List.cons_append,
    Text.glue_append_cons, ← List.cons_append, reprinted]
  simp

/-- A block that its last two characters close is not closed before them. -/
theorem Unclosed.eq_nil_of_closed {before after : List Char} (h : Unclosed (s ++ ['*']))
    (hs : s ++ ['*', '/'] = before ++ '*' :: '/' :: after) : after = [] := by
  rcases List.eq_nil_or_concat after with rfl | ⟨after, d, rfl⟩
  · rfl
  · exfalso
    have hsplit : (s ++ ['*']) ++ ['/'] = (before ++ '*' :: '/' :: after) ++ [d] := by
      simpa using hs
    obtain ⟨hmark, -⟩ := List.append_inj' hsplit rfl
    rw [unclosed_iff] at h
    exact h ⟨before, after, by simp [hmark]⟩

/-- **A comment printed again.** The block that is printed behind a margin for a documentation block
is a documentation block, and closed by its last two characters only, so that a script with it has
it for a comment. Its text is that of the first block, line by line, without the blanks at the ends
of the lines, and it is printed like the first one. -/
theorem comment_reprinted {c : Comment} (hdoc : c.isDoc = true)
    (hopen : ¬ ['*', '/'] <:+: c.value.toList) {margin : String}
    (hmargin : ∀ b ∈ margin.toList, Doc.isIndent b = true) :
    ∃ again : Comment, again.isDoc = true ∧
      joinLines (commentLines margin (some c.value)) = margin ++ "/*" ++ again.value ++ "*/" ∧
      (∀ before after, (margin ++ "/*" ++ again.value ++ "*/").toList =
        before ++ '*' :: '/' :: after → after = []) ∧
      (∀ depth line cursor after,
        cursor.rest = ("/*" ++ again.value ++ "*/").toList ++ after →
          Script.element? depth line cursor =
            some (.comment again, cursor.drop (again.value.length + 4))) ∧
      Doc.unwrap again.value =
        joinLines ((Text.linesOf (Doc.unwrap c.value)).map Text.stripRight) ∧
      ∀ other, commentLines other (some again.value) = commentLines other (some c.value) := by
  have hne : c.value ≠ "" := by
    intro hempty
    simp [Comment.isDoc, hempty] at hdoc
  have hfirst : ∃ rest, reprinted margin.toList c.value.toList = '*' :: rest := by
    rw [reprinted, List.cons_append]
    exact ⟨_, Text.glue_append_cons ['*'] [] _⟩
  obtain ⟨rest, hrest⟩ := hfirst
  have htrim : Text.trim (unwrapChars c.value.toList) = unwrapChars c.value.toList :=
    Text.trim_trim _
  have hblock := unclosed_reprinted hmargin (unclosed_iff.mpr hopen)
  have hunwrap := unwrapChars_reprinted hmargin c.value.toList
  refine ⟨⟨.block, String.ofList (reprinted margin.toList c.value.toList)⟩, ?_, ?_, ?_, ?_, ?_, ?_⟩
  · simp [Comment.isDoc, hrest]
  · apply String.toList_injective
    rw [toList_block margin hne]
    simp
  · intro before after hsplit
    have hclosed : Unclosed
        ((margin.toList ++ '/' :: '*' :: reprinted margin.toList c.value.toList) ++ ['*']) := by
      simpa using hblock
    exact hclosed.eq_nil_of_closed (by simpa using hsplit)
  · intro depth line cursor after hcursor
    have hbody : Unclosed (reprinted margin.toList c.value.toList ++ ['*']) :=
      hblock.part ⟨margin.toList ++ ['/', '*'], [], by simp⟩
    have hrest : cursor.rest =
        '/' :: '*' :: (reprinted margin.toList c.value.toList ++ '*' :: '/' :: after) := by
      rw [hcursor]
      simp
    rw [element?_block hbody hrest, String.length_ofList]
  · apply String.toList_injective
    have hlines : ((Text.linesOf (Doc.unwrap c.value)).map Text.stripRight).map String.toList =
        (Text.lines (unwrapChars c.value.toList)).map Text.trimRight := by
      simp [Text.linesOf, Doc.unwrap, Text.stripRight, Function.comp_def]
    rw [toList_joinLines, hlines, ← glue_trimmedBody, ← hunwrap, Doc.unwrap]
    simp
  · intro other
    have hne' : String.ofList (reprinted margin.toList c.value.toList) ≠ "" := by
      simp [hrest]
    rw [commentLines_eq other hne, commentLines_eq other hne', String.toList_ofList, hunwrap,
      trimmedBody_glue_trimmedBody htrim]

/-- A block with stars, an empty line, an indented bullet, a return inside a line and a slash. -/
theorem comment_reprinted_bullets :
    let c : Comment := ⟨.block, "** A *list*: \n *\n\t*   * one\r  two \n * /\n "⟩
    c.isDoc = true ∧ ¬ ['*', '/'] <:+: c.value.toList ∧
      (∀ b ∈ "\t ".toList, Doc.isIndent b = true) ∧
      ∃ again : Comment, again.isDoc = true ∧
        joinLines (commentLines "\t " (some c.value)) = "\t /*" ++ again.value ++ "*/" ∧
        Doc.unwrap again.value = "* A *list*:\n\n  * one\n  two\n/" ∧
        commentLines "\t " (some again.value) = commentLines "\t " (some c.value) := by
  intro c
  have hdoc : c.isDoc = true := by decide +kernel
  have hopen : ¬ ['*', '/'] <:+: c.value.toList := by decide +kernel
  have hmargin : ∀ b ∈ "\t ".toList, Doc.isIndent b = true := List.all_eq_true.mp (by decide)
  obtain ⟨again, hagain, hblock, -, -, hunwrap, hlines⟩ := comment_reprinted hdoc hopen hmargin
  have hread : joinLines ((Text.linesOf (Doc.unwrap c.value)).map Text.stripRight) =
      "* A *list*:\n\n  * one\n  two\n/" := by decide +kernel
  exact ⟨hdoc, hopen, hmargin, again, hagain, hblock, hunwrap.trans hread, hlines "\t "⟩

end Ambient.Declaration
