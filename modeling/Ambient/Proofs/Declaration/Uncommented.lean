import Ambient.Proofs.Declaration.Comment
import Ambient.Proofs.Declaration.Printed

/-!
# Texts without their comments

A comment is printed on lines of its own, between a line that opens it and a line that closes it.
With these lines taken away, a text with comments is the text without them.

* `uncommented`: lines without the blocks in them, by a scan that is inside a block or outside;
* `Leaves`: what a scan from outside leaves of some lines, whatever comes after them;
* `leaves_commentLines`: of a comment nothing is left, whatever its text is;
* `Piece.lines_eq`, `Piece.leaves`: a piece is one line behind its comment, and the line is left;
* `Free`, `Model.strings`: the lines of a text stay lines if its strings have no breaks in them;
* `page`, `cutString_joinBlocks`, `linesOf_joinBlocks`: the lines of blocks that are joined;
* **`uncommented_render`**: the text of a model without its comments.
-/

namespace Ambient.Declaration

/-! ## Lines outside of blocks -/

/-- Whether a line is a mark, its indentation aside. -/
def isMark (mark line : String) : Bool := line.toList.dropWhile Doc.isIndent = mark.toList

/-- The lines that stand in no block. A block starts at a line that opens one and ends at the next
line that closes one. -/
def uncommented : (inside : Bool) → List String → List String
  | _, [] => []
  | true, line :: rest => uncommented (!isMark "*/" line) rest
  | false, line :: rest =>
    if isMark "/**" line then uncommented true rest else line :: uncommented false rest

/-- What is left of some lines outside of blocks, whatever comes after them. -/
def Leaves (lines left : List String) : Prop :=
  ∀ rest, uncommented false (lines ++ rest) = left ++ uncommented false rest

theorem leaves_nil : Leaves [] [] := fun _ => rfl

theorem Leaves.append {a a' b b' : List String} (ha : Leaves a a') (hb : Leaves b b') :
    Leaves (a ++ b) (a' ++ b') := by
  intro rest
  rw [List.append_assoc, ha, hb, List.append_assoc]

theorem leaves_line {line : String} (h : isMark "/**" line = false) : Leaves [line] [line] := by
  intro rest
  rw [List.singleton_append, uncommented, h, if_neg Bool.false_ne_true]
  rfl

theorem Leaves.eq {lines left : List String} (h : Leaves lines left) :
    uncommented false lines = left := by
  have hall := h []
  rwa [List.append_nil, uncommented, List.append_nil] at hall

/-- The lines inside a block are passed over up to the line that closes it. -/
theorem uncommented_inside {lines : List String} (h : ∀ line ∈ lines, isMark "*/" line = false)
    {closing : String} (hclosing : isMark "*/" closing = true) (rest : List String) :
    uncommented true (lines ++ closing :: rest) = uncommented false rest := by
  induction lines with
  | nil =>
    rw [List.nil_append, uncommented, hclosing]
    rfl
  | cons line lines ih =>
    rw [List.forall_mem_cons] at h
    rw [List.cons_append, uncommented, h.1, Bool.not_false, ih h.2]

/-! ## Comments -/

theorem isIndent_indent (depth : ℕ) : ∀ b ∈ (indent depth).toList, Doc.isIndent b = true := by
  intro b hb
  rw [indent, String.toList_ofList] at hb
  rw [List.eq_of_mem_replicate hb]
  rfl

theorem isMark_append {margin : String} (h : ∀ b ∈ margin.toList, Doc.isIndent b = true)
    (mark line : String) : isMark mark (margin ++ line) = isMark mark line := by
  rw [isMark, String.toList_append, dropWhile_indent h, isMark]

theorem not_closing_decorate {margin : List Char} (h : ∀ b ∈ margin, Doc.isIndent b = true)
    (line : List Char) : isMark "*/" (String.ofList (decorate margin line)) = false := by
  have hdrop : (decorate margin line).dropWhile Doc.isIndent =
      '*' :: if line = [] then [] else ' ' :: line := by
    rw [decorate, dropWhile_indent h]
    rfl
  rw [isMark, String.toList_ofList, hdrop, decide_eq_false_iff_not]
  split_ifs <;> simp

/-- **Of a comment** nothing is left, whatever its text is. -/
theorem leaves_commentLines (depth : ℕ) (comment : Option String) :
    Leaves (commentLines (indent depth) comment) [] := by
  cases comment with
  | none => exact leaves_nil
  | some comment =>
    by_cases hempty : comment = ""
    · subst hempty
      exact leaves_nil
    · intro rest
      have hmargin := isIndent_indent depth
      have hopening : isMark "/**" (indent depth ++ "/**") = true := by
        rw [isMark_append hmargin]
        rfl
      have hclosing : isMark "*/" (indent depth ++ " */") = true := by
        rw [isMark_append hmargin]
        rfl
      rw [commentLines_eq _ hempty, List.cons_append, List.cons_append, List.append_assoc,
        uncommented, hopening, if_pos rfl, List.singleton_append, uncommented_inside ?_ hclosing]
      · rfl
      · rw [List.forall_mem_map]
        exact fun line _ => not_closing_decorate hmargin line

theorem leaves_commented {lines : List String} (h : Leaves lines lines) (depth : ℕ)
    (comment : Option String) :
    Leaves (commented true depth comment lines) (commented false depth comment lines) :=
  (leaves_commentLines depth comment).append h

/-! ## Pieces -/

/-- How deep the line of a piece stands. -/
def Piece.depth : Piece → ℕ
  | .variable _ | .typeAlias _ | .enumeration _ | .function _ | .opening _ | .closing => 1
  | .constructor _ | .property _ | .method _ => 2

/-- The comment of a piece. -/
def Piece.comment : Piece → Option String
  | .variable v | .property v => v.comment
  | .typeAlias a => a.comment
  | .enumeration e => e.comment
  | .function f | .method f => f.comment
  | .opening c => c.comment
  | .constructor _ | .closing => none

/-- The text of the line of a piece. -/
def Piece.text : Piece → String
  | .variable v => "var " ++ v.name ++ ": " ++ v.type ++ ";"
  | .typeAlias a => "type " ++ a.name ++ " = " ++ a.type ++ ";"
  | .enumeration e => e.text
  | .function f => "function " ++ f.name ++ templateText f.templates ++ f.signature ++ ";"
  | .opening c => c.header
  | .constructor signature => "constructor" ++ signature ++ ";"
  | .property v => staticWord v.isStatic ++ v.name ++ ": " ++ v.type ++ ";"
  | .method f => staticWord f.isStatic ++ f.name ++ templateText f.templates ++ f.signature ++ ";"
  | .closing => "\x7d"

/-- **A piece** is one line behind its comment. -/
theorem Piece.lines_eq (emit : Bool) (p : Piece) :
    p.lines emit = commented emit p.depth p.comment [lineAt p.depth p.text] := by
  cases p with
  | constructor | closing => cases emit <;> rfl
  | _ => rfl

/-- The characters that lines of declarations end with. -/
def isEnd (c : Char) : Bool := c == ';' || c == '\x7b' || c == '\x7d'

/-- A line that opens a comment ends with a star. -/
theorem getLast?_of_opening {line : String} (h : isMark "/**" line = true) :
    line.toList.getLast? = some '*' := by
  have hline := List.takeWhile_append_dropWhile (p := Doc.isIndent) (l := line.toList)
  rw [of_decide_eq_true h] at hline
  rw [← hline, List.getLast?_append]
  rfl

theorem getLast?_append (a : String) {b : String} {c : Char} (h : b.toList.getLast? = some c) :
    (a ++ b).toList.getLast? = some c := by
  rw [String.toList_append, List.getLast?_append, h]
  rfl

theorem Enumeration.getLast?_text (e : Enumeration) :
    ∃ c, e.text.toList.getLast? = some c ∧ isEnd c = true := by
  unfold text
  split
  · split_ifs
    · exact ⟨';', getLast?_append _ rfl, rfl⟩
    · exact ⟨'\x7d', getLast?_append _ rfl, rfl⟩
  · exact ⟨'\x7d', getLast?_append _ rfl, rfl⟩

theorem Piece.getLast?_text (p : Piece) :
    ∃ c, p.text.toList.getLast? = some c ∧ isEnd c = true := by
  cases p with
  | enumeration e => exact e.getLast?_text
  | opening c => exact ⟨'\x7b', getLast?_append _ rfl, rfl⟩
  | closing => exact ⟨'\x7d', rfl, rfl⟩
  | _ => exact ⟨';', getLast?_append _ rfl, rfl⟩

/-- The line of a declaration is left. -/
theorem leaves_of_getLast? {line : String} {c : Char} (h : line.toList.getLast? = some c)
    (hc : isEnd c = true) : Leaves [line] [line] := by
  refine leaves_line (Bool.eq_false_iff.mpr fun hopening => ?_)
  rw [getLast?_of_opening hopening] at h
  obtain rfl := Option.some.inj h
  exact absurd hc (by decide)

/-- **Of a piece**, what it is without its comment is left. -/
theorem Piece.leaves (p : Piece) : Leaves (p.lines true) (p.lines false) := by
  obtain ⟨c, hlast, hc⟩ := p.getLast?_text
  rw [lines_eq, lines_eq]
  exact leaves_commented (leaves_of_getLast? (getLast?_append _ hlast) hc) _ _

theorem leaves_flatMap {α : Type} {f g : α → List String} (h : ∀ x, Leaves (f x) (g x)) :
    ∀ xs : List α, Leaves (xs.flatMap f) (xs.flatMap g)
  | [] => leaves_nil
  | x :: xs => by
    rw [List.flatMap_cons, List.flatMap_cons]
    exact (h x).append (leaves_flatMap h xs)

/-! ## Blocks -/

/-- The lines of a block. -/
def Block.lines (emit : Bool) (b : Block) : List String :=
  ("declare module " ++ Name.renameReserved b.path ++ " \x7b") ::
    (b.pieces.flatMap (Piece.lines emit) ++ ["\x7d"])

/-- The lines of the blocks of a model and of the names it provides. -/
def Model.blockLines (emit : Bool) (m : Model) (provides : List String) : List (List String) :=
  m.printedBlocks.map (Block.lines emit) ++ provides.map provideLines

theorem Model.blocks_eq_map (emit : Bool) (m : Model) (provides : List String) :
    m.blocks emit provides = (m.blockLines emit provides).map joinLines := by
  rw [blocks_eq, blockLines, List.map_append, List.map_map, List.map_map]
  rfl

theorem Block.leaves (b : Block) : Leaves (b.lines true) (b.lines false) := by
  have hopening : Leaves ["declare module " ++ Name.renameReserved b.path ++ " \x7b"]
      ["declare module " ++ Name.renameReserved b.path ++ " \x7b"] :=
    leaves_of_getLast? (getLast?_append _ (c := '\x7b') rfl) rfl
  have hclosing : Leaves ["\x7d"] ["\x7d"] := leaves_of_getLast? (c := '\x7d') rfl rfl
  exact hopening.append ((leaves_flatMap Piece.leaves b.pieces).append hclosing)

theorem leaves_provideLines (name : String) : Leaves (provideLines name) (provideLines name) := by
  have hline : ∀ {front back : String} {c : Char}, back.toList.getLast? = some c →
      isEnd c = true → Leaves [front ++ back] [front ++ back] := fun hlast hc =>
    leaves_of_getLast? (getLast?_append _ hlast) hc
  have hclosing : Leaves ["\x7d"] ["\x7d"] := leaves_of_getLast? (c := '\x7d') rfl rfl
  exact (hline (c := '\x7b') rfl rfl).append <|
    (hline (getLast?_append _ (c := ';') rfl) rfl).append <|
      (hline (getLast?_append _ (c := ';') rfl) rfl).append hclosing

/-- The lines of several blocks, an empty line between them. -/
def page (blocks : List (List String)) : List String := [""].intercalate blocks

theorem leaves_page {f g : List (List String)} (h : List.Forall₂ Leaves f g) :
    Leaves (page f) (page g) := by
  have hempty : Leaves [""] [""] := leaves_line (by decide)
  induction h with
  | nil => exact leaves_nil
  | @cons a b as bs hab htail ih =>
    cases htail with
    | nil =>
      rw [page, page, List.intercalate_singleton, List.intercalate_singleton]
      exact hab
    | cons hnext hlater =>
      rw [page, page, List.intercalate_cons_cons, List.intercalate_cons_cons]
      exact (hab.append hempty).append ih

theorem Model.leaves_page (m : Model) (provides : List String) :
    Leaves (page (m.blockLines true provides)) (page (m.blockLines false provides)) := by
  refine Declaration.leaves_page (List.rel_append ?_ ?_)
  · rw [List.forall₂_map_left_iff, List.forall₂_map_right_iff, List.forall₂_same]
    exact fun b _ => b.leaves
  · rw [List.forall₂_map_left_iff, List.forall₂_map_right_iff, List.forall₂_same]
    exact fun name _ => leaves_provideLines name

/-! ## The lines of joined blocks -/

theorem page_cons_cons (lines next : List String) (later : List (List String)) :
    page (lines :: next :: later) = lines ++ [""] ++ page (next :: later) := by
  rw [page, List.intercalate_cons_cons, page]

theorem forall_mem_page {P : String → Prop} (hempty : P "") {blocks : List (List String)}
    (h : ∀ lines ∈ blocks, ∀ line ∈ lines, P line) : ∀ line ∈ page blocks, P line := by
  induction blocks with
  | nil => simp [page]
  | cons lines later ih =>
    rw [List.forall_mem_cons] at h
    cases later with
    | nil =>
      rw [page, List.intercalate_singleton]
      exact h.1
    | cons next later =>
      rw [page_cons_cons, List.forall_mem_append, List.forall_mem_append,
        List.forall_mem_singleton]
      exact ⟨⟨h.1, hempty⟩, ih h.2⟩

theorem page_ne_nil {blocks : List (List String)} (hne : blocks ≠ [])
    (h : ∀ lines ∈ blocks, lines ≠ []) : page blocks ≠ [] := by
  cases blocks with
  | nil => exact absurd rfl hne
  | cons lines later =>
    cases later with
    | nil =>
      rw [page, List.intercalate_singleton]
      exact h lines List.mem_cons_self
    | cons next later =>
      rw [page_cons_cons]
      simp

theorem intercalate_joinLines {blocks : List (List String)} (h : ∀ lines ∈ blocks, lines ≠ []) :
    String.intercalate "\n\n" (blocks.map joinLines) = joinLines (page blocks) := by
  induction blocks with
  | nil => rfl
  | cons lines later ih =>
    rw [List.forall_mem_cons] at h
    cases later with
    | nil =>
      rw [List.map_singleton, String.intercalate_singleton, page, List.intercalate_singleton]
    | cons next later =>
      have hfeeds : "\n\n" = "\n" ++ "" ++ "\n" := by decide
      have hpage := page_ne_nil (List.cons_ne_nil next later) h.2
      rw [List.map_cons, List.map_cons, String.intercalate_cons_cons, ← List.map_cons, ih h.2,
        page_cons_cons, joinLines, joinLines, joinLines,
        Text.intercalate_append "\n" (by simp) hpage,
        Text.intercalate_append "\n" h.1 (List.cons_ne_nil _ _), String.intercalate_singleton,
        hfeeds]
      simp only [String.append_assoc]

theorem toList_joinBlocks {blocks : List (List String)} (hne : blocks ≠ [])
    (h : ∀ lines ∈ blocks, lines ≠ []) :
    (joinBlocks (blocks.map joinLines)).toList =
      Text.glue '\n' ((page blocks).map String.toList) ++ ['\n'] := by
  rw [joinBlocks, if_neg (by simpa using hne), intercalate_joinLines h, String.toList_append,
    toList_joinLines]
  rfl

/-- The pieces between the line feeds of a page are its lines, and an empty one at its end. -/
theorem cutString_joinBlocks {blocks : List (List String)} (hne : blocks ≠ [])
    (h : ∀ lines ∈ blocks, lines ≠ []) (hfree : ∀ line ∈ page blocks, '\n' ∉ line.toList) :
    Text.cutString '\n' (joinBlocks (blocks.map joinLines)) = page blocks ++ [""] := by
  have hpage : (page blocks).map String.toList ≠ [] := by simpa using page_ne_nil hne h
  rw [Text.cutString, toList_joinBlocks hne h, ← Text.glue_concat hpage [], Text.cut_glue]
  · simp
  · simp
  · rw [List.forall_mem_append, List.forall_mem_map, List.forall_mem_singleton]
    exact ⟨hfree, by simp⟩

/-- The lines of a page, each ended by a break. -/
theorem linesOf_joinBlocks {blocks : List (List String)} (hne : blocks ≠ [])
    (h : ∀ lines ∈ blocks, lines ≠ [])
    (hfree : ∀ line ∈ page blocks, ∀ c ∈ line.toList, Text.isBreak c = false) :
    Text.linesOf (joinBlocks (blocks.map joinLines)) = page blocks := by
  have hpage : (page blocks).map String.toList ≠ [] := by simpa using page_ne_nil hne h
  rw [Text.linesOf, toList_joinBlocks hne h, Text.lines_glue_feed hpage]
  · simp
  · simpa using hfree

/-! ## Strings without breaks -/

/-- No character of some kind is in a string. -/
def Free (p : Char → Bool) (s : String) : Prop := ∀ c ∈ s.toList, p c = false

section

variable {p : Char → Bool}

theorem free_append {a b : String} : Free p (a ++ b) ↔ Free p a ∧ Free p b := by
  simp [Free, or_imp, forall_and]

theorem free_intercalate {sep : String} (hsep : Free p sep) : ∀ {parts : List String},
    (∀ part ∈ parts, Free p part) → Free p (String.intercalate sep parts)
  | [], _ => by simp [Free]
  | [part], h => by simpa using h
  | part :: next :: later, h => by
    rw [List.forall_mem_cons] at h
    rw [String.intercalate_cons_cons, free_append, free_append]
    exact ⟨⟨h.1, hsep⟩, free_intercalate hsep h.2⟩

theorem free_of_mem_cutString {s word : String} {sep : Char} (h : Free p s)
    (hword : word ∈ Text.cutString sep s) : Free p word := by
  obtain ⟨piece, hpiece, rfl⟩ := List.mem_map.mp hword
  intro c hc
  rw [String.toList_ofList] at hc
  exact h c ((Text.infix_of_mem_cut hpiece).subset hc)

variable (hp : ∀ c, Text.isBreak c = false → p c = false)

include hp

/-- A fixed text without breaks. -/
theorem free_fixed (s : String) (h : s.toList.any Text.isBreak = false) : Free p s :=
  fun c hc => hp c (Bool.eq_false_iff.mpr (List.any_eq_false.mp h c hc))

theorem free_indent (depth : ℕ) : Free p (indent depth) := by
  intro c hc
  rw [indent, String.toList_ofList] at hc
  rw [List.eq_of_mem_replicate hc]
  exact hp _ rfl

theorem free_sanitize {word : String} (h : Free p word) : Free p (Name.sanitize word) := by
  rw [Name.sanitize]
  split_ifs
  · exact free_append.mpr ⟨h, free_fixed hp _ (by decide)⟩
  · exact h

theorem free_renameReserved {name : String} (h : Free p name) :
    Free p (Name.renameReserved name) := by
  refine free_intercalate (free_fixed hp _ (by decide)) ?_
  rw [List.forall_mem_map]
  exact fun word hword => free_sanitize hp (free_of_mem_cutString h hword)

theorem free_templateText {names : List String} (h : ∀ name ∈ names, Free p name) :
    Free p (templateText names) := by
  rw [templateText]
  split_ifs
  · exact free_fixed hp _ (by decide)
  · rw [free_append, free_append]
    exact ⟨⟨free_fixed hp _ (by decide), free_intercalate (free_fixed hp _ (by decide)) h⟩,
      free_fixed hp _ (by decide)⟩

theorem free_staticWord (isStatic : Bool) : Free p (staticWord isStatic) := by
  cases isStatic <;> exact free_fixed hp _ (by decide)

/-- The lines of a comment have no breaks, since it was cut at them. -/
theorem free_commentLines (depth : ℕ) (comment : Option String) :
    ∀ line ∈ commentLines (indent depth) comment, Free p line := by
  cases comment with
  | none => simp [commentLines]
  | some comment =>
    by_cases hempty : comment = ""
    · subst hempty
      simp [commentLines]
    · have hindent := free_indent hp depth
      rw [commentLines_eq _ hempty, List.forall_mem_append, List.forall_mem_cons,
        List.forall_mem_map, List.forall_mem_singleton, free_append, free_append]
      refine ⟨⟨⟨hindent, free_fixed hp _ (by decide)⟩, fun line hline => ?_⟩, hindent,
        free_fixed hp _ (by decide)⟩
      intro c hc
      have hpart : c ∈ (indent depth).toList ∨ c = ' ' ∨ c = '*' ∨ c ∈ line := by
        rw [String.toList_ofList, decorate] at hc
        split_ifs at hc
        · simpa [or_assoc] using Or.inl hc
        · simpa [or_left_comm] using hc
      rcases hpart with hc | rfl | rfl | hc
      · exact hindent c hc
      · exact hp _ rfl
      · exact hp _ rfl
      · exact hp c ((infix_of_mem_trimmedBody hline).2 c hc)

theorem free_commented {lines : List String} (h : ∀ line ∈ lines, Free p line) (emit : Bool)
    (depth : ℕ) (comment : Option String) :
    ∀ line ∈ commented emit depth comment lines, Free p line := by
  rw [commented, List.forall_mem_append]
  refine ⟨?_, h⟩
  split_ifs
  · exact free_commentLines hp depth comment
  · simp

end

/-! ## The strings of a model -/

/-- The strings that a variable or a property is printed with, its comment aside. -/
def Variable.strings (v : Variable) : List String := [v.name, v.type]

/-- The strings that a type alias is printed with, its comment aside. -/
def TypeAlias.strings (a : TypeAlias) : List String := [a.name, a.type]

/-- The strings that a function or a method is printed with, its comment aside. -/
def Function.strings (f : Function) : List String := f.name :: f.signature :: f.templates

/-- The strings that an enumeration is printed with, its comment aside. -/
def Enumeration.strings (e : Enumeration) : List String := e.name :: (e.aliasOf.toList ++ e.keys)

/-- The strings that a class is printed with, its comment and those of its members aside. -/
def ClassEntry.strings (c : ClassEntry) : List String :=
  c.name :: (c.parents ++ (c.templates ++ (c.signature.toList ++
    (c.properties.flatMap Variable.strings ++ c.methods.flatMap Function.strings))))

/-- The strings that a namespace is printed with, comments aside. -/
def Namespace.strings (ns : Namespace) : List String :=
  ns.vars.flatMap Variable.strings ++ (ns.typeAliases.flatMap TypeAlias.strings ++
    (ns.enums.flatMap Enumeration.strings ++ (ns.functions.flatMap Function.strings ++
      ns.classes.flatMap ClassEntry.strings)))

/-- The strings that a model is printed with, comments aside. -/
def Model.strings (m : Model) : List String :=
  m.namespaces.flatMap fun entry => entry.1 :: entry.2.strings

/-- The strings of a piece. -/
def Piece.strings : Piece → List String
  | .variable v | .property v => v.strings
  | .typeAlias a => a.strings
  | .enumeration e => e.strings
  | .function f | .method f => f.strings
  | .opening c => c.name :: (c.parents ++ c.templates)
  | .constructor signature => [signature]
  | .closing => []

theorem ClassEntry.strings_eq (c : ClassEntry) :
    c.strings = c.pieces.flatMap Piece.strings := by
  have hsignature : c.signature.toList =
      (c.signature.toList.map Piece.constructor).flatMap Piece.strings := by
    cases c.signature <;> rfl
  rw [strings, hsignature]
  simp only [pieces, List.flatMap_cons, List.flatMap_append, List.flatMap_map, List.flatMap_nil,
    Piece.strings, List.append_assoc, List.cons_append, List.append_nil]
  rfl

theorem Namespace.strings_eq (ns : Namespace) :
    ns.strings = ns.pieces.flatMap Piece.strings := by
  have hclasses : ns.classes.flatMap ClassEntry.strings =
      ns.classes.flatMap fun c => c.pieces.flatMap Piece.strings :=
    List.flatMap_congr fun c _ => c.strings_eq
  simp only [strings, pieces, hclasses, List.flatMap_append, List.flatMap_map, List.flatMap_assoc,
    Piece.strings]

section

variable {p : Char → Bool} (hp : ∀ c, Text.isBreak c = false → p c = false)

include hp

theorem Enumeration.free_text {e : Enumeration} (h : ∀ s ∈ e.strings, Free p s) :
    Free p e.text := by
  have hfixed := free_fixed hp
  rw [strings, List.forall_mem_cons, List.forall_mem_append] at h
  obtain ⟨hname, halias, hkeys⟩ := h
  have hmembers :
      Free p ("enum " ++ e.name ++ " \x7b " ++ String.intercalate ", " e.keys ++ " \x7d") := by
    simp only [free_append, and_assoc]
    exact ⟨hfixed _ (by decide), hname, hfixed _ (by decide),
      free_intercalate (hfixed _ (by decide)) hkeys, hfixed _ (by decide)⟩
  unfold text
  split
  · rename_i other hother
    split_ifs
    · simp only [free_append, and_assoc]
      exact ⟨hfixed _ (by decide), hname, hfixed _ (by decide),
        free_renameReserved hp (halias other (by rw [hother]; exact List.mem_singleton_self _)),
        hfixed _ (by decide)⟩
    · exact hmembers
  · exact hmembers

theorem ClassEntry.free_header {c : ClassEntry} (hname : Free p c.name)
    (hparents : ∀ s ∈ c.parents, Free p s) (htemplates : ∀ s ∈ c.templates, Free p s) :
    Free p c.header := by
  have hfixed := free_fixed hp
  have hword : Free p c.kind.word := by
    cases c.kind <;> exact hfixed _ (by decide)
  have hextended : ∀ s ∈ c.extended, Free p s := by
    rw [extended]
    split
    · exact fun s hs => hparents s (List.mem_of_mem_take hs)
    · exact hparents
  simp only [header, free_append, and_assoc]
  refine ⟨hword, hfixed _ (by decide), hname, free_templateText hp htemplates, ?_,
    hfixed _ (by decide)⟩
  split_ifs
  · exact hfixed _ (by decide)
  · exact free_append.mpr ⟨hfixed _ (by decide), free_intercalate (hfixed _ (by decide)) hextended⟩

theorem Piece.free_text {piece : Piece} (h : ∀ s ∈ piece.strings, Free p s) :
    Free p piece.text := by
  have hfixed := free_fixed hp
  cases piece with
  | «variable» v =>
    obtain ⟨hname, htype⟩ : Free p v.name ∧ Free p v.type := by
      simpa [strings, Variable.strings] using h
    simp only [text, free_append, and_assoc]
    exact ⟨hfixed _ (by decide), hname, hfixed _ (by decide), htype, hfixed _ (by decide)⟩
  | typeAlias a =>
    obtain ⟨hname, htype⟩ : Free p a.name ∧ Free p a.type := by
      simpa [strings, TypeAlias.strings] using h
    simp only [text, free_append, and_assoc]
    exact ⟨hfixed _ (by decide), hname, hfixed _ (by decide), htype, hfixed _ (by decide)⟩
  | enumeration e => exact Enumeration.free_text hp h
  | function f =>
    rw [strings, Function.strings, List.forall_mem_cons, List.forall_mem_cons] at h
    obtain ⟨hname, hsignature, htemplates⟩ := h
    simp only [text, free_append, and_assoc]
    exact ⟨hfixed _ (by decide), hname, free_templateText hp htemplates, hsignature,
      hfixed _ (by decide)⟩
  | opening c =>
    rw [strings, List.forall_mem_cons, List.forall_mem_append] at h
    exact ClassEntry.free_header hp h.1 h.2.1 h.2.2
  | constructor signature =>
    rw [strings, List.forall_mem_singleton] at h
    simp only [text, free_append, and_assoc]
    exact ⟨hfixed _ (by decide), h, hfixed _ (by decide)⟩
  | property v =>
    obtain ⟨hname, htype⟩ : Free p v.name ∧ Free p v.type := by
      simpa [strings, Variable.strings] using h
    simp only [text, free_append, and_assoc]
    exact ⟨free_staticWord hp _, hname, hfixed _ (by decide), htype, hfixed _ (by decide)⟩
  | method f =>
    rw [strings, Function.strings, List.forall_mem_cons, List.forall_mem_cons] at h
    obtain ⟨hname, hsignature, htemplates⟩ := h
    simp only [text, free_append, and_assoc]
    exact ⟨free_staticWord hp _, hname, free_templateText hp htemplates, hsignature,
      hfixed _ (by decide)⟩
  | closing => exact hfixed _ (by decide)

theorem Block.free_lines {b : Block} (hpath : Free p b.path)
    (h : ∀ piece ∈ b.pieces, ∀ s ∈ piece.strings, Free p s) (emit : Bool) :
    ∀ line ∈ b.lines emit, Free p line := by
  have hfixed := free_fixed hp
  rw [lines, List.forall_mem_cons, List.forall_mem_append, List.forall_mem_singleton]
  refine ⟨?_, ?_, hfixed _ (by decide)⟩
  · simp only [free_append, and_assoc]
    exact ⟨hfixed _ (by decide), free_renameReserved hp hpath, hfixed _ (by decide)⟩
  · intro line hline
    obtain ⟨piece, hpiece, hline⟩ := List.mem_flatMap.mp hline
    rw [Piece.lines_eq] at hline
    refine free_commented hp ?_ emit piece.depth piece.comment line hline
    rw [List.forall_mem_singleton]
    exact free_append.mpr ⟨free_indent hp _, Piece.free_text hp (h piece hpiece)⟩

theorem free_provideLines {name : String} (h : Free p name) :
    ∀ line ∈ provideLines name, Free p line := by
  have hfixed := free_fixed hp
  have hshort : Free p (Name.sanitize (((Name.segments name).getLast?).getD "")) := by
    refine free_sanitize hp ?_
    cases hlast : (Name.segments name).getLast? with
    | none => exact hfixed _ (by decide)
    | some word => exact free_of_mem_cutString h (List.mem_of_getLast? hlast)
  have hindent := free_indent hp 1
  simp only [provideLines, lineAt, List.forall_mem_cons, free_append, and_assoc]
  exact ⟨hfixed _ (by decide), h, hfixed _ (by decide), hindent, hfixed _ (by decide), hshort,
    hfixed _ (by decide), free_renameReserved hp h, hfixed _ (by decide), hindent,
    hfixed _ (by decide), hshort, hfixed _ (by decide), hfixed _ (by decide),
    List.forall_mem_nil _⟩

/-- The lines of a model whose strings have no breaks have none. -/
theorem Model.free_page {m : Model} {provides : List String}
    (h : ∀ s ∈ m.strings ++ provides, Free p s) (emit : Bool) :
    ∀ line ∈ page (m.blockLines emit provides), Free p line := by
  rw [List.forall_mem_append] at h
  have hblocks : ∀ lines ∈ m.blockLines emit provides, ∀ line ∈ lines, Free p line := by
    rw [blockLines, List.forall_mem_append, List.forall_mem_map, List.forall_mem_map]
    refine ⟨fun b hb => ?_, fun name hname => free_provideLines hp (h.2 name hname)⟩
    obtain ⟨entry, hentry, rfl⟩ := List.mem_map.mp hb
    have hstrings : ∀ s ∈ entry.1 :: entry.2.strings, Free p s := fun s hs =>
      h.1 s (List.mem_flatMap.mpr ⟨entry, (List.mem_filter.mp hentry).1, hs⟩)
    rw [List.forall_mem_cons, Namespace.strings_eq] at hstrings
    exact Block.free_lines hp hstrings.1 (fun piece hpiece s hs =>
      hstrings.2 s (List.mem_flatMap.mpr ⟨piece, hpiece, hs⟩)) emit
  exact forall_mem_page (free_fixed hp _ (by decide)) hblocks

end

/-! ## The text of a model -/

theorem Model.blockLines_ne_nil {m : Model} {provides : List String}
    (h : ¬ (m.printedBlocks = [] ∧ provides = [])) (emit : Bool) :
    m.blockLines emit provides ≠ [] := by
  simpa [blockLines] using h

theorem Model.lines_ne_nil (emit : Bool) (m : Model) (provides : List String) :
    ∀ lines ∈ m.blockLines emit provides, lines ≠ [] := by
  rw [blockLines, List.forall_mem_append, List.forall_mem_map, List.forall_mem_map]
  exact ⟨fun _ _ => List.cons_ne_nil _ _, fun _ _ => List.cons_ne_nil _ _⟩

/-- **The text of a model without its comments** is the text that is printed without comments,
whatever the comments are. The lines are those between line feeds, if no other string has a line
feed in it, or those between any breaks, if no other string has a break in it. -/
theorem uncommented_render (m : Model) (provides : List String) :
    ((∀ s ∈ m.strings ++ provides, '\n' ∉ s.toList) →
      uncommented false (Text.cutString '\n' (m.render true provides)) =
        Text.cutString '\n' (m.render false provides)) ∧
    ((∀ s ∈ m.strings ++ provides, ∀ c ∈ s.toList, Text.isBreak c = false) →
      uncommented false (Text.linesOf (m.render true provides)) =
        Text.linesOf (m.render false provides)) := by
  have hleaves := m.leaves_page provides
  have hlines := fun emit => m.lines_ne_nil emit provides
  rw [Model.render, Model.render, Model.blocks_eq_map, Model.blocks_eq_map]
  by_cases hnil : m.printedBlocks = [] ∧ provides = []
  · have hempty : ∀ emit, m.blockLines emit provides = [] := fun emit => by
      rw [Model.blockLines, hnil.1, hnil.2]
      rfl
    rw [hempty, hempty]
    exact ⟨fun _ => by decide, fun _ => rfl⟩
  have hne := Model.blockLines_ne_nil hnil
  refine ⟨fun h => ?_, fun h => ?_⟩
  · have hfeed : ∀ c, Text.isBreak c = false → (c == '\n') = false := by
      intro c hc
      rw [beq_eq_false_iff_ne]
      rintro rfl
      cases hc
    have hstrings : ∀ s ∈ m.strings ++ provides, Free (· == '\n') s := fun s hs c hc =>
      beq_eq_false_iff_ne.mpr (ne_of_mem_of_not_mem hc (h s hs))
    have hfree : ∀ emit, ∀ line ∈ page (m.blockLines emit provides), '\n' ∉ line.toList := by
      intro emit line hline hmem
      cases Model.free_page hfeed hstrings emit line hline _ hmem
    rw [cutString_joinBlocks (hne true) (hlines true) (hfree true),
      cutString_joinBlocks (hne false) (hlines false) (hfree false)]
    exact (hleaves.append (leaves_line (by decide))).eq
  · have hfree := Model.free_page (fun _ h => h) h
    rw [linesOf_joinBlocks (hne true) (hlines true) (hfree true),
      linesOf_joinBlocks (hne false) (hlines false) (hfree false)]
    exact hleaves.eq

/-- Comments with marks that open and close blocks on their lines, of a class and of its method. -/
theorem uncommented_render_marks :
    let c : ClassEntry := ⟨"C", .constructible, some "()", [], [],
      [⟨"f", "(): void", [], true, some "*\n * /\n *\r/**"⟩], [], some "*\n */\n"⟩
    let m : Model := ⟨[("a", ⟨[], [], [], [], [c], [("C", 0)]⟩)]⟩
    (∀ s ∈ m.strings ++ [], ∀ ch ∈ s.toList, Text.isBreak ch = false) ∧
      (Text.linesOf (m.render true [])).length = 14 ∧
      uncommented false (Text.linesOf (m.render true [])) =
        ["declare module a \x7b", "    class C \x7b", "        constructor();",
          "        static f(): void;", "    \x7d", "\x7d"] := by
  intro c m
  have hstrings : (m.strings ++ []).all (fun s => !s.toList.any Text.isBreak) = true := by decide
  have hbreaks : ∀ s ∈ m.strings ++ [], ∀ ch ∈ s.toList, Text.isBreak ch = false := by
    simpa [List.all_eq_true, List.any_eq_false] using hstrings
  refine ⟨hbreaks, by decide +kernel, ?_⟩
  rw [(uncommented_render m []).2 hbreaks]
  decide +kernel

end Ambient.Declaration
