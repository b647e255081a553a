import Ambient.Doc.Tag
import Ambient.Proofs.Doc.Braces
import Ambient.Proofs.TypeExpr.Relocated

/-!
# Types in tags

A type in the braces of a tag is read as the same type by itself, also when its text goes over
several lines of a documentation block.

* `Broken`: a text with line breaks between its tokens;
* `lexes_glue`: the lines of a broken text have its tokens;
* `NoTag`, `noTag_of_broken`: none of these lines starts a tag;
* `segments_eq`: a text with one tag;
* `unwrapLines_intercalate`: the lines without their decoration;
* `Decorated`, `parse_broken`: a type on several lines stands for the type that it is on one;
* `read_typed`: a tag with a balanced type in braces;
* **`typed_tag_read`**: the tag that a type is in.
-/

namespace Ambient.Doc

open TypeExpr (Token Located Lexes SameTokens)

/-! ## Texts on several lines -/

/-- The lines that a text has when it is broken at places that are not inside its tokens. -/
inductive Broken : List Char → List (List Char) → Prop
  | nil : Broken [] [[]]
  | space {c : Char} {s line : List Char} {lines : List (List Char)} (hc : Token.isSpace c = true)
      (h : Broken s (line :: lines)) : Broken (c :: s) ((c :: line) :: lines)
  | break {s : List Char} {lines : List (List Char)} (h : Broken s lines) : Broken s ([] :: lines)
  | token {t : Token} {s line : List Char} {lines : List (List Char)} (ht : t.Lexeme)
      (hends : t.Ends s) (h : Broken s (line :: lines)) :
      Broken (t.text.toList ++ s) ((t.text.toList ++ line) :: lines)

theorem Broken.ne_nil {s : List Char} {lines : List (List Char)} (h : Broken s lines) :
    lines ≠ [] := by
  cases h <;> exact List.cons_ne_nil _ _

/-- A text may stay on one line. -/
theorem broken_of_lexes {n : ℕ} {s : List Char} {ls : List Located} (h : Lexes n s ls) :
    Broken s [s] := by
  induction h with
  | nil => exact .nil
  | space hc _ ih => exact .space hc ih
  | token ht hends _ ih => exact .token ht hends ih

theorem mem_of_broken {s : List Char} {lines : List (List Char)} (h : Broken s lines) :
    ∀ line ∈ lines, ∀ c ∈ line, c ∈ s := by
  induction h with
  | nil => simp
  | space hc _ ih =>
    rw [List.forall_mem_cons] at ih ⊢
    refine ⟨List.forall_mem_cons.mpr ⟨List.mem_cons_self, fun c hc => ?_⟩,
      fun line hline c hc => ?_⟩
    · exact List.mem_cons_of_mem _ (ih.1 c hc)
    · exact List.mem_cons_of_mem _ (ih.2 line hline c hc)
  | «break» _ ih => exact List.forall_mem_cons.mpr ⟨by simp, ih⟩
  | token _ _ _ ih =>
    rw [List.forall_mem_cons] at ih ⊢
    refine ⟨fun c hc => ?_, fun line hline c hc => List.mem_append_right _ (ih.2 line hline c hc)⟩
    exact (List.mem_append.mp hc).elim (List.mem_append_left _)
      fun hc => List.mem_append_right _ (ih.1 c hc)

/-! ## Tokens and line breaks -/

/-- No token starts as a tag does, or with the indentation of one. -/
theorem exists_text_cons {t : Token} (ht : t.Lexeme) :
    ∃ c later, t.text.toList = c :: later ∧ isIndent c = false ∧ c ≠ '@' := by
  have hstart : ∀ {c : Char} {p : Char → Bool}, p c = true → p ' ' = false → p '\t' = false →
      p '@' = false → isIndent c = false ∧ c ≠ '@' := by
    intro c p hc hblank htab hat
    refine ⟨?_, ?_⟩
    · by_contra hindent
      simp only [isIndent, Bool.not_eq_false, Bool.or_eq_true, beq_iff_eq] at hindent
      rcases hindent with rfl | rfl
      · exact absurd (hc.symm.trans hblank) Bool.noConfusion
      · exact absurd (hc.symm.trans htab) Bool.noConfusion
    · rintro rfl
      exact absurd (hc.symm.trans hat) Bool.noConfusion
  cases t with
  | name word =>
    obtain ⟨⟨c, later, hword, hc, -⟩, -⟩ := ht
    exact ⟨c, later, hword, hstart hc (by decide) (by decide) (by decide)⟩
  | number digits =>
    rcases ht with h | ⟨digits', hdigits, -⟩
    · obtain ⟨c, later, hs, hc⟩ := h.exists_digit
      exact ⟨c, later, hs, hstart hc (by decide) (by decide) (by decide)⟩
    · exact ⟨'-', digits', hdigits, by decide, by decide⟩
  | quoted mark body =>
    refine ⟨mark, body.toList ++ [mark], by simp [Token.text], ?_⟩
    rcases ht.1 with rfl | rfl <;> exact ⟨by decide, by decide⟩
  | _ => exact ⟨_, _, rfl, by decide, by decide⟩

theorem glue_cons_cons (c : Char) (line : List Char) (lines : List (List Char)) :
    Text.glue '\n' ((c :: line) :: lines) = c :: Text.glue '\n' (line :: lines) :=
  Text.glue_append_cons [c] line lines

/-- A token that does not go on in a text does not go on in the broken text. -/
theorem ends_glue {t : Token} {s : List Char} {lines : List (List Char)} (h : t.Ends s)
    (hs : Broken s lines) : t.Ends (Text.glue '\n' lines) := by
  cases hs with
  | nil => exact t.ends_nil
  | space hc _ =>
    rw [glue_cons_cons]
    exact t.ends_space hc _
  | «break» hs =>
    rw [Text.glue_cons hs.ne_nil]
    exact t.ends_space rfl _
  | token hnext _ _ =>
    rw [Text.glue_append_cons]
    exact Token.ends_text hnext h _

/-- **The lines of a broken text** have its tokens. -/
theorem lexes_glue {s : List Char} {lines : List (List Char)} (h : Broken s lines) (n m : ℕ) :
    ∃ ls ls', Lexes n s ls ∧ Lexes m (Text.glue '\n' lines) ls' ∧ SameTokens ls ls' := by
  induction h generalizing n m with
  | nil => exact ⟨[], [], .nil n, .nil m, rfl⟩
  | @space c s line lines hc _ ih =>
    obtain ⟨ls, ls', hlexes, hlexes', hsame⟩ := ih (n + 1) (m + 1)
    rw [glue_cons_cons]
    exact ⟨ls, ls', .space hc hlexes, .space hc hlexes', hsame⟩
  | «break» h ih =>
    obtain ⟨ls, ls', hlexes, hlexes', hsame⟩ := ih n (m + 1)
    rw [Text.glue_cons h.ne_nil]
    exact ⟨ls, ls', hlexes, .space rfl hlexes', hsame⟩
  | @token t s line lines ht hends h ih =>
    obtain ⟨ls, ls', hlexes, hlexes', hsame⟩ := ih (n + t.text.length) (m + t.text.length)
    rw [Text.glue_append_cons]
    exact ⟨⟨t, n⟩ :: ls, ⟨t, m⟩ :: ls', .token ht hends hlexes,
      .token ht (ends_glue hends h) hlexes',
      congrArg (t :: ·) hsame⟩

/-! ## Lines that start no tag -/

/-- The first character of a line after its indentation is not that of a tag. -/
def NoTag (line : List Char) : Prop := (line.dropWhile isIndent).head? ≠ some '@'

theorem tagStart?_eq_none {line : List Char} (h : NoTag line) : tagStart? line = none := by
  rw [tagStart?]
  split
  · rename_i rest hrest
    exact absurd (congrArg List.head? hrest) h
  · rfl

theorem noTag_cons {c : Char} {line : List Char} (h : NoTag line) (hc : c ≠ '@') :
    NoTag (c :: line) := by
  rw [NoTag]
  by_cases hindent : isIndent c = true
  · rwa [List.dropWhile_cons_of_pos hindent]
  · rw [List.dropWhile_cons_of_neg hindent, List.head?_cons]
    exact fun h => hc (Option.some.inj h)

/-- **No line of a broken text** starts a tag, whatever follows on it that does not. -/
theorem noTag_of_broken {s : List Char} {lines : List (List Char)} (h : Broken s lines) :
    ∀ line ∈ lines, ∀ rest, NoTag rest → NoTag (line ++ rest) := by
  induction h with
  | nil => simp
  | @space c s line lines hc _ ih =>
    rw [List.forall_mem_cons] at ih ⊢
    refine ⟨fun rest hrest => noTag_cons (ih.1 rest hrest) ?_, ih.2⟩
    rintro rfl
    exact absurd hc (by decide)
  | «break» _ ih => exact List.forall_mem_cons.mpr ⟨fun rest hrest => hrest, ih⟩
  | @token t s line lines ht _ _ ih =>
    rw [List.forall_mem_cons] at ih ⊢
    refine ⟨fun rest _ => ?_, ih.2⟩
    obtain ⟨c, later, htext, hindent, hat⟩ := exists_text_cons ht
    rw [NoTag, htext, List.cons_append, List.cons_append,
      List.dropWhile_cons_of_neg (by simp [hindent]), List.head?_cons]
    exact fun h => hat (Option.some.inj h)

theorem append_below (line : List Char) (others : List (List Char)) :
    line ++ (if others.isEmpty then [] else '\n' :: Text.glue '\n' others) =
      Text.glue '\n' (line :: others) := by
  cases others with
  | nil => exact List.append_nil line
  | cons next later => rfl

theorem segmentLines_of_noTag {lines : List (List Char)} (h : ∀ line ∈ lines, NoTag line) :
    segmentLines lines = (Text.glue '\n' lines, []) := by
  induction lines with
  | nil => rfl
  | cons line others ih =>
    rw [List.forall_mem_cons] at h
    rw [segmentLines, ih h.2, tagStart?_eq_none h.1]
    exact congrArg (·, []) (append_below line others)

theorem tagStart?_title {title rest : List Char} (hne : title ≠ [])
    (htitle : ∀ c ∈ title, c.isAlpha = true) (hrest : rest.head?.any Char.isAlpha = false) :
    tagStart? ('@' :: (title ++ rest)) = some (title, rest) := by
  obtain ⟨htake, hdrop⟩ := TypeExpr.takeWhile_dropWhile_of_ends htitle hrest
  have hhead : (title ++ rest).head?.any Char.isAlpha = true := by
    obtain ⟨c, later, rfl⟩ := List.exists_cons_of_ne_nil hne
    exact htitle c List.mem_cons_self
  have hfirst : ('@' :: (title ++ rest)).dropWhile isIndent = '@' :: (title ++ rest) :=
    List.dropWhile_cons_of_neg (by decide)
  simp only [tagStart?, hfirst, hhead, if_true, htake, hdrop]

/-- **A text with one tag**: its first line starts the tag, and no other line starts one. -/
theorem segments_eq {title body : List Char} (hne : title ≠ [])
    (htitle : ∀ c ∈ title, c.isAlpha = true) (hbody : body.head? = some ' ')
    (h : ∀ line ∈ (Text.cut '\n' body).tail, NoTag line) :
    segments ('@' :: (title ++ body)) = ([], [(title, body)]) := by
  obtain ⟨first, others, hcut⟩ := List.exists_cons_of_ne_nil (Text.cut_ne_nil '\n' body)
  have hglue : body = Text.glue '\n' (first :: others) := by rw [← hcut, Text.glue_cut]
  have hfeed : '\n' ∉ '@' :: title := by
    rw [List.mem_cons, not_or]
    exact ⟨by decide, fun hmem => absurd (htitle _ hmem) (by decide)⟩
  have hends : first.head?.any Char.isAlpha = false := by
    cases first with
    | nil => rfl
    | cons c first =>
      have hc : body = c :: Text.glue '\n' (first :: others) :=
        hglue.trans (glue_cons_cons c first others)
      rw [hc] at hbody
      obtain rfl := Option.some.inj hbody
      rfl
  rw [hcut, List.tail_cons] at h
  have hlines : segmentLines (('@' :: (title ++ first)) :: others) =
      ([], [(title, Text.glue '\n' (first :: others))]) := by
    rw [segmentLines, segmentLines_of_noTag h, tagStart?_title hne htitle hends]
    exact congrArg (fun body => ([], [(title, body)])) (append_below first others)
  rw [segments, ← List.cons_append, Text.cut_append hfeed, hcut, List.modifyHead_cons,
    List.cons_append, hlines, ← hglue]

/-! ## Decorated lines -/

/-- The lines of a text without their decoration, as one text. -/
def unwrapLines (s : List Char) : List Char :=
  Text.glue '\n' ((Text.cut '\n' s).map undecorate)

/-- A line feed and the decoration of the next line. -/
def decoration : List Char := ['\n', ' ', '*', ' ']

theorem unwrapLines_of_notMem {line : List Char} (h : '\n' ∉ line) :
    unwrapLines line = undecorate line := by
  rw [unwrapLines, Text.cut_of_notMem h]
  rfl

theorem unwrapLines_append {line : List Char} (h : '\n' ∉ line) (s : List Char) :
    unwrapLines (line ++ '\n' :: s) = undecorate line ++ '\n' :: unwrapLines s := by
  rw [unwrapLines, Text.cut_append_cons h, List.map_cons,
    Text.glue_cons (List.map_eq_nil_iff.not.mpr (Text.cut_ne_nil '\n' s)), ← unwrapLines]

/-- **The decoration between lines** is taken away again, and that in front of the first one. -/
theorem unwrapLines_intercalate {front front' : List Char}
    (hfront : ∀ s, undecorate (front ++ s) = front' ++ s) (hfeed : '\n' ∉ front)
    {lines : List (List Char)} (hne : lines ≠ []) (hlines : ∀ line ∈ lines, '\n' ∉ line)
    {ending : List Char} (hending : '\n' ∉ ending) :
    unwrapLines (front ++ (decoration.intercalate lines ++ ending)) =
      front' ++ (Text.glue '\n' lines ++ ending) := by
  induction lines generalizing front front' with
  | nil => exact absurd rfl hne
  | cons line lines ih =>
    rw [List.forall_mem_cons] at hlines
    cases lines with
    | nil =>
      rw [List.intercalate_singleton, Text.glue, unwrapLines_of_notMem, hfront]
      simp [hfeed, hlines.1, hending]
    | cons next later =>
      have hstar : ∀ s, undecorate ([' ', '*', ' '] ++ s) = [] ++ s := fun s => rfl
      have hrest := ih hstar (by decide) (List.cons_ne_nil _ _) hlines.2
      have hsplit : front ++ (decoration.intercalate (line :: next :: later) ++ ending) =
          (front ++ line) ++
            '\n' :: ([' ', '*', ' '] ++ (decoration.intercalate (next :: later) ++ ending)) := by
        rw [List.intercalate_cons_cons]
        simp [decoration]
      have hline : '\n' ∉ front ++ line := by simp [hfeed, hlines.1]
      rw [hsplit, unwrapLines_append hline, hrest, hfront, Text.glue]
      simp

/-! ## Types on several lines -/

/-- A type text on several lines: broken between its tokens, each line but the first decorated. -/
def Decorated (s s' : List Char) : Prop :=
  ∃ lead core trail lines, (∀ c ∈ lead, Text.isBlank c = true) ∧
    (∀ c ∈ trail, Text.isBlank c = true) ∧ Broken core lines ∧ s = lead ++ (core ++ trail) ∧
    s' = lead ++ (decoration.intercalate lines ++ trail)

/-- No key in quotes has a brace in it. -/
def BracelessKeys (text : String) : Prop :=
  ∀ l ∈ (TypeExpr.Scan.ofText (Text.trim text.toList)).tokens, BracelessKey l.token

theorem braceless_of_blank {s : List Char} (h : ∀ c ∈ s, Text.isBlank c = true) :
    Braceless s :=
  ⟨fun hmem => absurd (h _ hmem) (by decide), fun hmem => absurd (h _ hmem) (by decide)⟩

section

variable {lead core trail : List Char} {lines : List (List Char)}

/-- **A type on several lines** stands for the type that it is on one, and closes its braces. -/
theorem parse_broken {text : String} {n : TypeExpr} (hlead : ∀ c ∈ lead, Text.isBlank c = true)
    (htrail : ∀ c ∈ trail, Text.isBlank c = true) (h : Broken core lines)
    (htext : text.toList = lead ++ (core ++ trail)) (hn : TypeExpr.parse text = .ok n)
    (hkeys : BracelessKeys text) :
    TypeExpr.parse (String.ofList (lead ++ (Text.glue '\n' lines ++ trail))) = .ok n ∧
      Balanced (lead ++ (Text.glue '\n' lines ++ trail)) := by
  obtain ⟨ls, ls', hcore, hglue, hsame⟩ := lexes_glue h 0 0
  obtain ⟨trimmed, hcore', hsame'⟩ := hcore.trim
  obtain ⟨broken, hglue', hsame''⟩ := hglue.trim
  rw [← Text.trim_between hlead htrail, ← htext] at hcore'
  obtain ⟨tokens, p, hlexes, hderives, hmeaning⟩ := TypeExpr.parse_eq_ok_iff.mp hn
  obtain rfl : tokens = trimmed := hlexes.unique hcore'
  have hbalanced : Balanced (Text.glue '\n' lines) := by
    have hinner : SameTokens tokens ls' := hsame.trans hsame'.symm
    obtain ⟨q, hq, -⟩ := TypeExpr.movable_of_derives hderives ls' hinner.kinds
    refine balanced_of_lexes hglue hq fun l hl => ?_
    have hmem : l.token ∈ tokens.map TypeExpr.Located.token := by
      rw [hsame', ← hsame]
      exact List.mem_map_of_mem hl
    obtain ⟨l', hl', htoken⟩ := List.mem_map.mp hmem
    rw [BracelessKeys, TypeExpr.scan_eq_iff.mpr hlexes] at hkeys
    exact htoken ▸ hkeys l' hl'
  constructor
  · have hinner : Lexes 0 (Text.trim (String.ofList
        (lead ++ (Text.glue '\n' lines ++ trail))).toList) broken := by
      rwa [String.toList_ofList, Text.trim_between hlead htrail]
    exact TypeExpr.parse_of_same_tokens hlexes hinner ((hsame''.trans hsame).trans hsame'.symm) hn
  · have hblanks := fun {s} hs => balanced_of_braceless (braceless_of_blank (s := s) hs)
    exact (hblanks hlead).append (hbalanced.append (hblanks htrail))

/-- **The lines of a type in braces** start no tag, but for the first of them. -/
theorem noTag_below (hlead : '\n' ∉ lead) (htrail : ∀ c ∈ trail, Text.isBlank c = true)
    (htrail' : '\n' ∉ trail) (h : Broken core lines) (hcore : '\n' ∉ core) {tail : List Char}
    (htail : '\n' ∉ tail) :
    ∀ line ∈ (Text.cut '\n' (' ' :: '\x7b' ::
      (lead ++ (Text.glue '\n' lines ++ trail) ++ '\x7d' :: tail))).tail, NoTag line := by
  have hend : ∀ blanks : List Char, (∀ c ∈ blanks, Text.isBlank c = true) →
      NoTag (blanks ++ '\x7d' :: tail) := by
    intro blanks hblanks
    induction blanks with
    | nil => exact fun h => absurd (Option.some.inj h) (by decide)
    | cons c blanks ih =>
      rw [List.forall_mem_cons] at hblanks
      refine noTag_cons (ih hblanks.2) ?_
      rintro rfl
      exact absurd hblanks.1 (by decide)
  have hends := noTag_of_broken h
  have hfeeds : ∀ line ∈ lines, '\n' ∉ line := fun line hline hmem =>
    hcore (mem_of_broken h line hline _ hmem)
  obtain ⟨others, last, rfl⟩ := (List.eq_nil_or_concat' lines).resolve_left h.ne_nil
  rw [List.forall_mem_append, List.forall_mem_singleton] at hends hfeeds
  have hsplit : ' ' :: '\x7b' :: (lead ++ (Text.glue '\n' (others ++ [last]) ++ trail) ++
      '\x7d' :: tail) = (' ' :: '\x7b' :: lead) ++
        Text.glue '\n' (others ++ [last ++ (trail ++ '\x7d' :: tail)]) := by
    rw [Text.glue_concat_append]
    simp
  have hfront : '\n' ∉ ' ' :: '\x7b' :: lead := by simp [hlead]
  have hpieces : ∀ piece ∈ others ++ [last ++ (trail ++ '\x7d' :: tail)], '\n' ∉ piece := by
    rw [List.forall_mem_append, List.forall_mem_singleton]
    refine ⟨hfeeds.1, ?_⟩
    simp [hfeeds.2, htrail', htail]
  rw [hsplit, Text.cut_append hfront, Text.cut_glue (by simp) hpieces, List.tail_modifyHead]
  intro line hline
  have hmem := List.mem_of_mem_tail hline
  rw [List.mem_append, List.mem_singleton] at hmem
  rcases hmem with hmem | rfl
  · rw [← List.append_nil line]
    exact hends.1 line hmem [] (by simp [NoTag])
  · exact hends.2 _ (hend trail htrail)

end

/-! ## Tags -/

/-- A word that stands for the name of a parameter. -/
def IsPlain (name : String) : Prop :=
  name ≠ "" ∧ (∀ c ∈ name.toList, Text.isBlank c = false) ∧ name.toList.head? ≠ some '['

/-- What stands behind the type of a tag: a blank and a name if it is a parameter. -/
def behindType (title name : String) : List Char :=
  if title = "param" then ' ' :: name.toList else []

/-- A block with one tag, and a type in braces in it. -/
def typedComment (title type name : String) : String :=
  "* @" ++ title ++ " \x7b" ++ type ++ "\x7d" ++ String.ofList (behindType title name)

/-- One tag with a type and nothing else, but for the name of a parameter. -/
def typedTag (title : String) (type : TypeExpr) (name : String) : Tag :=
  ⟨title, type, if title = "param" then some name else none, none⟩

theorem paramName?_plain {name : String} (h : IsPlain name) (behind : List Char)
    (hbehind : ∀ c ∈ behind.head?, Text.isBlank c = true) :
    paramName? (' ' :: (name.toList ++ behind)) = some (name, false, behind) := by
  obtain ⟨hne, hword, hbracket⟩ := h
  obtain ⟨c, rest, hname⟩ : ∃ c rest, name.toList = c :: rest :=
    List.exists_cons_of_ne_nil (mt String.toList_eq_nil_iff.mp hne)
  have hwords : ∀ d ∈ rest, (!Text.isBlank d) = true := by
    intro d hd
    rw [hword d (by simp [hname, hd]), Bool.not_false]
  have hends : behind.head?.any (fun d => !Text.isBlank d) = false := by
    cases behind with
    | nil => rfl
    | cons c behind =>
      rw [List.head?_cons, Option.any_some, hbehind c rfl, Bool.not_true]
  obtain ⟨htake, hdrop⟩ := TypeExpr.takeWhile_dropWhile_of_ends hwords hends
  have hc : Text.isBlank c = false := hword c (by simp [hname])
  have hopen : c ≠ '[' := by
    rintro rfl
    exact hbracket (by rw [hname]; rfl)
  have hleft : Text.trimLeft (' ' :: c :: (rest ++ behind)) = c :: (rest ++ behind) := by
    rw [Text.trimLeft, List.dropWhile_cons_of_pos (by decide)]
    exact Text.trimLeft_of_not_blank hc
  have hback : String.ofList (c :: rest) = name := by rw [← hname, String.ofList_toList]
  simp only [paramName?, hname, List.cons_append, hleft, hopen, false_and, if_false, htake, hdrop,
    hback]

/-- **A tag** with a balanced type in braces has the type that stands in them. -/
theorem read_typed {title name : String} {inner : List Char} {n : TypeExpr}
    (htitle : title ∈ typedTitles) (hinner : Balanced inner)
    (hn : TypeExpr.parse (String.ofList inner) = .ok n) (hname : title = "param" → IsPlain name) :
    Tag.read title (' ' :: '\x7b' :: (inner ++ '\x7d' :: behindType title name)) =
      (typedTag title n name, []) := by
  have hblank : ∀ c ∈ [' '], Text.isBlank c = true := List.all_eq_true.mp (by decide)
  have hbraced := readBraced_eq hblank hinner (behindType title name)
  have htype : tagType title (' ' :: '\x7b' :: (inner ++ '\x7d' :: behindType title name)) =
      (n, behindType title name, []) := by
    rw [List.singleton_append] at hbraced
    rw [tagType, if_pos (List.contains_iff_mem.mpr htitle), hbraced]
    simp only [readType, hn]
  rw [Tag.read, htype]
  dsimp only
  by_cases hparam : title = "param"
  · have hword := paramName?_plain (hname hparam) [] (by simp)
    rw [List.append_nil] at hword
    rw [if_pos hparam, behindType, if_pos hparam, hword]
    simp [typedTag, hparam, description?]
  · rw [if_neg hparam, behindType, if_neg hparam]
    simp [typedTag, hparam, description?]

theorem toList_typedComment (title type name : String) :
    (typedComment title type name).toList =
      ['*', ' ', '@'] ++ title.toList ++ [' ', '\x7b'] ++ type.toList ++
        ('\x7d' :: behindType title name) := by
  simp [typedComment]

theorem title_facts {title : String} (h : title ∈ typedTitles) :
    title.toList ≠ [] ∧ (∀ c ∈ title.toList, c.isAlpha = true) ∧ canonicalTitle title = title := by
  have hall : ∀ title ∈ typedTitles, title.toList ≠ [] ∧ title.toList.all Char.isAlpha = true ∧
      canonicalTitle title = title := by decide
  obtain ⟨hne, halpha, hcanonical⟩ := hall title h
  exact ⟨hne, List.all_eq_true.mp halpha, hcanonical⟩

theorem feed_notMem_behindType {title name : String} (hname : title = "param" → IsPlain name) :
    '\n' ∉ behindType title name := by
  rw [behindType]
  split
  · rename_i hparam
    rw [List.mem_cons, not_or]
    refine ⟨by decide, fun hmem => ?_⟩
    exact absurd ((hname hparam).2.1 _ hmem) (by decide)
  · exact List.not_mem_nil

theorem exists_behindType {title name : String} (hname : title = "param" → IsPlain name) :
    ∃ before last, '\x7d' :: behindType title name = before ++ [last] ∧
      Text.isBlank last = false := by
  by_cases hparam : title = "param"
  · have hne : name.toList ≠ [] := mt String.toList_eq_nil_iff.mp (hname hparam).1
    refine ⟨'\x7d' :: ' ' :: name.toList.dropLast, name.toList.getLast hne, ?_, ?_⟩
    · rw [behindType, if_pos hparam, List.cons_append, List.cons_append,
        List.dropLast_append_getLast]
    · exact (hname hparam).2.1 _ (List.getLast_mem hne)
  · exact ⟨[], '\x7d', by rw [behindType, if_neg hparam, List.nil_append], by decide⟩

/-- **A type on several lines in braces** is the type of the one tag of its block. -/
theorem parse_decorated {title text text' name : String} {n : TypeExpr}
    (htitle : title ∈ typedTitles) (hn : TypeExpr.parse text = .ok n)
    (hfeed : '\n' ∉ text.toList) (hkeys : BracelessKeys text)
    (hname : title = "param" → IsPlain name) (h : Decorated text.toList text'.toList) :
    DocComment.parse (fun _ => true) (typedComment title text' name) =
      (⟨"", [typedTag title n name]⟩, []) := by
  obtain ⟨lead, core, trail, lines, hlead, htrail, hbroken, htext, htext'⟩ := h
  obtain ⟨hne, halpha, hcanonical⟩ := title_facts htitle
  obtain ⟨hparse, hbalanced⟩ := parse_broken hlead htrail hbroken htext hn hkeys
  have hfeeds : '\n' ∉ lead ∧ '\n' ∉ core ∧ '\n' ∉ trail := by
    simpa [htext] using hfeed
  have hbehind := feed_notMem_behindType hname
  have hlines : ∀ line ∈ lines, '\n' ∉ line := fun line hline hmem =>
    hfeeds.2.1 (mem_of_broken hbroken line hline _ hmem)
  have hfront : ∀ s, undecorate (['*', ' ', '@'] ++ title.toList ++ [' ', '\x7b'] ++ lead ++ s) =
      ('@' :: title.toList ++ [' ', '\x7b'] ++ lead) ++ s := by
    intro s
    simp [undecorate, isIndent]
  have hfrontFeed : '\n' ∉ ['*', ' ', '@'] ++ title.toList ++ [' ', '\x7b'] ++ lead := by
    have htitleFeed : '\n' ∉ title.toList := fun hmem => absurd (halpha _ hmem) (by decide)
    simp [htitleFeed, hfeeds.1]
  have hending : '\n' ∉ trail ++ '\x7d' :: behindType title name := by
    simp [hfeeds.2.2, hbehind]
  have hunwrapped : unwrapLines (typedComment title text' name).toList =
      '@' :: (title.toList ++ ' ' :: '\x7b' :: (lead ++ (Text.glue '\n' lines ++ trail) ++
        '\x7d' :: behindType title name)) := by
    have hall := unwrapLines_intercalate hfront hfrontFeed hbroken.ne_nil hlines hending
    rw [toList_typedComment, htext']
    simpa using hall
  obtain ⟨before, last, hlast, hblank⟩ := exists_behindType hname
  have htrimmed : unwrapChars (typedComment title text' name).toList =
      unwrapLines (typedComment title text' name).toList := by
    refine Text.trim_eq_self hunwrapped (by decide) (b := last) ?_ hblank
      (u := '@' :: (title.toList ++ ' ' :: '\x7b' ::
        (lead ++ (Text.glue '\n' lines ++ trail) ++ before)))
    show unwrapLines (typedComment title text' name).toList = _
    rw [hunwrapped, hlast]
    simp
  have hbody : (' ' :: '\x7b' :: (lead ++ (Text.glue '\n' lines ++ trail) ++
      '\x7d' :: behindType title name)).head? = some ' ' := rfl
  have hsegments := segments_eq hne halpha hbody
    (noTag_below hfeeds.1 htrail hfeeds.2.2 hbroken hfeeds.2.1 hbehind)
  have htags := read_typed htitle hbalanced hparse hname
  rw [DocComment.parse, htrimmed, hunwrapped, DocComment.ofText, hsegments]
  simp only [readTags, String.ofList_toList, hcanonical, htags, if_true]
  rfl

theorem decorated_self {text : String} {n : TypeExpr} (hn : TypeExpr.parse text = .ok n) :
    Decorated text.toList text.toList := by
  obtain ⟨tokens, p, hlexes, -⟩ := TypeExpr.parse_eq_ok_iff.mp hn
  obtain ⟨lead, trail, hlead, htrail, htext⟩ := Text.exists_blanks text.toList
  refine ⟨lead, _, trail, _, hlead, htrail, broken_of_lexes hlexes, htext, ?_⟩
  rw [List.intercalate_singleton]
  exact htext

/-- **Braces around a type** are transparent, also when it goes over several lines. -/
theorem typed_tag_read {title text name : String} {n : TypeExpr} (htitle : title ∈ typedTitles)
    (hn : TypeExpr.parse text = .ok n) (hfeed : '\n' ∉ text.toList) (hkeys : BracelessKeys text)
    (hname : title = "param" → IsPlain name) :
    DocComment.parse (fun _ => true) (typedComment title text name) =
        (⟨"", [typedTag title n name]⟩, []) ∧
      ∀ text', Decorated text.toList text'.toList →
        DocComment.parse (fun _ => true) (typedComment title text' name) =
          (⟨"", [typedTag title n name]⟩, []) :=
  ⟨parse_decorated htitle hn hfeed hkeys hname (decorated_self hn),
    fun _ h => parse_decorated htitle hn hfeed hkeys hname h⟩

/-- A record over three lines, a star first on one of them. -/
theorem typed_tag_read_record :
    ("param" ∈ typedTitles ∧
      TypeExpr.parse "A|\x7bb:*\x7d" = .ok (.union [.name "A", .record [.field "b" .all]]) ∧
      '\n' ∉ "A|\x7bb:*\x7d".toList ∧ BracelessKeys "A|\x7bb:*\x7d" ∧ IsPlain "x" ∧
      Decorated "A|\x7bb:*\x7d".toList "A|\n * \x7bb:\n * *\x7d".toList) ∧
    DocComment.parse (fun _ => true) "* @param \x7bA|\n * \x7bb:\n * *\x7d\x7d x" =
      (⟨"", [⟨"param", .union [.name "A", .record [.field "b" .all]], some "x", none⟩]⟩, []) := by
  have hscan : TypeExpr.Scan.ofText (Text.trim "A|\x7bb:*\x7d".toList) =
      ⟨[⟨.name "A", 0⟩, ⟨.bar, 1⟩, ⟨.openBrace, 2⟩, ⟨.name "b", 3⟩, ⟨.colon, 4⟩, ⟨.star, 5⟩,
        ⟨.closeBrace, 6⟩], .endOfText⟩ := by
    decide
  have hparse : TypeExpr.parse "A|\x7bb:*\x7d" =
      .ok (.union [.name "A", .record [.field "b" .all]]) := by
    have hroot : TypeExpr.Phrase.root [⟨.name "A", 0⟩, ⟨.bar, 1⟩, ⟨.openBrace, 2⟩, ⟨.name "b", 3⟩,
        ⟨.colon, 4⟩, ⟨.star, 5⟩, ⟨.closeBrace, 6⟩] =
        .ok (.union [.name "A", .record [.field ⟨.name "b", 3⟩ .all]], []) := by
      cbv
    exact TypeExpr.parse_eq_ok_iff.mpr
      ⟨_, _, TypeExpr.scan_eq_iff.mp hscan, TypeExpr.root_eq_ok_iff.mp hroot, by cbv⟩
  have hkeys : BracelessKeys "A|\x7bb:*\x7d" := by
    intro l hl mark body hquoted
    rw [hscan] at hl
    simp only [List.mem_cons, List.not_mem_nil, or_false] at hl
    rcases hl with rfl | rfl | rfl | rfl | rfl | rfl | rfl <;> cases hquoted
  have hname : IsPlain "x" := ⟨by decide, by simp [Text.isBlank], by decide⟩
  have hlines : Decorated "A|\x7bb:*\x7d".toList "A|\n * \x7bb:\n * *\x7d".toList := by
    have hend : Broken [] [[]] := .nil
    have hrecord := Broken.token (t := .star) trivial trivial
      (.token (t := .closeBrace) trivial trivial hend)
    have hname : ∀ word later, Token.read? word.toList = some (.name word, []) →
        TypeExpr.NameEnds later → (Token.name word).Lexeme ∧ (Token.name word).Ends later :=
      fun _ _ hread hends => ⟨Token.lexeme_of_read? hread, hends⟩
    obtain ⟨hkey, hends⟩ := hname "b" (Token.colon.text.toList ++ _) rfl
      ⟨rfl, fun h => absurd h (by decide)⟩
    have hfield := Broken.token (t := .openBrace) trivial trivial (.token hkey hends
      (.token (t := .colon) trivial trivial (.break hrecord)))
    obtain ⟨hfirst, hends'⟩ := hname "A" (Token.bar.text.toList ++ _) rfl
      ⟨rfl, fun h => absurd h (by decide)⟩
    have hall := Broken.token hfirst hends' (.token (t := .bar) trivial trivial (.break hfield))
    exact ⟨[], _, [], _, by simp, by simp, hall, by decide, by decide⟩
  have htitle : "param" ∈ typedTitles := by decide
  have hread := (typed_tag_read htitle hparse (by decide) hkeys fun _ => hname).2 _ hlines
  exact ⟨⟨htitle, hparse, by decide, hkeys, hname, hlines⟩, hread⟩

end Ambient.Doc
