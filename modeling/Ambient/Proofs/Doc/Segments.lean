import Ambient.Doc.Tag
import Ambient.Proofs.Text.Cut
import Ambient.Proofs.TypeExpr.Lexeme
import Mathlib.Data.List.TakeWhile

/-!
# The tags of a text

The lines that start a tag cut a text into the part before the first of them and one section for
each. Nothing of the text is lost, and no section reaches over the next such line.

* `StartsTag`, `isSome_tagStart?_iff`: the lines that start a tag;
* `Section`, `Section.Fits`: a tag as it stands in a text;
* `Segmented`: a text with its head and its sections;
* `Segmented.plain`, `Segmented.start`: one line more in front of a text;
* **`exists_segmented`**: the cut of a text, by induction on its lines;
* `readTags_sections`: the tags of sections, and those among them that are wanted;
* **`parse_segmented`**: the description and the tags of a block.
-/

namespace Ambient.Doc

/-! ## The lines that start a tag -/

/-- A line whose first character after blanks is `@`, with a letter after it. -/
def StartsTag (line : List Char) : Prop :=
  ∃ lead letter rest, line = lead ++ '@' :: letter :: rest ∧ (∀ c ∈ lead, isIndent c = true) ∧
    letter.isAlpha = true

/-- A tag as it stands in a text: the blanks in front of it, its title, and what follows up to the
next tag. -/
structure Section where
  lead : List Char
  title : List Char
  body : List Char

namespace Section

/-- The text of a section. -/
def text (s : Section) : List Char := s.lead ++ '@' :: (s.title ++ s.body)

/-- The line that starts the tag of a section. -/
def firstLine (s : Section) : List Char :=
  s.lead ++ '@' :: (s.title ++ s.body.takeWhile (· ≠ '\n'))

/-- The title that the tag of a section is known by. -/
def name (s : Section) : String := canonicalTitle (String.ofList s.title)

/-- The tag that a section is read as. -/
def tag (s : Section) : Tag := (Tag.read s.name s.body).1

/-- Blanks, a title of letters, and a body that does not begin with a letter: the title is as long
as it can be. -/
structure Fits (s : Section) : Prop where
  lead : ∀ c ∈ s.lead, isIndent c = true
  title_ne_nil : s.title ≠ []
  title : ∀ c ∈ s.title, c.isAlpha = true
  body : s.body.head?.any Char.isAlpha = false

end Section

theorem tagStart?_eq_some {line title rest : List Char} (h : tagStart? line = some (title, rest)) :
    ∃ lead, line = lead ++ '@' :: (title ++ rest) ∧ Section.Fits ⟨lead, title, rest⟩ := by
  have hline := List.takeWhile_append_dropWhile (p := isIndent) (l := line)
  unfold tagStart? at h
  split at h
  · rename_i after hafter
    split_ifs at h with hletter
    obtain ⟨rfl, rfl⟩ := Prod.mk.inj (Option.some.inj h)
    refine ⟨line.takeWhile isIndent, ?_, fun c hc => List.mem_takeWhile_imp hc, ?_,
      fun c hc => List.mem_takeWhile_imp hc, TypeExpr.head_dropWhile after⟩
    · rw [List.takeWhile_append_dropWhile, ← hafter, hline]
    · cases after with
      | nil => cases hletter
      | cons c after =>
        have hc : c.isAlpha = true := hletter
        dsimp only
        rw [List.takeWhile_cons_of_pos hc]
        exact List.cons_ne_nil _ _
  · cases h

theorem Section.Fits.startsTag {s : Section} (h : s.Fits) (after : List Char) :
    StartsTag (s.lead ++ '@' :: (s.title ++ after)) := by
  obtain ⟨letter, later, htitle⟩ := List.exists_cons_of_ne_nil h.title_ne_nil
  refine ⟨s.lead, letter, later ++ after, by rw [htitle, List.cons_append], h.lead, ?_⟩
  exact h.title letter (by rw [htitle]; exact List.mem_cons_self)

theorem isSome_tagStart?_iff {line : List Char} :
    (tagStart? line).isSome = true ↔ StartsTag line := by
  constructor
  · intro h
    obtain ⟨⟨title, rest⟩, hstart⟩ := Option.isSome_iff_exists.mp h
    obtain ⟨lead, rfl, hfits⟩ := tagStart?_eq_some hstart
    exact hfits.startsTag rest
  · rintro ⟨lead, letter, rest, rfl, hlead, hletter⟩
    have hdrop : (lead ++ '@' :: letter :: rest).dropWhile isIndent = '@' :: letter :: rest := by
      rw [List.dropWhile_append_of_pos hlead]
      exact List.dropWhile_cons_of_neg (by decide)
    have hhead : (letter :: rest).head?.any Char.isAlpha = true := hletter
    simp only [tagStart?, hdrop, hhead, if_true, Option.isSome_some]

theorem not_startsTag_of_eq_none {line : List Char} (h : tagStart? line = none) :
    ¬ StartsTag line := by
  rw [← isSome_tagStart?_iff, h]
  exact Bool.false_ne_true

instance (line : List Char) : Decidable (StartsTag line) :=
  decidable_of_iff _ isSome_tagStart?_iff

/-! ## Texts and their sections -/

/-- A text that is cut at the lines that start a tag. -/
structure Segmented (text head : List Char) (sections : List Section) : Prop where
  /-- Nothing is lost, and nothing is taken twice. -/
  whole : text = head ++ sections.flatMap Section.text
  fits : ∀ s ∈ sections, s.Fits
  /-- What stands before a section ends with its line. -/
  aligned : ∀ part ∈ (head :: sections.map Section.text).dropLast,
    part = [] ∨ part.getLast? = some '\n'
  /-- The sections are those of all lines that start a tag. -/
  starts : (Text.cut '\n' text).filter (StartsTag ·) = sections.map Section.firstLine
  /-- No such line stands before them. -/
  above : ∀ line ∈ Text.cut '\n' head, ¬ StartsTag line

variable {line lead title rest text head below : List Char} {sections : List Section}

theorem getLast?_feed_cons (line : List Char) (h : head = [] ∨ head.getLast? = some '\n') :
    (line ++ '\n' :: head).getLast? = some '\n' := by
  rcases h with rfl | h
  · exact List.getLast?_concat
  · rw [List.getLast?_append, List.getLast?_cons, h]
    rfl

theorem not_startsTag_nil : ¬ StartsTag [] := by
  rintro ⟨lead, letter, rest, h, -⟩
  exact absurd h.symm (List.append_ne_nil_of_right_ne_nil _ (List.cons_ne_nil _ _))

/-- What a section has below its first line is not seen in that line. -/
theorem firstLine_eq (hfeed : '\n' ∉ rest) (hbelow : below = [] ∨ below.head? = some '\n')
    (lead title : List Char) :
    (Section.mk lead title (rest ++ below)).firstLine = lead ++ '@' :: (title ++ rest) := by
  have hrest : ∀ c ∈ rest, decide (c ≠ '\n') = true := fun c hc =>
    decide_eq_true (ne_of_mem_of_not_mem hc hfeed)
  have htake : (rest ++ below).takeWhile (fun c => decide (c ≠ '\n')) = rest := by
    rw [List.takeWhile_append_of_pos hrest]
    cases below with
    | nil => exact List.append_nil rest
    | cons c below =>
      obtain rfl : c = '\n' := by simpa using hbelow
      rw [List.takeWhile_cons_of_neg (by decide), List.append_nil]
  rw [Section.firstLine, htake]

theorem Section.Fits.goOn (h : Section.Fits ⟨lead, title, rest⟩)
    (hbelow : below = [] ∨ below.head? = some '\n') :
    Section.Fits ⟨lead, title, rest ++ below⟩ where
  lead := h.lead
  title_ne_nil := h.title_ne_nil
  title := h.title
  body := by
    cases rest with
    | nil =>
      rcases hbelow with rfl | hbelow
      · rfl
      · dsimp only
        rw [List.nil_append, hbelow]
        rfl
    | cons c rest => exact h.body

namespace Segmented

/-- A text of one line that starts no tag. -/
theorem ofPlain (hfeed : '\n' ∉ line) (h : ¬ StartsTag line) : Segmented line line [] where
  whole := (List.append_nil line).symm
  fits := by simp
  aligned := by simp
  starts := by
    rw [Text.cut_of_notMem hfeed, List.filter_cons_of_neg (by simpa using h)]
    rfl
  above := by
    rw [Text.cut_of_notMem hfeed]
    simpa using h

/-- A text of one line that starts a tag. -/
theorem ofStart (hfeed : '\n' ∉ lead ++ '@' :: (title ++ rest))
    (hfits : Section.Fits ⟨lead, title, rest⟩) :
    Segmented (lead ++ '@' :: (title ++ rest)) [] [⟨lead, title, rest⟩] where
  whole := by simp [Section.text]
  fits := by simpa using hfits
  aligned := by simp
  starts := by
    have hrest : '\n' ∉ rest := fun h => hfeed (by simp [h])
    have hfirst := firstLine_eq hrest (Or.inl rfl) lead title
    rw [List.append_nil] at hfirst
    rw [Text.cut_of_notMem hfeed, List.filter_cons_of_pos (by simpa using hfits.startsTag rest),
      List.map_singleton, hfirst]
    rfl
  above := by simpa [Text.cut] using not_startsTag_nil

/-- One line more in front of a text, which starts no tag. -/
theorem plain (h : Segmented text head sections) (hfeed : '\n' ∉ line)
    (hline : ¬ StartsTag line) :
    Segmented (line ++ '\n' :: text) (line ++ '\n' :: head) sections where
  whole := by
    rw [h.whole]
    simp
  fits := h.fits
  aligned := by
    intro part hpart
    have haligned := h.aligned
    cases sections with
    | nil => simp at hpart
    | cons s sections =>
      rw [List.map_cons, List.dropLast_cons_cons, List.forall_mem_cons] at haligned
      rw [List.map_cons, List.dropLast_cons_cons, List.mem_cons] at hpart
      rcases hpart with rfl | hpart
      · exact Or.inr (getLast?_feed_cons line haligned.1)
      · exact haligned.2 part hpart
  starts := by
    rw [Text.cut_append_cons hfeed, List.filter_cons_of_neg (by simpa using hline), h.starts]
  above := by
    rw [Text.cut_append_cons hfeed, List.forall_mem_cons]
    exact ⟨hline, h.above⟩

/-- One line more in front of a text, which starts a tag. -/
theorem start (h : Segmented text head sections) (hfeed : '\n' ∉ lead ++ '@' :: (title ++ rest))
    (hfits : Section.Fits ⟨lead, title, rest⟩) :
    Segmented (lead ++ '@' :: (title ++ rest) ++ '\n' :: text) []
      (⟨lead, title, rest ++ '\n' :: head⟩ :: sections) where
  whole := by
    rw [h.whole]
    simp [Section.text]
  fits := List.forall_mem_cons.mpr ⟨hfits.goOn (Or.inr rfl), h.fits⟩
  aligned := by
    intro part hpart
    have haligned := h.aligned
    rw [List.map_cons, List.dropLast_cons_cons, List.mem_cons] at hpart
    rcases hpart with rfl | hpart
    · exact Or.inl rfl
    cases sections with
    | nil => simp at hpart
    | cons s sections =>
      rw [List.map_cons, List.dropLast_cons_cons, List.forall_mem_cons] at haligned
      rw [List.map_cons, List.dropLast_cons_cons, List.mem_cons] at hpart
      rcases hpart with rfl | hpart
      · have hlast := getLast?_feed_cons (lead ++ '@' :: (title ++ rest)) haligned.1
        exact Or.inr (by simpa [Section.text] using hlast)
      · exact haligned.2 part hpart
  starts := by
    have hrest : '\n' ∉ rest := fun h => hfeed (by simp [h])
    rw [Text.cut_append_cons hfeed, List.filter_cons_of_pos (by simpa using hfits.startsTag rest),
      h.starts, List.map_cons, firstLine_eq hrest (Or.inr rfl)]
  above := by simpa [Text.cut] using not_startsTag_nil

end Segmented

/-! ## The cut of a text -/

/-- The lines of a text are put in front of what is below them, from the last one on. -/
theorem exists_segmented_lines : ∀ {lines : List (List Char)}, lines ≠ [] →
    (∀ line ∈ lines, '\n' ∉ line) → ∃ sections,
      (segmentLines lines).2 = sections.map (fun s => (s.title, s.body)) ∧
        Segmented (Text.glue '\n' lines) (segmentLines lines).1 sections
  | [], hne, _ => absurd rfl hne
  | [line], _, hfeed => by
    have hline : '\n' ∉ line := hfeed line List.mem_cons_self
    cases hstart : tagStart? line with
    | none =>
      have hplain := Segmented.ofPlain hline (not_startsTag_of_eq_none hstart)
      exact ⟨[], by simp [segmentLines, hstart],
        by simpa [segmentLines, hstart, Text.glue] using hplain⟩
    | some found =>
      obtain ⟨title, rest⟩ := found
      obtain ⟨lead, rfl, hfits⟩ := tagStart?_eq_some hstart
      exact ⟨[⟨lead, title, rest⟩], by simp [segmentLines, hstart],
        by simpa [segmentLines, hstart, Text.glue] using Segmented.ofStart hline hfits⟩
  | line :: next :: later, _, hfeed => by
    rw [List.forall_mem_cons] at hfeed
    obtain ⟨sections, hfound, hbelow⟩ :=
      exists_segmented_lines (List.cons_ne_nil next later) hfeed.2
    cases hstart : tagStart? line with
    | none =>
      refine ⟨sections, ?_, ?_⟩
      · rw [segmentLines, hstart]
        exact hfound
      · rw [segmentLines, hstart]
        exact hbelow.plain hfeed.1 (not_startsTag_of_eq_none hstart)
    | some found =>
      obtain ⟨title, rest⟩ := found
      obtain ⟨lead, rfl, hfits⟩ := tagStart?_eq_some hstart
      refine ⟨⟨lead, title, rest ++ '\n' :: (segmentLines (next :: later)).1⟩ :: sections, ?_, ?_⟩
      · rw [segmentLines, hstart, List.map_cons, ← hfound]
        rfl
      · rw [segmentLines, hstart]
        exact hbelow.start hfeed.1 hfits

/-- **The cut of a text** gives the titles and the bodies of its sections. -/
theorem exists_segmented (text : List Char) : ∃ sections,
    (segments text).2 = sections.map (fun s => (s.title, s.body)) ∧
      Segmented text (segments text).1 sections := by
  obtain ⟨sections, hfound, h⟩ :=
    exists_segmented_lines (Text.cut_ne_nil '\n' text) Text.notMem_of_mem_cut
  rw [Text.glue_cut] at h
  exact ⟨sections, hfound, h⟩

/-! ## Reading the sections -/

theorem title_read (title : String) (body : List Char) : (Tag.read title body).1.title = title := by
  rw [Tag.read]
  dsimp only
  split
  · split <;> rfl
  · rfl

theorem Section.title_tag (s : Section) : s.tag.title = s.name := title_read s.name s.body

/-- The tags with wanted titles are read as they are among all tags. -/
theorem readTags_sections (wanted : String → Bool) : ∀ sections : List Section,
    (readTags wanted (sections.map fun s => (s.title, s.body))).1 =
      (sections.map Section.tag).filter fun tag => wanted tag.title
  | [] => rfl
  | s :: sections => by
    have ih := readTags_sections wanted sections
    have hread : (readTags wanted ((s :: sections).map fun s => (s.title, s.body))).1 =
        if wanted s.name = true then
          s.tag :: (readTags wanted (sections.map fun s => (s.title, s.body))).1
        else (readTags wanted (sections.map fun s => (s.title, s.body))).1 := by
      rw [List.map_cons, readTags]
      split_ifs with hwanted
      · exact congrArg Prod.fst (if_pos hwanted)
      · exact congrArg Prod.fst (if_neg hwanted)
    rw [hread, ih, List.map_cons, List.filter_cons, Section.title_tag]

theorem description_parse (wanted : String → Bool) (value : String) :
    (DocComment.parse wanted value).1.description =
      String.ofList (Text.trim (segments (unwrapChars value.toList)).1) := by
  rw [DocComment.parse, DocComment.ofText]

theorem tags_parse (wanted : String → Bool) (value : String) :
    (DocComment.parse wanted value).1.tags =
      (readTags wanted (segments (unwrapChars value.toList)).2).1 := by
  rw [DocComment.parse, DocComment.ofText]

/-- **The tags of a block.** The text of a block is cut into its head and one section for each line
that starts a tag. The head is the description, and each section gives the tag with its title and
its body, in order. Of these tags, those with wanted titles are kept, and the description stays. -/
theorem parse_segmented (value : String) :
    let doc := (DocComment.parse (fun _ => true) value).1
    (∃ head sections, Segmented (unwrap value).toList head sections ∧
      doc.description = String.ofList (Text.trim head) ∧
      doc.tags = sections.map Section.tag ∧ doc.tags.map Tag.title = sections.map Section.name) ∧
    ∀ wanted, (DocComment.parse wanted value).1.description = doc.description ∧
      (DocComment.parse wanted value).1.tags = doc.tags.filter fun tag => wanted tag.title := by
  intro doc
  obtain ⟨sections, hfound, h⟩ := exists_segmented (unwrapChars value.toList)
  have htags : ∀ wanted, (DocComment.parse wanted value).1.tags =
      (sections.map Section.tag).filter fun tag => wanted tag.title := by
    intro wanted
    rw [tags_parse, hfound, readTags_sections]
  have hall : doc.tags = sections.map Section.tag := by
    rw [htags, List.filter_eq_self.mpr fun _ _ => rfl]
  refine ⟨⟨_, sections, by rwa [unwrap, String.toList_ofList], description_parse _ _, hall, ?_⟩,
    fun wanted => ⟨?_, ?_⟩⟩
  · rw [hall, List.map_map]
    exact List.map_congr_left fun s _ => s.title_tag
  · rw [description_parse, description_parse]
  · rw [htags, hall]

/-- An `@` inside a line, behind a return and in braces starts no tag. -/
example : segments " x @a\r@b\n\t@returns\x7b@c\x7d\n@d2\n".toList =
    (" x @a\r@b\n".toList,
      [("returns".toList, "\x7b@c\x7d\n".toList), ("d".toList, "2\n".toList)]) := by
  decide

end Ambient.Doc
