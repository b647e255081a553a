import Ambient.Proofs.Declaration.Comment
import Ambient.Proofs.Script.Statement

/-!
# The layout of a script

The elements of a script stand in its text in their order: the text is made of the elements and the
blanks around them.

* `IsLine`, `Opens`, `Element.Written`: how an element is written;
* `TopLevel`: a text with its elements, one after the other;
* `charsUpTo_append_rest`, `charsUpTo_append`: the text between two places;
* `written_of_element?`: an element is read where it is written;
* **`topLevel_of_elements?`**: the elements that are read of a text are laid out in it.
-/

namespace Ambient.Script

open Ambient.Declaration (Unclosed unclosed_of_blockLength?)

/-- A text is the remainder of a line, in front of a text that starts with the end of the line if it
is not empty. -/
structure IsLine (text rest : List Char) : Prop where
  not_end : ∀ c ∈ text, isLineEnd c = false
  starts : ∀ c ∈ rest.head?, isLineEnd c = true

/-- A text starts with a character that is not blank, and not as a comment does. -/
structure Opens (text : List Char) : Prop where
  not_blank : ∃ c ∈ text.head?, isSpace c = false
  not_line : ¬ ['/', '/'] <+: text
  not_block : ¬ ['/', '*'] <+: text

/-- How an element that starts on a line is written in front of a text. -/
inductive Element.Written (line : ℕ) : Element → List Char → List Char → Prop
  | lineComment {value rest : List Char} (h : IsLine value rest) :
      Written line (.comment ⟨.line, String.ofList value⟩) ('/' :: '/' :: value) rest
  /-- A block comment is closed at its end, and nowhere before. -/
  | blockComment {value rest : List Char} (h : Unclosed (value ++ ['*'])) :
      Written line (.comment ⟨.block, String.ofList value⟩)
        ('/' :: '*' :: (value ++ ['*', '/'])) rest
  | interpreter {value rest : List Char} (h : IsLine value rest) :
      Written line .interpreter ('#' :: '!' :: value) rest
  | statement {text rest : List Char} (form : Form) (h : Opens text) :
      Written line (.statement ⟨form, line, String.ofList text, []⟩) text rest

/-- A text that starts on a line, with its elements in the order they stand in it: there is nothing
but blanks around them. -/
inductive TopLevel : ℕ → List Char → List Element → Prop
  | ending {line : ℕ} {blanks : List Char} (h : ∀ c ∈ blanks, isSpace c = true) :
      TopLevel line blanks []
  | element {line : ℕ} {blanks text rest : List Char} {e : Element} {later : List Element}
      (h : ∀ c ∈ blanks, isSpace c = true) (he : e.Written (line + feeds blanks) text rest)
      (hlater : TopLevel (line + feeds blanks + feeds text) rest later) :
      TopLevel line (blanks ++ (text ++ rest)) (e :: later)

/-! ## The text between two places -/

variable {c later : Cursor}

theorem charsUpTo_drop (n : ℕ) : c.charsUpTo (c.drop n) = c.rest.take n := by
  rw [Cursor.charsUpTo, Cursor.drop, Nat.add_sub_cancel_left]

theorem charsUpTo_append_rest (h : c ≤ later) : c.charsUpTo later ++ later.rest = c.rest := by
  obtain ⟨n, rfl⟩ := Cursor.le_iff.mp h
  rw [charsUpTo_drop, Cursor.drop, List.take_append_drop]

theorem charsUpTo_append {middle : Cursor} (h : c ≤ middle) (hlater : middle ≤ later) :
    c.charsUpTo middle ++ middle.charsUpTo later = c.charsUpTo later := by
  rw [← List.append_left_inj later.rest, List.append_assoc, charsUpTo_append_rest hlater,
    charsUpTo_append_rest h, charsUpTo_append_rest (h.trans hlater)]

theorem charsUpTo_ne_nil (h : c < later) (hrest : c.rest ≠ []) : c.charsUpTo later ≠ [] := by
  obtain ⟨n, hn, rfl⟩ := Cursor.lt_iff.mp h
  rw [charsUpTo_drop, ne_eq, List.take_eq_nil_iff, not_or]
  exact ⟨hn.ne', hrest⟩

theorem feeds_append (s t : List Char) : feeds (s ++ t) = feeds s + feeds t := List.count_append

theorem take_length_takeWhile (p : Char → Bool) (s : List Char) :
    s.take (s.takeWhile p).length = s.takeWhile p :=
  (List.prefix_iff_eq_take.mp (List.takeWhile_prefix p)).symm

theorem drop_length_takeWhile (p : Char → Bool) (s : List Char) :
    s.drop (s.takeWhile p).length = s.dropWhile p := by
  rw [← List.append_right_inj (s.takeWhile p), List.takeWhile_append_dropWhile]
  exact List.prefix_iff_eq_append.mp (List.takeWhile_prefix p)

/-! ## One element -/

/-- A block comment ends with its first closing mark, which its length includes. -/
theorem blockLength?_eq_some {s : List Char} {n : ℕ} (h : blockLength? s = some n) :
    ∃ value rest, s = value ++ '*' :: '/' :: rest ∧ n = value.length + 2 := by
  fun_induction blockLength? s generalizing n with
  | case1 => cases h
  | case2 rest =>
    cases h
    exact ⟨[], rest, rfl, rfl⟩
  | case3 c s _ ih =>
    obtain ⟨m, hm, rfl⟩ := Option.map_eq_some_iff.mp h
    obtain ⟨value, rest, rfl, rfl⟩ := ih hm
    exact ⟨c :: value, rest, rfl, rfl⟩

theorem isLine_take (s : List Char) : IsLine (s.take (lineLength s)) (s.drop (lineLength s)) := by
  rw [lineLength, take_length_takeWhile, drop_length_takeWhile]
  constructor
  · intro a ha
    simpa using List.mem_takeWhile_imp ha
  · intro a ha
    have hfirst := s.head?_dropWhile_not fun c => !isLineEnd c
    rw [ha] at hfirst
    simpa using hfirst

theorem opens_charsUpTo (h : c < later) (hc : Opens c.rest) : Opens (c.charsUpTo later) := by
  obtain ⟨a, ha, hspace⟩ := hc.not_blank
  have hprefix : c.charsUpTo later <+: c.rest := ⟨later.rest, charsUpTo_append_rest h.le⟩
  have hnil : c.charsUpTo later ≠ [] := charsUpTo_ne_nil h fun hrest => by
    rw [hrest] at ha
    cases ha
  refine ⟨⟨a, ?_, hspace⟩, fun hline => hc.not_line (hline.trans hprefix),
    fun hblock => hc.not_block (hblock.trans hprefix)⟩
  obtain ⟨b, rest, hb⟩ := List.exists_cons_of_ne_nil hnil
  rw [← charsUpTo_append_rest h.le, hb] at ha
  rwa [hb]

/-- The text of a line that starts with two marks, and what is behind it. -/
theorem charsUpTo_line {a b : Char} {rest : List Char} (hc : c.rest = a :: b :: rest) :
    c.charsUpTo (c.drop (lineLength rest + 2)) = a :: b :: rest.take (lineLength rest) ∧
      (c.drop (lineLength rest + 2)).rest = rest.drop (lineLength rest) := by
  constructor
  · rw [charsUpTo_drop, hc]
    rfl
  · rw [Cursor.drop, hc]
    rfl

theorem written_blockComment {line n : ℕ} {rest : List Char} (hc : c.rest = '/' :: '*' :: rest)
    (hn : blockLength? rest = some n) :
    (Element.comment ⟨.block, String.ofList (rest.take (n - 2))⟩).Written line
      (c.charsUpTo (c.drop (n + 2))) (c.drop (n + 2)).rest := by
  have hunclosed := unclosed_of_blockLength? hn
  obtain ⟨value, tail, rfl, rfl⟩ := blockLength?_eq_some hn
  have hvalue : (value ++ '*' :: '/' :: tail).take (value.length + 2 - 2) = value :=
    List.take_left
  have hstar : (value ++ '*' :: '/' :: tail).take (value.length + 2 - 1) = value ++ ['*'] :=
    List.take_length_add_append 1
  have hwhole : (value ++ '*' :: '/' :: tail).take (value.length + 2) = value ++ ['*', '/'] :=
    List.take_length_add_append 2
  rw [hstar] at hunclosed
  rw [charsUpTo_drop, hc, List.take_succ_cons, List.take_succ_cons, hvalue, hwhole]
  exact .blockComment hunclosed

/-- A comment in the manner of markup is a statement of its own kind. -/
theorem written_markup {line : ℕ} {a : Char} {rest : List Char} (hc : c.rest = a :: rest)
    (ha : a = '<' ∨ a = '-') :
    (Element.statement (.between (.unsupported "html_comment") line c
      (c.drop (markupLength c.rest)))).Written line
        (c.charsUpTo (c.drop (markupLength c.rest))) (c.drop (markupLength c.rest)).rest := by
  have hopens : Opens c.rest := by
    rw [hc]
    rcases ha with rfl | rfl <;> exact ⟨⟨_, rfl, rfl⟩, by simp, by simp⟩
  have hlength : 0 < markupLength c.rest := by
    rw [hc]
    rcases ha with rfl | rfl <;> exact length_takeWhile_pos rfl rest
  exact .statement _ (opens_charsUpTo (Cursor.lt_drop hlength c) hopens)

/-- **An element is read where it is written.** -/
theorem written_of_element? {depth line : ℕ} {e : Element}
    (hfirst : ∃ a ∈ c.rest.head?, isSpace a = false)
    (h : element? depth line c = some (e, later)) :
    e.Written line (c.charsUpTo later) later.rest ∧ c ≤ later := by
  unfold element? at h
  split at h
  · rename_i rest hc
    cases h
    obtain ⟨htext, hbehind⟩ := charsUpTo_line hc
    rw [htext, hbehind]
    exact ⟨.lineComment (isLine_take rest), c.le_drop _⟩
  · rename_i rest hc
    obtain ⟨n, hn, ⟨⟩⟩ := Option.map_eq_some_iff.mp h
    exact ⟨written_blockComment hc hn, c.le_drop _⟩
  · rename_i rest hc
    cases h
    exact ⟨written_markup hc (.inl rfl), c.le_drop _⟩
  · rename_i rest hc
    cases h
    exact ⟨written_markup hc (.inr rfl), c.le_drop _⟩
  · rename_i hline hblock _ _
    have hopens : Opens c.rest := {
      not_blank := hfirst
      not_line := fun ⟨rest, hc⟩ => hline rest hc.symm
      not_block := fun ⟨rest, hc⟩ => hblock rest hc.symm }
    obtain ⟨⟨form, later⟩, hread, ⟨⟩⟩ := Option.map_eq_some_iff.mp h
    have hlt : c < later := advances_readGoal depth .statement c _ hread
    exact ⟨.statement form (opens_charsUpTo hlt hopens), hlt.le⟩

/-! ## All elements -/

theorem topLevel_of_elementsFrom? {depth fuel line : ℕ} {elements : List Element}
    (h : elementsFrom? depth fuel line c = some elements) : TopLevel line c.rest elements := by
  induction fuel generalizing line c elements with
  | zero => cases h
  | succ fuel ih =>
    have hbehind : (c.drop (c.rest.takeWhile isSpace).length).rest = c.rest.dropWhile isSpace :=
      drop_length_takeWhile isSpace c.rest
    have hblanks : c.rest = c.rest.takeWhile isSpace ++
        (c.drop (c.rest.takeWhile isSpace).length).rest := by
      rw [hbehind, List.takeWhile_append_dropWhile]
    rw [elementsFrom?] at h
    dsimp only at h
    split at h
    · rename_i hempty
      cases h
      rw [hblanks, List.isEmpty_iff.mp hempty, List.append_nil]
      exact .ending fun _ ha => List.mem_takeWhile_imp ha
    · rename_i hrest
      obtain ⟨⟨e, later⟩, he, h⟩ := Option.bind_eq_some_iff.mp h
      obtain ⟨others, hothers, ⟨⟩⟩ := Option.bind_eq_some_iff.mp h
      have hfirst : ∃ a ∈ (c.drop (c.rest.takeWhile isSpace).length).rest.head?,
          isSpace a = false := by
        rw [List.isEmpty_iff] at hrest
        rw [hbehind] at hrest ⊢
        exact ⟨_, List.head?_eq_some_head hrest, List.head_dropWhile_not isSpace hrest⟩
      obtain ⟨hwritten, hle⟩ := written_of_element? hfirst he
      rw [hblanks, ← charsUpTo_append_rest hle]
      exact .element (fun _ ha => List.mem_takeWhile_imp ha) hwritten (ih hothers)

/-- **The elements that are read of a text are laid out in it**, in their order. -/
theorem topLevel_of_elements? {text : List Char} {elements : List Element}
    (h : elements? text = some elements) : TopLevel 1 text elements := by
  unfold elements? at h
  extract_lets c start at h
  split at h
  · rename_i later _ rest hstart
    obtain ⟨others, hothers, rfl⟩ := Option.map_eq_some_iff.mp h
    have hlater : later = start.drop (lineLength rest + 2) := by
      unfold later
      rw [hstart]
      rfl
    obtain ⟨hword, hbehind⟩ := charsUpTo_line hstart
    rw [← hlater] at hword hbehind
    have hbefore : c ≤ start := c.le_drop _
    have hline : start ≤ later := start.le_drop _
    have hblanks : c.charsUpTo start = text.takeWhile isSpace := by
      rw [charsUpTo_drop]
      exact take_length_takeWhile isSpace text
    have htext : text = c.charsUpTo start ++ (start.charsUpTo later ++ later.rest) := by
      rw [charsUpTo_append_rest hline, charsUpTo_append_rest hbefore]
      rfl
    rw [htext]
    refine .element (fun _ ha => List.mem_takeWhile_imp (hblanks ▸ ha)) ?_ ?_
    · rw [hword, hbehind]
      exact .interpreter (isLine_take rest)
    · rw [Nat.add_assoc, ← feeds_append, charsUpTo_append hbefore hline]
      exact topLevel_of_elementsFrom? hothers
  · exact topLevel_of_elementsFrom? h

end Ambient.Script
