import Ambient.Proofs.TypeExpr.Refused
import Ambient.Proofs.TypeExpr.Spelling

/-!
# The atoms of a declared text

The text of a declared type is made of words, signs and arrows. A word goes on up to a sign or a
blank; blanks mean nothing else.

* `Atom`, `scan`;
* `Scans`: the atoms of a text, whatever follows it that does not go on with its last word;
* `scans_join`: texts with a separator between each two;
* `isWord_renameType`, `isWord_parameterName`: names are words.
-/

namespace Ambient.TypeExpr

/-- A part of the text of a declared type. -/
inductive Atom
  | word (letters : List Char)
  | sign (c : Char)
  | arrow
  deriving DecidableEq, Repr

namespace Atom

/-- The characters that are no part of a word and no blanks. -/
def isSign (c : Char) : Bool :=
  ['(', ')', '[', ']', '\x7b', '\x7d', '<', '>', '|', ',', ';', ':', '='].contains c

/-- The characters of words. -/
def isWordPart (c : Char) : Bool := !isSign c && !Text.isBlank c

/-- A character of a word before atoms, of which the first may go on with that word. -/
def extend (c : Char) (goesOn : Bool) (atoms : List Atom) : List Atom :=
  match goesOn, atoms with
  | true, .word letters :: later => .word (c :: letters) :: later
  | _, atoms => .word [c] :: atoms

/-- The atoms of a text. -/
def scan : List Char → List Atom
  | [] => []
  | '=' :: '>' :: s => .arrow :: scan s
  | c :: s =>
    if isSign c then .sign c :: scan s
    else if Text.isBlank c then scan s
    else extend c (s.head?.any isWordPart) (scan s)

/-- A text has these atoms, and no others when a text follows that does not go on with a word. -/
def Scans (s : List Char) (atoms : List Atom) : Prop :=
  ∀ rest : List Char, rest.head?.any isWordPart = false → scan (s ++ rest) = atoms ++ scan rest

/-- A text that is one word. -/
def IsWord (s : List Char) : Prop := s ≠ [] ∧ ∀ c ∈ s, isWordPart c = true

instance : DecidablePred IsWord := fun s =>
  decidable_of_iff (s ≠ [] ∧ s.all isWordPart = true) (and_congr Iff.rfl List.all_eq_true)

variable {s t : List Char} {as bs : List Atom} {c : Char}

theorem Scans.scan_eq (h : Scans s as) : scan s = as := by
  have hnil := h [] rfl
  rwa [List.append_nil, scan, List.append_nil] at hnil

theorem scans_nil : Scans [] [] := fun _ _ => rfl

theorem scan_sign (hc : isSign c = true) (hne : c ≠ '=') (s : List Char) :
    scan (c :: s) = .sign c :: scan s := by
  rw [scan, if_pos hc]
  rintro rest rfl rfl
  exact hne rfl

theorem Scans.sign (hc : isSign c = true) (hne : c ≠ '=') (h : Scans s as) :
    Scans (c :: s) (.sign c :: as) := by
  intro rest hrest
  rw [List.cons_append, scan_sign hc hne, h rest hrest]
  rfl

theorem Scans.blank (h : Scans s as) : Scans (' ' :: s) as := by
  intro rest hrest
  have hblank : ∀ s, scan (' ' :: s) = scan s := fun s => rfl
  rw [List.cons_append, hblank, h rest hrest]

theorem Scans.arrow (h : Scans s as) : Scans ('=' :: '>' :: s) (.arrow :: as) := by
  intro rest hrest
  rw [List.cons_append, List.cons_append, scan, h rest hrest]
  rfl

theorem scan_wordPart (hc : isWordPart c = true) (s : List Char) :
    scan (c :: s) = extend c (s.head?.any isWordPart) (scan s) := by
  rw [isWordPart, Bool.and_eq_true, Bool.not_eq_true', Bool.not_eq_true'] at hc
  rw [scan, if_neg (by simp [hc.1]), if_neg (by simp [hc.2])]
  rintro rest rfl rfl
  exact absurd hc.1 (by decide)

theorem scans_word (h : IsWord s) : Scans s [.word s] := by
  intro rest hrest
  obtain ⟨hne, hs⟩ := h
  induction s with
  | nil => exact absurd rfl hne
  | cons c s ih =>
    rw [List.forall_mem_cons] at hs
    rw [List.cons_append, scan_wordPart hs.1]
    cases s with
    | nil =>
      rw [List.nil_append, hrest]
      rfl
    | cons d s =>
      have hd : ((d :: s) ++ rest).head?.any isWordPart = true := hs.2 d List.mem_cons_self
      rw [ih (List.cons_ne_nil d s) hs.2, hd]
      rfl

/-- The atoms of two texts one after the other, if the second does not go on with a word. -/
theorem Scans.append (hs : Scans s as) (ht : Scans t bs)
    (hhead : t.head?.any isWordPart = false) : Scans (s ++ t) (as ++ bs) := by
  intro rest hrest
  have hnext : (t ++ rest).head?.any isWordPart = false := by
    cases t with
    | nil => exact hrest
    | cons d t => exact hhead
  rw [List.append_assoc, hs _ hnext, ht rest hrest, List.append_assoc]

theorem not_isWordPart_of_isSign (hc : isSign c = true) : isWordPart c = false := by
  rw [isWordPart, hc]
  rfl

/-- A sign, perhaps with a blank after it, between each two texts. -/
theorem scans_join {sep : List Char} (hc : isSign c = true) (hne : c ≠ '=')
    (hsep : sep = [c] ∨ sep = [c, ' ']) {texts : List (List Char)} {lists : List (List Atom)}
    (h : List.Forall₂ Scans texts lists) :
    Scans (sep.intercalate texts) ([Atom.sign c].intercalate lists) := by
  induction h with
  | nil => exact scans_nil
  | @cons s as texts lists hs h ih =>
    cases h with
    | nil =>
      rw [List.intercalate_singleton, List.intercalate_singleton]
      exact hs
    | cons ht hlater =>
      rw [List.intercalate_cons_cons, List.intercalate_cons_cons, List.append_assoc,
        List.append_assoc]
      have hhead := not_isWordPart_of_isSign hc
      rcases hsep with rfl | rfl
      · exact hs.append (ih.sign hc hne) hhead
      · exact hs.append (ih.blank.sign hc hne) hhead

/-! ## Names -/

theorem isWordPart_of_isNamePart (h : Token.isNamePart c = true) : isWordPart c = true := by
  have hsign : isSign c = false := by
    by_contra hsign
    rw [Bool.not_eq_false, isSign, List.contains_iff_mem] at hsign
    simp only [List.mem_cons, List.not_mem_nil, or_false] at hsign
    rcases hsign with rfl | rfl | rfl | rfl | rfl | rfl | rfl | rfl | rfl | rfl | rfl | rfl |
      rfl <;>
      exact absurd h (by decide)
  rw [isWordPart, hsign, not_blank_of_isNamePart h]
  rfl

/-- A text with underscores put in. -/
def Marked (s t : List Char) : Prop := s.Sublist t ∧ ∀ c ∈ t, c ∈ s ∨ c = '_'

theorem marked_sanitize (word : String) : Marked word.toList (Name.sanitize word).toList := by
  rw [Name.sanitize]
  split
  · rw [String.toList_append]
    refine ⟨List.sublist_append_left _ _, fun c hc => ?_⟩
    exact (List.mem_append.mp hc).imp_right List.mem_singleton.mp
  · exact ⟨List.Sublist.refl _, fun c hc => Or.inl hc⟩

theorem marked_glue (words : List String) :
    Marked (Text.glue '.' (words.map String.toList))
      (Text.glue '.' ((words.map Name.sanitize).map String.toList)) := by
  induction words with
  | nil => exact ⟨List.Sublist.refl _, fun c hc => Or.inl hc⟩
  | cons word later ih =>
    obtain ⟨hsub, hnew⟩ := marked_sanitize word
    cases later with
    | nil => exact ⟨hsub, hnew⟩
    | cons next later =>
      refine ⟨hsub.append (ih.1.cons_cons '.'), fun c hc => ?_⟩
      simp only [List.map_cons, Text.glue, List.mem_append, List.mem_cons] at hc ⊢
      rcases hc with hc | rfl | hc
      · exact (hnew c hc).imp_left Or.inl
      · exact Or.inl (Or.inr (Or.inl rfl))
      · refine (ih.2 c ?_).imp_left fun h => Or.inr (Or.inr ?_)
        · simpa only [List.map_cons] using hc
        · simpa only [List.map_cons] using h

theorem isWord_renameReserved {n : String} (h : IsName n.toList) :
    IsWord (Name.renameReserved n).toList := by
  have hmarked := marked_glue (Name.segments n)
  rw [← Text.toList_dotted, ← Text.toList_dotted, Name.dotted_segments, ← Name.renameReserved]
    at hmarked
  obtain ⟨hsub, hnew⟩ := hmarked
  have hword := h.forall_mem (fun c hc => isWordPart_of_isNamePart hc) (by decide)
  refine ⟨fun hnil => ?_, fun c hc => ?_⟩
  · obtain ⟨c, tail, hn, -⟩ := h
    rw [hnil, List.sublist_nil, hn] at hsub
    cases hsub
  · rcases hnew c hc with hc | rfl
    · exact hword c hc
    · decide

/-- The name of a type is declared as one word. -/
theorem isWord_renameType {n : String} (h : IsName n.toList) :
    IsWord (Name.renameType n).toList := by
  rw [Name.renameType, Name.legacyRenames, List.lookup_cons]
  split
  · rw [Option.getD_some]
    decide
  · exact isWord_renameReserved h

/-- The name of a parameter is one word, its mark included. -/
theorem isWord_parameterName (index : ℕ) (t : TypeExpr) :
    IsWord (parameterName ("arg" ++ toString index) t).toList := by
  have hdigits : ∀ c ∈ (toString index).toList, isWordPart c = true := by
    intro c hc
    have hdigit : c ∈ Nat.toDigits 10 index := by rwa [← Nat.toList_repr]
    have hword : Text.isWord c = true := by
      have hc := Nat.isDigit_of_mem_toDigits (by decide) (by decide) hdigit
      have hlow : c.toNat < 0x80 := by
        rw [Char.isDigit, Bool.and_eq_true, decide_eq_true_eq, decide_eq_true_eq] at hc
        exact Nat.lt_of_le_of_lt (UInt32.le_iff_toNat_le.mp hc.2) (by decide)
      rw [Text.isWord, if_pos hlow, Char.isAlphanum, hc, Bool.or_true, Bool.true_or]
    exact isWordPart_of_isNamePart (by rw [Token.isNamePart, hword, Bool.true_or])
  have hname : ∀ c ∈ (Name.sanitize ("arg" ++ toString index)).toList, isWordPart c = true := by
    intro c hc
    rcases (marked_sanitize _).2 c hc with hc | rfl
    · rw [String.toList_append, List.mem_append] at hc
      rcases hc with hc | hc
      · exact List.all_eq_true.mp (by decide) c hc
      · exact hdigits c hc
    · decide
  have hne : (Name.sanitize ("arg" ++ toString index)).toList ≠ [] := by
    intro hnil
    have hsub := (marked_sanitize ("arg" ++ toString index)).1
    rw [hnil, List.sublist_nil, String.toList_append] at hsub
    cases hsub
  rw [parameterName]
  split_ifs
  · rw [String.toList_append]
    refine ⟨List.append_ne_nil_of_left_ne_nil hne _, List.forall_mem_append.mpr ⟨hname, ?_⟩⟩
    exact List.all_eq_true.mp (by decide)
  · rw [String.toList_append]
    refine ⟨List.cons_ne_nil _ _, List.forall_mem_append.mpr ⟨?_, hname⟩⟩
    exact List.all_eq_true.mp (by decide)
  · exact ⟨hne, hname⟩

end Atom

end Ambient.TypeExpr
