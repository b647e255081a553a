import Ambient.TypeExpr.Token
import Mathlib.Data.List.Basic
import Mathlib.Data.List.TakeWhile

/-!
# The tokens of a text

What a token may be written as, and where it ends, are said without the scanner: a name, a number
and a quoted key by their forms, and each of them goes as far as it can.

* `IsName`, `IsNumber`, `Token.Lexeme`, `Token.Ends`: the forms of the tokens;
* **`Token.read?_eq_some_iff`**: the token that is read is the one that goes as far as it can;
* `Lexes`: a text is made of tokens, with nothing but blanks between them;
* **`scan_eq_iff`**: the scan of a text gives the tokens it is made of.
-/

namespace Ambient.TypeExpr

open Token

/-! ## Names -/

/-- What may follow the first character of a name: parts of words, and points before words. -/
inductive NameTail : List Char → Prop
  | nil : NameTail []
  | part {c : Char} {s : List Char} (hc : isNamePart c = true) (hs : NameTail s) : NameTail (c :: s)
  | point {c : Char} {s : List Char} (hc : isNameStart c = true) (hs : NameTail s) :
      NameTail ('.' :: c :: s)

/-- A dotted name. -/
def IsName (s : List Char) : Prop := ∃ c tail, s = c :: tail ∧ isNameStart c = true ∧ NameTail tail

/-- No name goes on here. -/
def NameEnds : List Char → Prop
  | [] => True
  | c :: rest => isNamePart c = false ∧ (c = '.' → rest.head?.any isNameStart = false)

theorem isNameStart_iff {c : Char} : isNameStart c = true ↔
    (65 ≤ c.toNat ∧ c.toNat ≤ 90) ∨ (97 ≤ c.toNat ∧ c.toNat ≤ 122) ∨ c = '_' ∨ c = '$' := by
  have hupper : c.isUpper = true ↔ 65 ≤ c.toNat ∧ c.toNat ≤ 90 := by
    change decide (c.val ≥ 'A'.val ∧ c.val ≤ 'Z'.val) = true ↔ _
    rw [decide_eq_true_eq, ge_iff_le]
    exact and_congr UInt32.le_iff_toNat_le UInt32.le_iff_toNat_le
  have hlower : c.isLower = true ↔ 97 ≤ c.toNat ∧ c.toNat ≤ 122 := by
    change (decide (c.val ≥ 'a'.val) && decide (c.val ≤ 'z'.val)) = true ↔ _
    rw [Bool.and_eq_true, decide_eq_true_eq, decide_eq_true_eq, ge_iff_le]
    exact and_congr UInt32.le_iff_toNat_le UInt32.le_iff_toNat_le
  have halpha : c.isAlpha = true ↔ c.isUpper = true ∨ c.isLower = true := Bool.or_eq_true_iff
  rw [isNameStart, Bool.or_eq_true, Bool.or_eq_true, beq_iff_eq, beq_iff_eq, halpha, hupper, hlower,
    or_assoc, or_assoc]

theorem isNamePart_of_isNameStart {c : Char} (h : isNameStart c = true) : isNamePart c = true := by
  simp only [isNameStart, Bool.or_eq_true, beq_iff_eq] at h
  rcases h with (h | rfl) | rfl
  · have hlow : c.toNat < 0x80 := by
      rcases isNameStart_iff.mp (by simp [isNameStart, h] : isNameStart c = true) with
        h | h | rfl | rfl
      · omega
      · omega
      · decide
      · decide
    simp [isNamePart, Text.isWord, hlow, Char.isAlphanum, h]
  · decide
  · decide

/-- The characters of a name are parts of words and points. -/
theorem IsName.forall_mem {P : Char → Prop} {s : List Char} (h : IsName s)
    (hpart : ∀ c, isNamePart c = true → P c) (hpoint : P '.') : ∀ c ∈ s, P c := by
  obtain ⟨c, tail, rfl, hc, htail⟩ := h
  refine List.forall_mem_cons.mpr ⟨hpart c (isNamePart_of_isNameStart hc), ?_⟩
  induction htail with
  | nil => exact fun _ h => nomatch h
  | part hc _ ih => exact List.forall_mem_cons.mpr ⟨hpart _ hc, ih⟩
  | point hc _ ih =>
    have hstart := hpart _ (isNamePart_of_isNameStart hc)
    exact List.forall_mem_cons.mpr ⟨hpoint, List.forall_mem_cons.mpr ⟨hstart, ih⟩⟩

theorem nameTail_append {tail rest : List Char} (h : NameTail tail) (hrest : NameEnds rest) :
    nameTail (tail ++ rest) = (tail, rest) := by
  have hpart : ∀ {c : Char} {s : List Char}, isNamePart c = true →
      nameTail (s ++ rest) = (s, rest) → nameTail (c :: (s ++ rest)) = (c :: s, rest) := by
    intro c s hc hs
    rw [nameTail, if_pos (by simp [hc]), hs]
  induction h with
  | nil =>
    cases rest with
    | nil => rfl
    | cons c rest =>
      obtain ⟨hc, hpoint⟩ := hrest
      have hstop : (isNamePart c || (c == '.' && rest.head?.any isNameStart)) = false := by
        by_cases h : c = '.'
        · rw [hc, hpoint h, Bool.and_false, Bool.or_false]
        · rw [hc, beq_eq_false_iff_ne.mpr h, Bool.false_and, Bool.or_false]
      rw [List.nil_append, nameTail, if_neg (by simp [hstop])]
  | part hc _ ih => exact hpart hc ih
  | @point c s hc _ ih =>
    rw [List.cons_append, List.cons_append, nameTail, if_pos (by simp [hc]),
      hpart (isNamePart_of_isNameStart hc) ih]

theorem nameTail_spec : ∀ {s tail rest : List Char}, nameTail s = (tail, rest) →
    s = tail ++ rest ∧ NameTail tail ∧ NameEnds rest
  | [], tail, rest, h => by
    obtain ⟨rfl, rfl⟩ := Prod.mk.inj h
    exact ⟨rfl, .nil, trivial⟩
  | c :: s, tail, rest, h => by
    rw [nameTail] at h
    split_ifs at h with hc
    · rcases hs : nameTail s with ⟨later, after⟩
      rw [hs] at h
      obtain ⟨rfl, rfl⟩ := Prod.mk.inj h
      obtain ⟨rfl, htail, hends⟩ := nameTail_spec hs
      refine ⟨rfl, ?_, hends⟩
      by_cases hpart : isNamePart c = true
      · exact .part hpart htail
      · -- A point is followed by the first character of a word, which is part of the tail.
        simp only [hpart, Bool.false_or, Bool.and_eq_true, beq_iff_eq] at hc
        obtain ⟨rfl, hd⟩ := hc
        cases htail with
        | nil =>
          cases after with
          | nil => cases hd
          | cons d after =>
            have hpart := isNamePart_of_isNameStart (show isNameStart d = true from hd)
            exact absurd (hends.1.symm.trans hpart) Bool.noConfusion
        | part _ hlater => exact .point hd hlater
        | point _ _ => exact absurd (show isNameStart '.' = true from hd) (by decide)
    · obtain ⟨rfl, rfl⟩ := Prod.mk.inj h
      simp only [Bool.or_eq_true, Bool.and_eq_true, beq_iff_eq, not_or, not_and,
        Bool.not_eq_true] at hc
      exact ⟨rfl, .nil, hc⟩

/-- No name is also a number or a key in quotes. -/
theorem ofChar?_of_isNameStart {c : Char} (h : isNameStart c = true) : ofChar? c = none := by
  unfold ofChar?
  split
  all_goals first | rfl | exact absurd h (by decide)

/-! ## Numbers -/

/-- One or more digits. -/
def IsDigits (s : List Char) : Prop := s ≠ [] ∧ ∀ c ∈ s, Text.isDigit c = true

/-- Digits, and possibly a point and further digits. -/
def IsUnsigned (s : List Char) : Prop :=
  ∃ whole, IsDigits whole ∧
    (s = whole ∨ ∃ fraction, IsDigits fraction ∧ s = whole ++ '.' :: fraction)

/-- A number, with or without a sign. -/
def IsNumber (s : List Char) : Prop :=
  IsUnsigned s ∨ ∃ digits, s = '-' :: digits ∧ IsUnsigned digits

/-- The number `s` does not go on in `rest`: neither with a digit nor with a first point that has a
digit after it. -/
def NumberEnds (s rest : List Char) : Prop :=
  rest.head?.any Text.isDigit = false ∧
    ('.' ∉ s → ∀ after, rest = '.' :: after → after.head?.any Text.isDigit = false)

/-- The characters of a number are digits, a point and a sign. -/
theorem IsNumber.forall_mem {P : Char → Prop} {s : List Char} (h : IsNumber s)
    (hdigit : ∀ c, Text.isDigit c = true → P c) (hpoint : P '.') (hsign : P '-') :
    ∀ c ∈ s, P c := by
  have hdigits : ∀ {s : List Char}, IsDigits s → ∀ c ∈ s, P c :=
    fun hs c hc => hdigit c (hs.2 c hc)
  have hunsigned : ∀ {s : List Char}, IsUnsigned s → ∀ c ∈ s, P c := by
    rintro s ⟨whole, hwhole, rfl | ⟨fraction, hfraction, rfl⟩⟩
    · exact hdigits hwhole
    · refine List.forall_mem_append.mpr ⟨hdigits hwhole, List.forall_mem_cons.mpr ⟨hpoint, ?_⟩⟩
      exact hdigits hfraction
  rcases h with h | ⟨digits, rfl, h⟩
  · exact hunsigned h
  · exact List.forall_mem_cons.mpr ⟨hsign, hunsigned h⟩

theorem takeWhile_dropWhile_of_ends {p : Char → Bool} {s rest : List Char}
    (hs : ∀ c ∈ s, p c = true) (hrest : rest.head?.any p = false) :
    (s ++ rest).takeWhile p = s ∧ (s ++ rest).dropWhile p = rest := by
  have hstop : rest.takeWhile p = [] ∧ rest.dropWhile p = rest := by
    cases rest with
    | nil => exact ⟨rfl, rfl⟩
    | cons c rest =>
      have hc : p c = false := hrest
      exact ⟨List.takeWhile_cons_of_neg (by simp [hc]), List.dropWhile_cons_of_neg (by simp [hc])⟩
  rw [List.takeWhile_append_of_pos hs, List.dropWhile_append_of_pos hs, hstop.1, hstop.2,
    List.append_nil]
  exact ⟨rfl, rfl⟩

theorem head_dropWhile {p : Char → Bool} (s : List Char) : (s.dropWhile p).head?.any p = false := by
  cases h : s.dropWhile p with
  | nil => rfl
  | cons c rest =>
    have := List.head_dropWhile_not p (l := s) (by simp [h])
    simpa [h] using this

theorem isDigits_takeWhile {s : List Char} (h : s.head?.any Text.isDigit = true) :
    IsDigits (s.takeWhile Text.isDigit) := by
  refine ⟨?_, fun c hc => List.mem_takeWhile_imp hc⟩
  cases s with
  | nil => cases h
  | cons c s =>
    rw [List.takeWhile_cons_of_pos (show Text.isDigit c = true from h)]
    exact List.cons_ne_nil _ _

theorem point_notMem_of_isDigits {s : List Char} (h : IsDigits s) : '.' ∉ s := by
  intro hmem
  exact absurd (h.2 _ hmem) (by decide)

theorem IsUnsigned.exists_digit {s : List Char} (h : IsUnsigned s) :
    ∃ c later, s = c :: later ∧ Text.isDigit c = true := by
  obtain ⟨whole, ⟨hne, hall⟩, hs⟩ := h
  obtain ⟨c, later, rfl⟩ := List.exists_cons_of_ne_nil hne
  have hc := hall c List.mem_cons_self
  rcases hs with rfl | ⟨fraction, -, rfl⟩
  · exact ⟨c, later, rfl, hc⟩
  · exact ⟨c, _, rfl, hc⟩

theorem numberTail_append {s rest : List Char} (h : IsUnsigned s) (hrest : NumberEnds s rest) :
    numberTail (s ++ rest) = (s, rest) := by
  obtain ⟨whole, hwhole, rfl | ⟨fraction, hfraction, rfl⟩⟩ := h
  · obtain ⟨htake, hdrop⟩ := takeWhile_dropWhile_of_ends hwhole.2 hrest.1
    have hpoint := hrest.2 (point_notMem_of_isDigits hwhole)
    rw [numberTail, htake, hdrop]
    split
    · rename_i after
      rw [if_neg (by simp [hpoint after rfl])]
    · rfl
  · have hpoint : ('.' :: (fraction ++ rest)).head?.any Text.isDigit = false := by
      show Text.isDigit '.' = false
      decide
    obtain ⟨htake, hdrop⟩ := takeWhile_dropWhile_of_ends hwhole.2 hpoint
    have hfirst : (fraction ++ rest).head?.any Text.isDigit = true := by
      obtain ⟨c, later, rfl⟩ := List.exists_cons_of_ne_nil hfraction.1
      exact hfraction.2 c List.mem_cons_self
    obtain ⟨htake', hdrop'⟩ := takeWhile_dropWhile_of_ends hfraction.2 hrest.1
    rw [numberTail, List.append_assoc, List.cons_append, htake, hdrop]
    simp only [hfirst, if_true, htake', hdrop']

theorem numberTail_spec {s digits rest : List Char} (hs : s.head?.any Text.isDigit = true)
    (h : numberTail s = (digits, rest)) :
    s = digits ++ rest ∧ IsUnsigned digits ∧ NumberEnds digits rest := by
  have hwhole := isDigits_takeWhile hs
  have hsplit := List.takeWhile_append_dropWhile (p := Text.isDigit) (l := s)
  have hhead := head_dropWhile (p := Text.isDigit) s
  rw [numberTail] at h
  split at h
  · rename_i after hafter
    rw [hafter] at hsplit
    split_ifs at h with hfirst
    · obtain ⟨rfl, rfl⟩ := Prod.mk.inj h
      refine ⟨?_, ⟨_, hwhole, Or.inr ⟨_, isDigits_takeWhile hfirst, rfl⟩⟩, head_dropWhile _, ?_⟩
      · rw [List.append_assoc, List.cons_append, List.takeWhile_append_dropWhile, hsplit]
      · exact fun hpoint => absurd (List.mem_append_right _ List.mem_cons_self) hpoint
    · obtain ⟨rfl, rfl⟩ := Prod.mk.inj h
      have hpoint : Text.isDigit '.' = false := by decide
      refine ⟨hsplit.symm, ⟨_, hwhole, Or.inl rfl⟩, hpoint, fun _ later hlater => ?_⟩
      obtain ⟨-, rfl⟩ := List.cons.inj hlater
      simpa using hfirst
  · rename_i hafter
    obtain ⟨rfl, rfl⟩ := Prod.mk.inj h
    exact ⟨hsplit.symm, ⟨_, hwhole, Or.inl rfl⟩, hhead, fun _ later hlater =>
      absurd hlater (hafter later)⟩

theorem ofChar?_of_isDigit {c : Char} (h : Text.isDigit c = true) : ofChar? c = none := by
  unfold ofChar?
  split
  all_goals first | rfl | exact absurd h (by decide)

theorem digit_cases {c : Char} (h : Text.isDigit c = true) :
    (48 ≤ c.toNat ∧ c.toNat ≤ 57) ∨ 0x80 ≤ c.toNat := by
  rw [Text.isDigit] at h
  split_ifs at h with hlow
  · left
    simp only [Char.isDigit, Bool.and_eq_true, decide_eq_true_eq, UInt32.le_iff_toNat_le,
      ge_iff_le] at h
    exact h
  · exact Or.inr (not_lt.mp hlow)

theorem isNameStart_of_isDigit {c : Char} (h : Text.isDigit c = true) : isNameStart c = false := by
  by_contra hstart
  rw [Bool.not_eq_false, isNameStart_iff] at hstart
  rcases hstart with hs | hs | rfl | rfl
  · rcases digit_cases h with hd | hd <;> omega
  · rcases digit_cases h with hd | hd <;> omega
  · exact absurd h (by decide)
  · exact absurd h (by decide)

/-! ## Tokens -/

namespace Token

/-- What a token may be written as. -/
def Lexeme : Token → Prop
  | .name text => IsName text.toList ∧ text ≠ "function"
  | .quoted mark body => (mark = '\x27' ∨ mark = '\x22') ∧ mark ∉ body.toList
  | .number text => IsNumber text.toList
  | _ => True

/-- A token does not go on in the text after it. -/
def Ends : Token → List Char → Prop
  | .name _, rest => NameEnds rest
  | .function, rest => NameEnds rest
  | .number text, rest => NumberEnds text.toList rest
  | _, _ => True

theorem ofChar?_spec {c : Char} {t : Token} (h : ofChar? c = some t) :
    t.text.toList = [c] ∧ t.Lexeme ∧ ∀ rest, t.Ends rest := by
  unfold ofChar? at h
  split at h
  all_goals first | cases h; exact ⟨rfl, trivial, fun _ => trivial⟩ | cases h

theorem ofName_spec {s rest : List Char} (hs : IsName s) (hrest : NameEnds rest) :
    (ofName (String.ofList s)).text.toList = s ∧ (ofName (String.ofList s)).Lexeme ∧
      (ofName (String.ofList s)).Ends rest := by
  rw [ofName]
  split_ifs with h
  · refine ⟨?_, trivial, hrest⟩
    rw [text, ← h, String.toList_ofList]
  · refine ⟨String.toList_ofList, ⟨?_, h⟩, hrest⟩
    rwa [String.toList_ofList]

/-- What is read is a token that goes as far as it can. -/
theorem read?_spec {s rest : List Char} {t : Token} (h : read? s = some (t, rest)) :
    s = t.text.toList ++ rest ∧ t.Lexeme ∧ t.Ends rest := by
  unfold read? at h
  split at h
  · cases h
    exact ⟨rfl, trivial, trivial⟩
  · cases h
    exact ⟨rfl, trivial, trivial⟩
  · cases h
  rename_i c s _ _
  split at h
  · rename_i token htoken
    obtain ⟨rfl, rfl⟩ := Prod.mk.inj (Option.some.inj h)
    obtain ⟨htext, hlexeme, hends⟩ := ofChar?_spec htoken
    rw [htext]
    exact ⟨rfl, hlexeme, hends _⟩
  split_ifs at h with hstart hquote hdigit hsign
  · rcases hs : nameTail s with ⟨tail, after⟩
    rw [hs] at h
    obtain ⟨rfl, rfl⟩ := Prod.mk.inj (Option.some.inj h)
    obtain ⟨rfl, htail, hends⟩ := nameTail_spec hs
    obtain ⟨htext, hlexeme, hends⟩ := ofName_spec ⟨c, tail, rfl, hstart, htail⟩ hends
    rw [htext]
    exact ⟨rfl, hlexeme, hends⟩
  · split at h
    · rename_i d after hafter
      obtain ⟨rfl, rfl⟩ := Prod.mk.inj (Option.some.inj h)
      have hd : d = c := by
        have := head_dropWhile (p := fun x => decide (x ≠ c)) s
        rw [hafter] at this
        simpa using this
      subst hd
      have hsplit := List.takeWhile_append_dropWhile (p := fun x => decide (x ≠ d)) (l := s)
      rw [hafter] at hsplit
      refine ⟨?_, ⟨by simpa using hquote, fun hmem => ?_⟩, trivial⟩
      · simpa [text] using hsplit.symm
      · rw [String.toList_ofList] at hmem
        simpa using List.mem_takeWhile_imp hmem
    · cases h
  · rcases hs : numberTail (c :: s) with ⟨digits, after⟩
    rw [hs] at h
    obtain ⟨rfl, rfl⟩ := Prod.mk.inj (Option.some.inj h)
    obtain ⟨hsplit, hdigits, hends⟩ := numberTail_spec (s := c :: s) hdigit hs
    simp only [text, Lexeme, Ends, String.toList_ofList]
    exact ⟨hsplit, Or.inl hdigits, hends⟩
  · simp only [Bool.and_eq_true, beq_iff_eq] at hsign
    obtain ⟨rfl, hfirst⟩ := hsign
    rcases hs : numberTail s with ⟨digits, after⟩
    rw [hs] at h
    obtain ⟨rfl, rfl⟩ := Prod.mk.inj (Option.some.inj h)
    obtain ⟨rfl, hdigits, hends⟩ := numberTail_spec hfirst hs
    simp only [text, Lexeme, Ends, String.toList_ofList]
    refine ⟨rfl, Or.inr ⟨digits, rfl, hdigits⟩, hends.1, fun hpoint => hends.2 fun hmem => ?_⟩
    exact hpoint (List.mem_cons_of_mem _ hmem)

theorem read?_cons_of_ne {c : Char} (h : c ≠ '.') (hc : ofChar? c = none) (s : List Char) :
    read? (c :: s) =
      if isNameStart c then some (ofName (String.ofList (c :: (nameTail s).1)), (nameTail s).2)
      else if c == '\x27' || c == '\x22' then
        match s.dropWhile (· ≠ c) with
        | _ :: after => some (.quoted c (String.ofList (s.takeWhile (· ≠ c))), after)
        | [] => none
      else if Text.isDigit c then
        some (.number (String.ofList (numberTail (c :: s)).1), (numberTail (c :: s)).2)
      else if c == '-' && s.head?.any Text.isDigit then
        some (.number (String.ofList ('-' :: (numberTail s).1)), (numberTail s).2)
      else none := by
  rw [read?, hc]
  all_goals first | rfl | exact fun _ hpoint => absurd hpoint h

theorem ofName_of_ne {text : String} (h : text ≠ "function") : ofName text = .name text := if_neg h

theorem read?_isName {s rest : List Char} (hs : IsName s) (hrest : NameEnds rest) :
    read? (s ++ rest) = some (ofName (String.ofList s), rest) := by
  obtain ⟨c, tail, rfl, hc, htail⟩ := hs
  have hne : c ≠ '.' := by
    rintro rfl
    exact absurd hc (by decide)
  rw [List.cons_append, read?_cons_of_ne hne (ofChar?_of_isNameStart hc), if_pos hc,
    nameTail_append htail hrest]

theorem read?_number {s rest : List Char} (hs : IsNumber s) (hrest : NumberEnds s rest) :
    read? (s ++ rest) = some (.number (String.ofList s), rest) := by
  rcases hs with hs | ⟨digits, rfl, hdigits⟩
  · have htail := numberTail_append hs hrest
    obtain ⟨c, later, rfl, hc⟩ := hs.exists_digit
    have hquote : (c == '\x27' || c == '\x22') = false := by
      simp only [Bool.or_eq_false_iff, beq_eq_false_iff_ne]
      constructor <;> (rintro rfl; exact absurd hc (by decide))
    have hne : c ≠ '.' := by
      rintro rfl
      exact absurd hc (by decide)
    rw [List.cons_append] at htail ⊢
    rw [read?_cons_of_ne hne (ofChar?_of_isDigit hc), if_neg (by simp [isNameStart_of_isDigit hc]),
      if_neg (by simp [hquote]), if_pos hc, htail]
  · have htail : numberTail (digits ++ rest) = (digits, rest) := by
      refine numberTail_append hdigits ⟨hrest.1, fun hpoint => hrest.2 fun hmem => ?_⟩
      rcases List.mem_cons.mp hmem with h | h
      · exact absurd h (by decide)
      · exact hpoint h
    have hfirst : (digits ++ rest).head?.any Text.isDigit = true := by
      obtain ⟨c, later, rfl, hc⟩ := hdigits.exists_digit
      exact hc
    rw [List.cons_append, read?_cons_of_ne (by decide) rfl, if_neg (by decide), if_neg (by decide),
      if_neg (by decide), hfirst, if_pos (by decide), htail]

theorem read?_quoted {mark : Char} {body : String} (hmark : mark = '\x27' ∨ mark = '\x22')
    (hbody : mark ∉ body.toList) (rest : List Char) :
    read? ((Token.quoted mark body).text.toList ++ rest) = some (.quoted mark body, rest) := by
  have hall : ∀ c ∈ body.toList, decide (c ≠ mark) = true := by
    intro c hc
    rw [decide_eq_true_eq]
    rintro rfl
    exact hbody hc
  have hclose : (mark :: rest).head?.any (fun c => decide (c ≠ mark)) = false := by simp
  obtain ⟨htake, hdrop⟩ := takeWhile_dropWhile_of_ends hall hclose
  have htext : (Token.quoted mark body).text.toList ++ rest =
      mark :: (body.toList ++ mark :: rest) := by
    simp [text]
  have hstart : mark ≠ '.' ∧ ofChar? mark = none ∧ isNameStart mark = false ∧
      (mark == '\x27' || mark == '\x22') = true := by
    rcases hmark with rfl | rfl <;> decide
  obtain ⟨hne, hchar, hname, hquote⟩ := hstart
  rw [htext, read?_cons_of_ne hne hchar, if_neg (by simp [hname]), if_pos hquote]
  simp only [htake, hdrop, String.ofList_toList]

/-- **The token that is read** is one that goes as far as it can. -/
theorem read?_eq_some_iff {s rest : List Char} {t : Token} :
    read? s = some (t, rest) ↔ s = t.text.toList ++ rest ∧ t.Lexeme ∧ t.Ends rest := by
  refine ⟨read?_spec, ?_⟩
  rintro ⟨rfl, hlexeme, hends⟩
  cases t with
  | name word =>
    rw [text, read?_isName hlexeme.1 hends, String.ofList_toList, ofName_of_ne hlexeme.2]
  | function =>
    have hname : IsName "function".toList :=
      ⟨'f', ['u', 'n', 'c', 't', 'i', 'o', 'n'], rfl, by decide, by repeat constructor⟩
    exact read?_isName hname hends
  | number digits => rw [text, read?_number hlexeme hends, String.ofList_toList]
  | quoted mark body => exact read?_quoted hlexeme.1 hlexeme.2 rest
  | _ => rfl

/-- A word that is read as a name is one. -/
theorem lexeme_of_read? {word : String} (h : read? word.toList = some (.name word, [])) :
    (Token.name word).Lexeme := (read?_spec h).2.1

theorem read?_isSpace {c : Char} (h : isSpace c = true) (s : List Char) :
    read? (c :: s) = none := by
  simp only [isSpace, Bool.or_eq_true, beq_iff_eq] at h
  rcases h with (((rfl | rfl) | rfl) | rfl) | rfl <;> rfl

theorem text_ne_nil {t : Token} (h : t.Lexeme) : t.text.toList ≠ [] := by
  cases t with
  | name word =>
    obtain ⟨⟨c, tail, hword, -⟩, -⟩ := h
    rw [text, hword]
    exact List.cons_ne_nil _ _
  | number digits =>
    rw [text]
    rcases h with h | ⟨digits, hs, -⟩
    · obtain ⟨c, later, hs, -⟩ := h.exists_digit
      rw [hs]
      exact List.cons_ne_nil _ _
    · rw [hs]
      exact List.cons_ne_nil _ _
  | quoted mark body => simp [text]
  | _ => exact List.cons_ne_nil _ _

end Token

/-! ## Texts -/

/-- A text, its first character at a position, is made of tokens, each as long as it can be, with
nothing but blanks between them. -/
inductive Lexes : ℕ → List Char → List Located → Prop
  | nil (n : ℕ) : Lexes n [] []
  | space {n : ℕ} {c : Char} {s : List Char} {ls : List Located} (hc : isSpace c = true)
      (hs : Lexes (n + 1) s ls) : Lexes n (c :: s) ls
  | token {n : ℕ} {t : Token} {s : List Char} {ls : List Located} (ht : t.Lexeme) (hends : t.Ends s)
      (hs : Lexes (n + t.text.length) s ls) : Lexes n (t.text.toList ++ s) (⟨t, n⟩ :: ls)

theorem lexes_of_scan : ∀ {fuel n : ℕ} {s : List Char} {ls : List Located},
    Scan.from fuel n s = ⟨ls, .endOfText⟩ → Lexes n s ls
  | fuel, n, [], ls, h => by
    have hnil : Scan.from fuel n [] = ⟨[], .endOfText⟩ := by cases fuel <;> rfl
    obtain ⟨rfl, -⟩ := Scan.mk.inj (hnil.symm.trans h)
    exact .nil n
  | 0, _, _ :: _, _, h => by cases h
  | fuel + 1, n, c :: s, ls, h => by
    rw [Scan.from] at h
    split_ifs at h with hc
    · exact .space hc (lexes_of_scan h)
    · split at h
      · cases h
      · rename_i t after hread
        obtain ⟨hs, ht, hends⟩ := read?_spec hread
        obtain ⟨rfl, hending⟩ := Scan.mk.inj h
        rw [hs]
        have hscan : Scan.from fuel (n + t.text.length) after =
            ⟨(Scan.from fuel (n + t.text.length) after).tokens, .endOfText⟩ := by
          rw [← hending]
        exact .token ht hends (lexes_of_scan hscan)

theorem scan_of_lexes {n : ℕ} {s : List Char} {ls : List Located} (h : Lexes n s ls) :
    ∀ fuel, s.length ≤ fuel → Scan.from fuel n s = ⟨ls, .endOfText⟩ := by
  induction h with
  | nil n => intro fuel _; cases fuel <;> rfl
  | space hc _ ih =>
    intro fuel hfuel
    cases fuel with
    | zero => cases hfuel
    | succ fuel =>
      rw [Scan.from, if_pos hc]
      exact ih fuel (Nat.le_of_succ_le_succ hfuel)
  | @token n t s ls ht hends _ ih =>
    intro fuel hfuel
    have hread : read? (t.text.toList ++ s) = some (t, s) :=
      read?_eq_some_iff.mpr ⟨rfl, ht, hends⟩
    obtain ⟨c, tail, htext⟩ := List.exists_cons_of_ne_nil (text_ne_nil ht)
    rw [htext, List.cons_append] at hread hfuel ⊢
    have hspace : isSpace c ≠ true := by
      intro hc
      rw [read?_isSpace hc] at hread
      cases hread
    cases fuel with
    | zero => cases hfuel
    | succ fuel =>
      simp only [List.length_cons, List.length_append] at hfuel
      simp only [Scan.from, if_neg hspace, hread, ih fuel (by omega)]

/-- **The scan of a text** gives the tokens it is made of, and reaches the end if it is made of
tokens. -/
theorem scan_eq_iff {s : List Char} {ls : List Located} :
    Scan.ofText s = ⟨ls, .endOfText⟩ ↔ Lexes 0 s ls :=
  ⟨lexes_of_scan, fun h => scan_of_lexes h _ (Nat.le_refl _)⟩

end Ambient.TypeExpr
