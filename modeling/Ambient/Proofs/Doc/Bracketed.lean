import Ambient.Doc.Signature
import Ambient.Proofs.Doc.TypedTag
import Ambient.Proofs.TypeExpr.Shape

/-!
# Parameters that may be left out

That a parameter may be left out is said by a mark behind its type or by brackets around its name.
Both come to the same type, which shows in the name of the parameter. Brackets leave no trace where
there is no type that could be marked.

* `EndsInSpace`, **`parse_optional`**: the text of a type with a mark behind it;
* `inBrackets`, `bracketName`, `paramName?_inBrackets`: names in brackets;
* `read_param`: the tag of a parameter from its type and its name;
* `optionalSpellings`, `read_optionalSpelling`, `parse_optionalSpelling`: three ways to write a
  parameter that may be left out, as a tag and as a block;
* `paramsFrom_toOptional`, `paramsFrom_absent`: what a parameter adds to a signature;
* **`optional_spellings_read`**: the three ways agree, and what brackets do in general.
-/

namespace Ambient.Doc

open TypeExpr (Token Located Rule Derives Lexes)

/-! ## Types marked optional -/

/-- The blanks that a text ends with are such as may stand between tokens. -/
def EndsInSpace (text : String) : Prop :=
  ∀ c ∈ text.toList.rtakeWhile Text.isBlank, Token.isSpace c = true

instance (text : String) : Decidable (EndsInSpace text) := inferInstanceAs (Decidable (∀ _ ∈ _, _))

/-- Blanks and the mark of an optional type. -/
theorem lexes_equals {blanks : List Char} (h : ∀ c ∈ blanks, Token.isSpace c = true) (n : ℕ) :
    Lexes n (blanks ++ ['=']) [⟨.equals, n + blanks.length⟩] := by
  induction blanks generalizing n with
  | nil => exact .token (t := .equals) trivial (Token.ends_nil _) (.nil _)
  | cons c blanks ih =>
    rw [List.forall_mem_cons] at h
    have hlater := ih h.2 (n + 1)
    rw [Nat.add_assoc, Nat.add_comm 1] at hlater
    exact .space h.1 hlater

theorem ends_equals {blanks : List Char} (h : ∀ c ∈ blanks, Token.isSpace c = true) (t : Token) :
    t.Ends (blanks ++ ['=']) := by
  cases blanks with
  | nil => exact Token.ends_of_apart (b := .equals) trivial (fun _ => rfl) []
  | cons c blanks => exact t.ends_space (h c List.mem_cons_self) _

theorem mem_rtakeWhile_append {p : Char → Bool} {s t : List Char} (h : ∀ c ∈ t, p c = true) :
    ∀ c ∈ t, c ∈ (s ++ t).rtakeWhile p := by
  intro c hc
  have ht : ∀ c ∈ t.reverse, p c = true := fun c hc => h c (List.mem_reverse.mp hc)
  rw [List.rtakeWhile, List.reverse_append, List.takeWhile_append_of_pos ht, List.reverse_append,
    List.reverse_reverse]
  exact List.mem_append_right _ hc

/-- A mark behind a type that is neither optional nor variadic is the mark of the whole type. -/
theorem derives_optional {ls : List Located} {p : TypeExpr.Phrase} {n : TypeExpr}
    (h : Derives .root ls p) (hn : p.meaning = .ok n) (hvariadic : n.isVariadic = false)
    (hoptional : n.isOptional = false) (i : ℕ) :
    Derives .root (ls ++ [⟨.equals, i⟩]) (.optional p) := by
  cases h with
  | root h =>
    cases h with
    | plain h => exact .root (.optional i h)
    | optional =>
      rw [TypeExpr.Phrase.meaning] at hn
      obtain ⟨inner, -, hinner⟩ := bind_eq_ok.mp hn
      cases hinner
      cases hoptional
  | rootEllipsis =>
    rw [TypeExpr.Phrase.meaning] at hn
    cases hn
    cases hvariadic
  | rootVariadic =>
    rw [TypeExpr.Phrase.meaning] at hn
    obtain ⟨inner, -, hinner⟩ := bind_eq_ok.mp hn
    cases hinner
    cases hvariadic

/-- **The text of a type with a mark behind it** stands for the type made optional. -/
theorem parse_optional {text : String} {n : TypeExpr} (h : TypeExpr.parse text = .ok n)
    (hvariadic : n.isVariadic = false) (hoptional : n.isOptional = false)
    (hends : EndsInSpace text) : TypeExpr.parse (text ++ "=") = .ok (.optional n) := by
  obtain ⟨tokens, p, hlexes, hderives, hmeaning⟩ := TypeExpr.parse_eq_ok_iff.mp h
  obtain ⟨lead, trail, hlead, htrail, htext⟩ := Text.exists_blanks text.toList
  have hspaces : ∀ c ∈ trail, Token.isSpace c = true := by
    refine fun c hc => hends c ?_
    rw [htext, ← List.append_assoc]
    exact mem_rtakeWhile_append htrail c hc
  have hne : Text.trim text.toList ≠ [] := by
    intro hnil
    rw [hnil] at hlexes
    exact hderives.ne_nil hlexes.eq_nil
  obtain ⟨a, later, hhead, ha⟩ := Text.head?_trim hne
  have htrim : Text.trim (text ++ "=").toList = Text.trim text.toList ++ (trail ++ ['=']) := by
    have hsplit : (text ++ "=").toList =
        lead ++ (Text.trim text.toList ++ (trail ++ ['=']) ++ []) := by
      rw [String.toList_append]
      conv_lhs => rw [htext]
      simp
    rw [hsplit, Text.trim_between hlead (by simp)]
    refine Text.trim_eq_self (by rw [hhead, List.cons_append]) ha (b := '=') ?_ (by decide)
      (u := Text.trim text.toList ++ trail)
    rw [List.append_assoc]
  have hall := hlexes.append (ends_equals hspaces) (lexes_equals hspaces _)
  refine TypeExpr.parse_eq_ok_iff.mpr
    ⟨_, .optional p, htrim ▸ hall, derives_optional hderives hmeaning hvariadic hoptional _, ?_⟩
  rw [TypeExpr.Phrase.meaning, hmeaning]
  rfl

/-- A type whose keys have no braces closes the braces that it opens. -/
theorem balanced_of_parse {text : String} {n : TypeExpr} (h : TypeExpr.parse text = .ok n)
    (hkeys : BracelessKeys text) : Balanced text.toList := by
  obtain ⟨tokens, p, hlexes, hderives, -⟩ := TypeExpr.parse_eq_ok_iff.mp h
  obtain ⟨lead, trail, hlead, htrail, htext⟩ := Text.exists_blanks text.toList
  rw [BracelessKeys, TypeExpr.scan_eq_iff.mpr hlexes] at hkeys
  have hblanks := fun {s} hs => balanced_of_braceless (braceless_of_blank (s := s) hs)
  rw [htext]
  exact (hblanks hlead).append
    ((balanced_of_lexes hlexes hderives hkeys).append (hblanks htrail))

theorem ne_absent_of_parse {text : String} {n : TypeExpr} (h : TypeExpr.parse text = .ok n) :
    n ≠ .absent := by
  rintro rfl
  cases TypeExpr.fits_of_parse h with
  | outer h =>
    cases h with
    | plain h => cases h

/-! ## Names in brackets -/

/-- Text in brackets, and what follows it. -/
def inBrackets (inside after : List Char) : List Char := '[' :: (inside ++ ']' :: after)

/-- The name that stands in brackets, in front of a default if there is one. -/
def bracketName (inside : List Char) : String :=
  String.ofList (Text.trim (inside.takeWhile (· ≠ '=')))

variable {blanks gap inner inside after behind body : List Char} {n : TypeExpr} {name : String}

theorem trimLeft_append (hgap : ∀ c ∈ gap, Text.isBlank c = true) {c : Char}
    (hc : Text.isBlank c = false) (s : List Char) : Text.trimLeft (gap ++ c :: s) = c :: s := by
  rw [Text.trimLeft, List.dropWhile_append_of_pos hgap]
  exact Text.trimLeft_of_not_blank hc

theorem paramName?_inBrackets (hgap : ∀ c ∈ gap, Text.isBlank c = true) (hinside : ']' ∉ inside) :
    paramName? (gap ++ inBrackets inside after) = some (bracketName inside, true, after) := by
  have hinside' : ∀ c ∈ inside, decide (c ≠ ']') = true := fun c hc =>
    decide_eq_true (ne_of_mem_of_not_mem hc hinside)
  have hends : (']' :: after).head?.any (fun c => decide (c ≠ ']')) = false := rfl
  obtain ⟨htake, hdrop⟩ := TypeExpr.takeWhile_dropWhile_of_ends hinside' hends
  rw [paramName?, inBrackets, trimLeft_append hgap (by decide)]
  dsimp only
  rw [htake, hdrop]
  rfl

/-! ## Tags -/

theorem tagType_balanced {rest : List Char} (h : readBraced body = .balanced inner rest) :
    tagType "param" body = ((readType "param" inner).1, rest, (readType "param" inner).2) := by
  rw [tagType, if_pos (by decide), h]

theorem tagType_absent (h : readBraced body = .absent) :
    tagType "param" body = (.absent, body, []) := by
  rw [tagType, if_pos (by decide), h]
  rfl

/-- A parameter with a name. -/
theorem read_param {type : TypeExpr} {rest : List Char} {warnings : List Warning} {given : String}
    {bracketed : Bool} (htype : tagType "param" body = (type, rest, warnings))
    (hname : paramName? rest = some (given, bracketed, after)) :
    Tag.read "param" body = (⟨"param", if bracketed then bracketedType type else type, some given,
      description? after⟩, warnings) := by
  rw [Tag.read, htype]
  dsimp only
  rw [if_pos rfl, hname]

theorem readBraced_inBrackets (hgap : ∀ c ∈ gap, Text.isBlank c = true) :
    readBraced (gap ++ inBrackets inside after) = .absent := by
  rw [readBraced, inBrackets, trimLeft_append hgap (by decide)]
  rfl

theorem bracketedType_eq (h : n ≠ .absent) : bracketedType n = n.toOptional := by
  cases n with
  | absent => exact absurd rfl h
  | _ => rfl

theorem toOptional_of_not_optional (h : n.isOptional = false) : n.toOptional = .optional n := by
  cases n with
  | optional => cases h
  | _ => rfl

/-- A word that stands for the name of a parameter, and can be put in brackets. -/
def IsBracketable (name : String) : Prop :=
  IsPlain name ∧ '=' ∉ name.toList ∧ ']' ∉ name.toList

theorem trim_of_no_blank {s : List Char} (h : ∀ c ∈ s, Text.isBlank c = false) :
    Text.trim s = s := by
  obtain ⟨lead, trail, hlead, htrail, hs⟩ := Text.exists_blanks s
  have hnil : ∀ part : List Char, (∀ c ∈ part, c ∈ s) → (∀ c ∈ part, Text.isBlank c = true) →
      part = [] := fun part hpart hblank =>
    List.eq_nil_iff_forall_not_mem.mpr fun c hc =>
      absurd ((hblank c hc).symm.trans (h c (hpart c hc))) Bool.noConfusion
  obtain rfl := hnil lead (fun c hc => by rw [hs]; simp [hc]) hlead
  obtain rfl := hnil trail (fun c hc => by rw [hs]; simp [hc]) htrail
  simpa using hs.symm

theorem bracketName_word (h : IsBracketable name) (behind : List Char)
    (hbehind : behind.head?.all (· = '=') = true) :
    bracketName (name.toList ++ behind) = name := by
  obtain ⟨⟨-, hword, -⟩, hequals, -⟩ := h
  have hname : ∀ c ∈ name.toList, decide (c ≠ '=') = true := fun c hc =>
    decide_eq_true (ne_of_mem_of_not_mem hc hequals)
  have hends : behind.head?.any (fun c => decide (c ≠ '=')) = false := by
    cases behind with
    | nil => rfl
    | cons c behind =>
      obtain rfl : c = '=' := by simpa using hbehind
      rfl
  rw [bracketName, (TypeExpr.takeWhile_dropWhile_of_ends hname hends).1, trim_of_no_blank hword,
    String.ofList_toList]

/-- Three ways to write a parameter that may be left out: in brackets, in brackets with a default,
and with a mark behind its type. -/
def optionalSpellings (type name default : String) : List String :=
  ["\x7b" ++ type ++ "\x7d [" ++ name ++ "]",
    "\x7b" ++ type ++ "\x7d [" ++ name ++ "=" ++ default ++ "]",
    "\x7b" ++ type ++ "=\x7d " ++ name]

theorem readType_of_parse {type : String} (h : TypeExpr.parse type = .ok n) (title : String) :
    readType title type.toList = (n, []) := by
  rw [readType, String.ofList_toList, h]

/-- **The three ways** to write an optional parameter give the same tag. -/
theorem read_optionalSpelling {type default : String} (hn : TypeExpr.parse type = .ok n)
    (hvariadic : n.isVariadic = false) (hoptional : n.isOptional = false)
    (hkeys : BracelessKeys type) (hends : EndsInSpace type) (hname : IsBracketable name)
    (hdefault : ']' ∉ default.toList) :
    ∀ spelling ∈ optionalSpellings type name default, ∀ behind : List Char,
      (∀ c ∈ behind.head?, Text.isBlank c = true) →
      Tag.read "param" (' ' :: (spelling.toList ++ behind)) =
        (⟨"param", .optional n, some name, description? behind⟩, []) := by
  have hblank : ∀ c ∈ [' '], Text.isBlank c = true := List.all_eq_true.mp (by decide)
  have hbalanced := balanced_of_parse hn hkeys
  have hmarked : bracketedType n = .optional n := by
    rw [bracketedType_eq (ne_absent_of_parse hn), toOptional_of_not_optional hoptional]
  -- In brackets, the mark is put on the type that stands in the braces.
  have hbracket : ∀ inside behind : List Char, ']' ∉ inside → bracketName inside = name →
      Tag.read "param" (' ' :: '\x7b' :: (type.toList ++ '\x7d' ::
        ' ' :: inBrackets inside behind)) =
        (⟨"param", .optional n, some name, description? behind⟩, []) := by
    intro inside behind hinside hinner
    have htype := tagType_balanced
      (readBraced_eq hblank hbalanced (' ' :: inBrackets inside behind))
    rw [readType_of_parse hn] at htype
    have hread := read_param htype (paramName?_inBrackets hblank hinside)
    rw [hinner, if_pos rfl, hmarked] at hread
    exact hread
  simp only [optionalSpellings, List.forall_mem_cons, List.not_mem_nil, false_implies,
    implies_true, and_true]
  refine ⟨fun behind _ => ?_, fun behind _ => ?_, fun behind hbehind => ?_⟩
  · have hword := bracketName_word hname [] rfl
    rw [List.append_nil] at hword
    simpa [inBrackets] using hbracket name.toList behind hname.2.2 hword
  · have hword := bracketName_word hname ('=' :: default.toList) rfl
    have hinside : ']' ∉ name.toList ++ '=' :: default.toList := by simp [hname.2.2, hdefault]
    simpa [inBrackets] using hbracket _ behind hinside hword
  · have hequals : Balanced ['='] := balanced_of_braceless ⟨by decide, by decide⟩
    have htype := tagType_balanced
      (readBraced_eq hblank (hbalanced.append hequals) (' ' :: (name.toList ++ behind)))
    have hparse := readType_of_parse (parse_optional hn hvariadic hoptional hends) "param"
    rw [String.toList_append] at hparse
    rw [show type.toList ++ ['='] = type.toList ++ "=".toList from rfl, hparse] at htype
    have hread := read_param htype (paramName?_plain hname.1 behind hbehind)
    rw [if_neg Bool.false_ne_true] at hread
    simpa using hread

/-! ## Blocks and signatures -/

/-- A block of one line that is a tag. -/
theorem parse_one_line {title : String} {before : List Char} {last : Char}
    (htitle : title ∈ typedTitles) (hbody : body.head? = some ' ') (hfeed : '\n' ∉ body)
    (hlast : body = before ++ [last]) (hblank : Text.isBlank last = false) :
    DocComment.parse (fun _ => true) ("* @" ++ title ++ String.ofList body) =
      (⟨"", [(Tag.read title body).1]⟩, (Tag.read title body).2) := by
  obtain ⟨hne, halpha, hcanonical⟩ := title_facts htitle
  have hvalue : ("* @" ++ title ++ String.ofList body).toList =
      '*' :: ' ' :: '@' :: (title.toList ++ body) := by
    simp
  have hline : '\n' ∉ '*' :: ' ' :: '@' :: (title.toList ++ body) := by
    have htitleFeed : '\n' ∉ title.toList := fun hmem => absurd (halpha _ hmem) (by decide)
    simp [htitleFeed, hfeed]
  have hunwrapped : unwrapChars ('*' :: ' ' :: '@' :: (title.toList ++ body)) =
      '@' :: (title.toList ++ body) := by
    rw [unwrapChars, ← unwrapLines, unwrapLines_of_notMem hline]
    exact Text.trim_eq_self rfl (by decide) (u := '@' :: (title.toList ++ before))
      (by rw [hlast]; simp [undecorate, isIndent]) hblank
  have hlines : ∀ line ∈ (Text.cut '\n' body).tail, NoTag line := by
    rw [Text.cut_of_notMem hfeed]
    simp
  rw [DocComment.parse, hvalue, hunwrapped, DocComment.ofText,
    segments_eq hne halpha hbody hlines]
  simp only [readTags, String.ofList_toList, hcanonical, if_true, List.append_nil]
  rfl

/-- The name that a parameter has at a position of a signature. -/
def nameAt (index : ℕ) (given : String) : String :=
  Name.sanitize (if given.isEmpty then "arg" ++ toString index else given)

/-- A type is declared as it is without the mark of an optional type. -/
theorem declared_optional (t : TypeExpr) : (TypeExpr.optional t).declared = t.declared := by
  simp only [TypeExpr.declared, TypeExpr.declaredAt]
  rfl

theorem paramsFrom_optional (t : TypeExpr) (given : String) (description : Option String)
    (index : ℕ) (later : List Tag) :
    paramsFrom index (⟨"param", .optional t, some given, description⟩ :: later) =
      (do let text ← t.declared
          .ok ((nameAt index given ++ "?", text) :: (← paramsFrom (index + 1) later))) := by
  rw [paramsFrom, if_pos rfl, declared_optional]
  rfl

theorem paramsFrom_toOptional (t : TypeExpr) (given : String) (description : Option String)
    (index : ℕ) (later : List Tag) :
    paramsFrom index (⟨"param", t.toOptional, some given, description⟩ :: later) =
      (do let text ← t.declared
          .ok ((nameAt index given ++ "?", text) :: (← paramsFrom (index + 1) later))) := by
  cases t with
  | optional inner =>
    rw [TypeExpr.toOptional, paramsFrom_optional, declared_optional]
  | _ => exact paramsFrom_optional _ _ _ _ _

theorem paramsFrom_absent (given : String) (description : Option String) (index : ℕ)
    (later : List Tag) :
    paramsFrom index (⟨"param", .absent, some given, description⟩ :: later) =
      (do .ok ((nameAt index given, "any") :: (← paramsFrom (index + 1) later))) := by
  rw [paramsFrom, if_pos rfl]
  simp only [TypeExpr.declared, TypeExpr.declaredAt]
  rfl

theorem optionalSpelling_ends {type default spelling : String} (hfeed : '\n' ∉ type.toList)
    (hname : IsBracketable name) (hdefault : '\n' ∉ default.toList)
    (h : spelling ∈ optionalSpellings type name default) :
    '\n' ∉ spelling.toList ∧
      ∃ before last, spelling.toList = before ++ [last] ∧ Text.isBlank last = false := by
  obtain ⟨⟨hne, hword, -⟩, -, -⟩ := hname
  have hfeed' : '\n' ∉ name.toList := fun hmem => absurd (hword _ hmem) (by decide)
  have hnil : name.toList ≠ [] := mt String.toList_eq_nil_iff.mp hne
  simp only [optionalSpellings, List.mem_cons, List.not_mem_nil, or_false] at h
  rcases h with rfl | rfl | rfl
  · exact ⟨by simp [hfeed, hfeed'], _, ']', String.toList_append, by decide⟩
  · exact ⟨by simp [hfeed, hfeed', hdefault], _, ']', String.toList_append, by decide⟩
  · refine ⟨by simp [hfeed, hfeed'],
      ("\x7b" ++ type ++ "=\x7d ").toList ++ name.toList.dropLast, name.toList.getLast hnil, ?_,
      hword _ (List.getLast_mem hnil)⟩
    rw [String.toList_append, List.append_assoc, List.dropLast_append_getLast]

/-- The three ways to write an optional parameter give the same block. -/
theorem parse_optionalSpelling {type default : String} {n : TypeExpr}
    (hn : TypeExpr.parse type = .ok n) (hvariadic : n.isVariadic = false)
    (hoptional : n.isOptional = false) (hfeed : '\n' ∉ type.toList) (hkeys : BracelessKeys type)
    (hends : EndsInSpace type) (hname : IsBracketable name) (hdefault : ']' ∉ default.toList)
    (hdefault' : '\n' ∉ default.toList) :
    ∀ spelling ∈ optionalSpellings type name default,
      DocComment.parse (fun _ => true) ("* @param " ++ spelling) =
        (⟨"", [⟨"param", .optional n, some name, none⟩]⟩, []) := by
  intro spelling hspelling
  obtain ⟨hfeeds, before, last, hlast, hblank⟩ :=
    optionalSpelling_ends hfeed hname hdefault' hspelling
  have hread := read_optionalSpelling hn hvariadic hoptional hkeys hends hname hdefault
    spelling hspelling [] (by simp)
  have hbody : ' ' :: (spelling.toList ++ []) = ' ' :: before ++ [last] := by
    rw [List.append_nil, hlast, List.cons_append]
  have hparse := parse_one_line (show "param" ∈ typedTitles by decide) rfl (by simp [hfeeds])
    hbody hblank
  have hvalue : "* @" ++ "param" ++ String.ofList (' ' :: (spelling.toList ++ [])) =
      "* @param " ++ spelling := by
    rw [← String.toList_inj]
    simp
  rw [hvalue, hread] at hparse
  exact hparse

theorem signatures_optional (n : TypeExpr) (h : name ≠ "") (description : Option String) :
    functionSignature [⟨"param", .optional n, some name, description⟩] =
        (do .ok (parameterList [(Name.sanitize name ++ "?", ← n.declared)] ++ ": void")) ∧
      constructorSignature [⟨"param", .optional n, some name, description⟩] =
        (do .ok (parameterList [(Name.sanitize name ++ "?", ← n.declared)])) := by
  have hgiven : nameAt 0 name = Name.sanitize name := by
    rw [nameAt, if_neg (by simpa using h)]
  have hparams := paramsFrom_optional n name description 0 []
  rw [hgiven] at hparams
  constructor
  · rw [functionSignature, hparams]
    cases n.declared with
    | error e => rfl
    | ok text =>
      have hresult : ": " ++ "void" = ": void" := by decide
      rw [← hresult]
      exact congrArg Except.ok String.append_assoc
  · rw [constructorSignature, hparams]
    cases n.declared <;> rfl

/-- **Brackets and the mark of an optional type.** Where a type is given that is neither optional
nor variadic, brackets around the name of a parameter, with a default or without, and a mark behind
its type come to the same tag, and to the same name and type in a signature. Brackets show in the
name of a parameter if and only if it has a type that can be read, whatever type that is. -/
theorem optional_spellings_read :
    (∀ {type name default : String} {n : TypeExpr}, TypeExpr.parse type = .ok n →
      n.isVariadic = false → n.isOptional = false → '\n' ∉ type.toList → BracelessKeys type →
      EndsInSpace type → IsBracketable name → ']' ∉ default.toList → '\n' ∉ default.toList →
      ∀ spelling ∈ optionalSpellings type name default,
        (∀ behind : List Char, (∀ c ∈ behind.head?, Text.isBlank c = true) →
          Tag.read "param" (' ' :: (spelling.toList ++ behind)) =
            (⟨"param", .optional n, some name, description? behind⟩, [])) ∧
        let tags := (DocComment.parse (fun _ => true) ("* @param " ++ spelling)).1.tags
        tags = [⟨"param", .optional n, some name, none⟩] ∧
          functionSignature tags =
            (do .ok (parameterList [(Name.sanitize name ++ "?", ← n.declared)] ++ ": void")) ∧
          constructorSignature tags =
            (do .ok (parameterList [(Name.sanitize name ++ "?", ← n.declared)]))) ∧
    ∀ (body gap inside after : List Char) (index : ℕ) (later : List Tag),
      (∀ c ∈ gap, Text.isBlank c = true) → ']' ∉ inside →
      let tag := (Tag.read "param" body).1
      let name := nameAt index (bracketName inside)
      (∀ inner, readBraced body = .balanced inner (gap ++ inBrackets inside after) →
        (∀ n, TypeExpr.parse (String.ofList inner) = .ok n →
          paramsFrom index (tag :: later) = do
            let text ← n.declared
            .ok ((name ++ "?", text) :: (← paramsFrom (index + 1) later))) ∧
        ∀ e, TypeExpr.parse (String.ofList inner) = .error e →
          paramsFrom index (tag :: later) = do
            .ok ((name, "any") :: (← paramsFrom (index + 1) later))) ∧
      (body = gap ++ inBrackets inside after →
        paramsFrom index (tag :: later) = do
          .ok ((name, "any") :: (← paramsFrom (index + 1) later))) := by
  refine ⟨?_, ?_⟩
  · intro type name default n hn hvariadic hoptional hfeed hkeys hends hname hdefault hdefault'
      spelling hspelling
    refine ⟨read_optionalSpelling hn hvariadic hoptional hkeys hends hname hdefault spelling
      hspelling, ?_⟩
    rw [parse_optionalSpelling hn hvariadic hoptional hfeed hkeys hends hname hdefault hdefault'
      spelling hspelling]
    exact ⟨rfl, signatures_optional n hname.1.1 none⟩
  · intro body gap inside after index later hgap hinside tag name
    have hbracket : paramName? (gap ++ inBrackets inside after) =
        some (bracketName inside, true, after) := paramName?_inBrackets hgap hinside
    refine ⟨fun inner hbody => ?_, fun hbody => ?_⟩
    · have hread := read_param (tagType_balanced hbody) hbracket
      refine ⟨fun n hn => ?_, fun e he => ?_⟩
      · rw [readType, hn, if_pos rfl, bracketedType_eq (ne_absent_of_parse hn)] at hread
        show paramsFrom index ((Tag.read "param" body).1 :: later) = _
        rw [hread]
        exact paramsFrom_toOptional n _ _ index later
      · rw [readType, he] at hread
        show paramsFrom index ((Tag.read "param" body).1 :: later) = _
        rw [hread]
        exact paramsFrom_absent _ _ index later
    · subst hbody
      have hread := read_param (tagType_absent (readBraced_inBrackets hgap)) hbracket
      show paramsFrom index ((Tag.read "param" _).1 :: later) = _
      rw [hread]
      exact paramsFrom_absent _ _ index later

theorem optional_spellings_read_default :
    (TypeExpr.parse "?A|B[] " =
          .ok (.union [.nullable .before (.name "A"),
            .application (.name "Array") [.name "B"]]) ∧
        BracelessKeys "?A|B[] " ∧ EndsInSpace "?A|B[] " ∧ IsBracketable "default" ∧
        ∀ spelling ∈ optionalSpellings "?A|B[] " "default" " \x7b= a ",
          constructorSignature
            (DocComment.parse (fun _ => true) ("* @param " ++ spelling)).1.tags =
              .ok "(default_?: A|Array<B>)") ∧
      paramsFrom 2 [(Tag.read "param" " \x7b...A\x7d\t[ x = 1 ] b".toList).1] =
        .ok [("x?", "A[]")] ∧
      paramsFrom 2 [(Tag.read "param" " \x7bA|\x7d [=1]".toList).1] = .ok [("arg2", "any")] ∧
      paramsFrom 2 [(Tag.read "param" " [default]".toList).1] = .ok [("default_", "any")] := by
  obtain ⟨hspelled, hbracketed⟩ := optional_spellings_read
  have hscan : TypeExpr.Scan.ofText (Text.trim "?A|B[] ".toList) =
      ⟨[⟨.question, 0⟩, ⟨.name "A", 1⟩, ⟨.bar, 2⟩, ⟨.name "B", 3⟩, ⟨.openBracket, 4⟩,
        ⟨.closeBracket, 5⟩], .endOfText⟩ := by
    decide
  have hparse : TypeExpr.parse "?A|B[] " = .ok (.union [.nullable .before (.name "A"),
      .application (.name "Array") [.name "B"]]) := rfl
  have hkeys : BracelessKeys "?A|B[] " := by
    intro l hl mark body hquoted
    rw [hscan] at hl
    simp only [List.mem_cons, List.not_mem_nil, or_false] at hl
    rcases hl with rfl | rfl | rfl | rfl | rfl | rfl <;> cases hquoted
  have hends : EndsInSpace "?A|B[] " := List.all_eq_true.mp (by decide)
  have hname : IsBracketable "default" := by
    have hword : "default".toList.any Text.isBlank = false := by decide
    exact ⟨⟨by decide, fun c hc => Bool.eq_false_iff.mpr (List.any_eq_false.mp hword c hc),
      by decide⟩, by decide, by decide⟩
  have hblank : ∀ c ∈ [' '], Text.isBlank c = true := List.all_eq_true.mp (by decide)
  refine ⟨⟨hparse, hkeys, hends, hname, fun spelling hspelling => ?_⟩, ?_, ?_, ?_⟩
  · rw [(hspelled hparse rfl rfl (by decide) hkeys hends hname (by decide) (by decide)
      spelling hspelling).2.2.2]
    decide +kernel
  · have htab : ∀ c ∈ ['\t'], Text.isBlank c = true := List.all_eq_true.mp (by decide)
    exact ((hbracketed " \x7b...A\x7d\t[ x = 1 ] b".toList ['\t'] " x = 1 ".toList " b".toList 2 []
      htab (by decide)).1 "...A".toList (by decide)).1 _ rfl
  · exact ((hbracketed " \x7bA|\x7d [=1]".toList [' '] "=1".toList [] 2 []
      hblank (by decide)).1 "A|".toList (by decide)).2 _ rfl
  · exact (hbracketed " [default]".toList [' '] "default".toList [] 2 [] hblank
      (by decide)).2 rfl

/-- Without a type that can be read, brackets do not show. Nor does a mark behind blanks that may
stand around a type but not inside one. -/
theorem brackets_unmarked :
    functionSignature (DocComment.parse (fun _ => true) "* @param [x]").1.tags =
        .ok "(x: any): void" ∧
      functionSignature (DocComment.parse (fun _ => true) "* @param \x7bArray.<\x7d [x=1]").1.tags =
        .ok "(x: any): void" ∧
      (∃ n, TypeExpr.parse "A\u00a0" = .ok n ∧ n.isVariadic = false ∧ n.isOptional = false) ∧
      functionSignature (DocComment.parse (fun _ => true) "* @param \x7bA\u00a0\x7d [x]").1.tags =
        .ok "(x?: A): void" ∧
      functionSignature (DocComment.parse (fun _ => true) "* @param \x7bA\u00a0=\x7d x").1.tags =
        .ok "(x: any): void" := by
  refine ⟨?_, ?_, ⟨.name "A", rfl, rfl, rfl⟩, ?_, ?_⟩ <;> decide +kernel

end Ambient.Doc
