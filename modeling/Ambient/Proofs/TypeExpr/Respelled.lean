import Ambient.Proofs.TypeExpr.Relocated

/-!
# Other spellings

Blanks can be put in between any two tokens of a text, and the point before the arguments of a type
can be written or left out: the text is read as the same type, or is refused as before.

* `Respelled`: a text spelled in another way, token by token;
* `Respelled.ends`: no change behind a token makes it go on;
* `Respelled.lexes_or`: both texts are made of tokens, of the same kinds, or neither is;
* `Respelled.trim`: the blanks put in at the ends are taken away again;
* **`parse_respelled`**: another spelling of a text stands for the same type, or for none.
-/

namespace Ambient.TypeExpr

/-! ## Spellings -/

/-- A text spelled in another way: with further blanks in front of tokens and at the end, and with
or without points before type arguments. From the first character on that starts no token, nothing
is changed. -/
inductive Respelled : List Char → List Char → Prop
  | nil : Respelled [] []
  | insert {c : Char} {s s' : List Char} (hc : Token.isSpace c = true) (h : Respelled s s') :
      Respelled s (c :: s')
  | space {c : Char} {s s' : List Char} (hc : Token.isSpace c = true) (h : Respelled s s') :
      Respelled (c :: s) (c :: s')
  | token {t : Token} {s s' : List Char} (hread : Token.read? (t.text.toList ++ s) = some (t, s))
      (h : Respelled s s') : Respelled (t.text.toList ++ s) (t.text.toList ++ s')
  | point (dotted dotted' : Bool) {s s' : List Char} (h : Respelled s s') :
      Respelled ((angle dotted).text.toList ++ s) ((angle dotted').text.toList ++ s')
  | illegal {c : Char} {s : List Char} (hc : Token.isSpace c = false)
      (hread : Token.read? (c :: s) = none) : Respelled (c :: s) (c :: s)

theorem isSymbol_angle (dotted : Bool) : (angle dotted).isSymbol = true := by
  cases dotted <;> rfl

theorem lexeme_angle (dotted : Bool) : (angle dotted).Lexeme :=
  (Token.of_isSymbol (isSymbol_angle dotted)).1

theorem ends_angle (dotted : Bool) (s : List Char) : (angle dotted).Ends s := by
  cases dotted <;> trivial

theorem undotted_angle (dotted : Bool) : (angle dotted).undotted = .less := by
  cases dotted <;> rfl

/-- **No change behind a token** makes it go on. -/
theorem Respelled.ends {t : Token} {s s' : List Char} (h : Respelled s s') (hends : t.Ends s) :
    t.Ends s' := by
  cases h with
  | nil => exact t.ends_nil
  | insert hc _ | space hc _ => exact t.ends_space hc _
  | token hread _ => exact Token.ends_text (Token.read?_spec hread).2.1 hends _
  | point _ dotted' _ =>
    have hword := (Token.of_isSymbol (isSymbol_angle dotted')).2
    exact Token.ends_of_apart (lexeme_angle dotted') (fun _ => hword) _
  | illegal _ _ => exact hends

/-! ## The tokens of a text spelled in another way -/

/-- A text that is not made of tokens. -/
def Unlexed (s : List Char) : Prop := ∀ n ls, ¬ Lexes n s ls

theorem Unlexed.space {c : Char} {s : List Char} (hc : Token.isSpace c = true) (h : Unlexed s) :
    Unlexed (c :: s) := by
  intro n ls hlexes
  generalize hs : c :: s = u at hlexes
  cases hlexes with
  | nil => cases hs
  | space _ hlater =>
    obtain ⟨rfl, rfl⟩ := List.cons.inj hs
    exact h _ _ hlater
  | token ht hends _ =>
    have hread := Token.read?_eq_some_iff.mpr ⟨hs, ht, hends⟩
    rw [Token.read?_isSpace hc] at hread
    cases hread

theorem Unlexed.token {t : Token} {s : List Char} (ht : t.Lexeme) (hends : t.Ends s)
    (h : Unlexed s) : Unlexed (t.text.toList ++ s) := by
  intro n ls hlexes
  have hread : Token.read? (t.text.toList ++ s) = some (t, s) :=
    Token.read?_eq_some_iff.mpr ⟨rfl, ht, hends⟩
  generalize hs : t.text.toList ++ s = u at hlexes hread
  cases hlexes with
  | nil => cases hread
  | space hc _ =>
    rw [Token.read?_isSpace hc] at hread
    cases hread
  | token ht' hends' hlater =>
    have hread' := hread.symm.trans (Token.read?_eq_some_iff.mpr ⟨rfl, ht', hends'⟩)
    obtain ⟨-, rfl⟩ := Prod.mk.inj (Option.some.inj hread')
    exact h _ _ hlater

theorem unlexed_of_illegal {c : Char} {s : List Char} (hc : Token.isSpace c = false)
    (hread : Token.read? (c :: s) = none) : Unlexed (c :: s) := by
  intro n ls hlexes
  generalize hs : c :: s = u at hlexes
  cases hlexes with
  | nil => cases hs
  | space hc' _ =>
    obtain ⟨rfl, -⟩ := List.cons.inj hs
    exact absurd (hc.symm.trans hc') Bool.noConfusion
  | token ht hends _ =>
    rw [Token.read?_eq_some_iff.mpr ⟨hs, ht, hends⟩] at hread
    cases hread

/-- **Both spellings** are made of tokens, of the same kinds, or neither is. -/
theorem Respelled.lexes_or {s s' : List Char} (h : Respelled s s') (n m : ℕ) :
    (∃ ls ls', Lexes n s ls ∧ Lexes m s' ls' ∧ SameKinds ls ls') ∨ (Unlexed s ∧ Unlexed s') := by
  induction h generalizing n m with
  | nil => exact Or.inl ⟨[], [], .nil n, .nil m, rfl⟩
  | insert hc _ ih =>
    refine (ih n (m + 1)).imp ?_ fun ⟨hs, hs'⟩ => ⟨hs, hs'.space hc⟩
    rintro ⟨ls, ls', hlexes, hlexes', hkinds⟩
    exact ⟨ls, ls', hlexes, .space hc hlexes', hkinds⟩
  | space hc _ ih =>
    refine (ih (n + 1) (m + 1)).imp ?_ fun ⟨hs, hs'⟩ => ⟨hs.space hc, hs'.space hc⟩
    rintro ⟨ls, ls', hlexes, hlexes', hkinds⟩
    exact ⟨ls, ls', .space hc hlexes, .space hc hlexes', hkinds⟩
  | @token t s s' hread h ih =>
    obtain ⟨-, ht, hends⟩ := Token.read?_spec hread
    refine (ih (n + t.text.length) (m + t.text.length)).imp ?_ fun ⟨hs, hs'⟩ =>
      ⟨hs.token ht hends, hs'.token ht (h.ends hends)⟩
    rintro ⟨ls, ls', hlexes, hlexes', hkinds⟩
    exact ⟨⟨t, n⟩ :: ls, ⟨t, m⟩ :: ls', .token ht hends hlexes, .token ht (h.ends hends) hlexes',
      congrArg (t.undotted :: ·) hkinds⟩
  | point dotted dotted' _ ih =>
    refine (ih (n + (angle dotted).text.length) (m + (angle dotted').text.length)).imp ?_
      fun ⟨hs, hs'⟩ => ⟨hs.token (lexeme_angle _) (ends_angle _ _),
        hs'.token (lexeme_angle _) (ends_angle _ _)⟩
    rintro ⟨ls, ls', hlexes, hlexes', hkinds⟩
    refine ⟨⟨angle dotted, n⟩ :: ls, ⟨angle dotted', m⟩ :: ls',
      .token (lexeme_angle _) (ends_angle _ _) hlexes,
      .token (lexeme_angle _) (ends_angle _ _) hlexes', ?_⟩
    rw [SameKinds, List.map_cons, List.map_cons, hkinds, Located.kind, Located.kind,
      undotted_angle, undotted_angle]
  | illegal hc hread =>
    have hunlexed := unlexed_of_illegal hc hread
    exact Or.inr ⟨hunlexed, hunlexed⟩

/-! ## Blanks at the ends -/

theorem Respelled.eq_nil {s s' : List Char} (h : Respelled s s') (hs' : s' = []) : s = [] := by
  cases h with
  | nil => rfl
  | insert _ _ | space _ _ | illegal _ _ => cases hs'
  | token hread _ =>
    exact absurd (List.append_eq_nil_iff.mp hs').1 (Token.text_ne_nil (Token.read?_spec hread).2.1)
  | point _ dotted' _ =>
    exact absurd (List.append_eq_nil_iff.mp hs').1 (Token.text_ne_nil (lexeme_angle dotted'))

theorem trimLeft_lexeme {t : Token} (ht : t.Lexeme) (s : List Char) :
    Text.trimLeft (t.text.toList ++ s) = t.text.toList ++ s := by
  obtain ⟨c, later, htext⟩ := List.exists_cons_of_ne_nil (Token.text_ne_nil ht)
  have hc : Text.isBlank c = false := (Token.not_blank_ends ht).1 c (by rw [htext]; rfl)
  rw [htext, List.cons_append, Text.trimLeft_of_not_blank hc]

theorem Respelled.trimLeft {s s' : List Char} (h : Respelled s s')
    (hs : ∀ c ∈ s.head?, Text.isBlank c = false) : Respelled s (Text.trimLeft s') := by
  induction h with
  | nil => exact .nil
  | insert hc _ ih =>
    rw [Text.trimLeft, List.dropWhile_cons_of_pos (isBlank_of_isSpace hc)]
    exact ih hs
  | space hc _ _ =>
    exact absurd ((isBlank_of_isSpace hc).symm.trans (hs _ rfl)) Bool.noConfusion
  | token hread h _ =>
    rw [trimLeft_lexeme (Token.read?_spec hread).2.1]
    exact .token hread h
  | point dotted dotted' h _ =>
    rw [trimLeft_lexeme (lexeme_angle dotted')]
    exact .point dotted dotted' h
  | illegal hc hread =>
    rw [Text.trimLeft_of_not_blank (hs _ rfl)]
    exact .illegal hc hread

theorem Respelled.trimRight {s s' : List Char} (h : Respelled s s')
    (hs : ∀ c ∈ s.getLast?, Text.isBlank c = false) : Respelled s (Text.trimRight s') := by
  have hbehind : ∀ {a s : List Char}, (∀ c ∈ (a ++ s).getLast?, Text.isBlank c = false) →
      ∀ c ∈ s.getLast?, Text.isBlank c = false := by
    intro a s h c hc
    refine h c ?_
    rw [Option.mem_def, List.getLast?_append, hc]
    rfl
  have hcons : ∀ {c : Char} {s' : List Char}, Token.isSpace c = true →
      Text.trimRight (c :: s') = if Text.trimRight s' = [] then [] else c :: Text.trimRight s' := by
    intro c s' hc
    have hblank := Text.trimRight_eq_nil (List.forall_mem_singleton.mpr (isBlank_of_isSpace hc))
    rw [← List.singleton_append, Text.trimRight_append, hblank]
    rfl
  induction h with
  | nil => exact .nil
  | insert hc _ ih =>
    rw [hcons hc]
    split_ifs with hnil
    · exact hnil ▸ ih hs
    · exact .insert hc (ih hs)
  | @space c s s' hc _ ih =>
    have hinner := ih (hbehind (a := [c]) hs)
    rw [hcons hc]
    split_ifs with hnil
    · -- Nothing but the blank would be left of the text, which does not end in one.
      obtain rfl := hinner.eq_nil hnil
      exact absurd ((isBlank_of_isSpace hc).symm.trans (hs _ rfl)) Bool.noConfusion
    · exact .space hc hinner
  | token hread _ ih =>
    rw [Token.trimRight_append (Token.read?_spec hread).2.1]
    exact .token hread (ih (hbehind hs))
  | point dotted dotted' _ ih =>
    rw [Token.trimRight_append (lexeme_angle dotted')]
    exact .point dotted dotted' (ih (hbehind hs))
  | @illegal c s hc hread =>
    have hself : Text.trimRight (c :: s) = c :: s := by
      rw [Text.trimRight_eq_rdropWhile, List.rdropWhile_eq_self_iff]
      intro hne hlast
      rw [hs _ (List.getLast_mem_getLast? hne)] at hlast
      cases hlast
    rw [hself]
    exact .illegal hc hread

/-- The blanks put in at the ends are taken away again. -/
theorem Respelled.trim {s s' : List Char} (h : Respelled (Text.trim s) s') :
    Respelled (Text.trim s) (Text.trim s') := by
  by_cases hne : Text.trim s = []
  · have hnil : ∀ {p : Char → Prop}, ∀ c ∈ ([] : List Char).head?, p c := fun _ hc => nomatch hc
    rw [hne] at h ⊢
    exact (h.trimLeft hnil).trimRight hnil
  · obtain ⟨a, t, hfirst, ha⟩ := Text.head?_trim hne
    obtain ⟨u, b, hlast, hb⟩ := Text.getLast?_trim hne
    have hleft : ∀ c ∈ (Text.trim s).head?, Text.isBlank c = false := by
      rw [hfirst]
      exact fun c hc => Option.some.inj hc ▸ ha
    have hright : ∀ c ∈ (Text.trim s).getLast?, Text.isBlank c = false := by
      rw [hlast, List.getLast?_concat]
      exact fun c hc => Option.some.inj hc ▸ hb
    exact (h.trimLeft hleft).trimRight hright

/-! ## Types -/

/-- **Another spelling** of a text that stands for a type, with any blanks at its ends, stands for
the same type, and another spelling of a text that is refused is refused. -/
theorem parse_respelled {text text' : String} {before core after : List Char}
    (hbefore : ∀ c ∈ before, Text.isBlank c = true) (hafter : ∀ c ∈ after, Text.isBlank c = true)
    (htext' : text'.toList = before ++ (core ++ after))
    (h : Respelled (Text.trim text.toList) core) :
    (∀ n, parse text = .ok n → parse text' = .ok n) ∧
      ∀ e, parse text = .error e → ∃ e', parse text' = .error e' := by
  have htrim : Text.trim text'.toList = Text.trim core := by
    rw [htext', Text.trim_between hbefore hafter]
  have hmoved := h.trim.lexes_or 0 0
  rw [← htrim] at hmoved
  have hiff : ∀ n, parse text = .ok n ↔ parse text' = .ok n := by
    intro n
    rcases hmoved with ⟨ls, ls', hlexes, hlexes', hkinds⟩ | ⟨hs, hs'⟩
    · exact ⟨parse_of_same_kinds hlexes hlexes' hkinds,
        parse_of_same_kinds hlexes' hlexes (Eq.symm hkinds)⟩
    · constructor
      · intro hn
        obtain ⟨ls, -, hlexes, -⟩ := parse_eq_ok_iff.mp hn
        exact absurd hlexes (hs 0 ls)
      · intro hn
        obtain ⟨ls, -, hlexes, -⟩ := parse_eq_ok_iff.mp hn
        exact absurd hlexes (hs' 0 ls)
  refine ⟨fun n => (hiff n).mp, fun e he => ?_⟩
  cases hparsed : parse text' with
  | error e' => exact ⟨e', rfl⟩
  | ok n =>
    rw [(hiff n).mpr hparsed] at he
    cases he

theorem parse_respelled_function :
    (∃ n, parse "function(this:a.b.<c>,...\x7b'x y':d,1.5:e\x7d)" = .ok n ∧
      parse "\nfunction (this: a.b <c>,\t... \x7b'x y' :d, 1.5:e\x7d) " = .ok n) ∧
    ∃ e', parse "a .<b" = .error e' := by
  have hscan : Scan.ofText (Text.trim "function(this:a.b.<c>,...\x7b'x y':d,1.5:e\x7d)".toList) =
      ⟨[⟨.function, 0⟩, ⟨.openParen, 8⟩, ⟨.name "this", 9⟩, ⟨.colon, 13⟩, ⟨.name "a.b", 14⟩,
        ⟨.dotLess, 17⟩, ⟨.name "c", 19⟩, ⟨.greater, 20⟩, ⟨.comma, 21⟩, ⟨.ellipsis, 22⟩,
        ⟨.openBrace, 25⟩, ⟨.quoted '\x27' "x y", 26⟩, ⟨.colon, 31⟩, ⟨.name "d", 32⟩,
        ⟨.comma, 33⟩, ⟨.number "1.5", 34⟩, ⟨.colon, 37⟩, ⟨.name "e", 38⟩, ⟨.closeBrace, 39⟩,
        ⟨.closeParen, 40⟩], .endOfText⟩ := by
    decide
  have hroot : Phrase.root [⟨.function, 0⟩, ⟨.openParen, 8⟩, ⟨.name "this", 9⟩, ⟨.colon, 13⟩,
      ⟨.name "a.b", 14⟩, ⟨.dotLess, 17⟩, ⟨.name "c", 19⟩, ⟨.greater, 20⟩, ⟨.comma, 21⟩,
      ⟨.ellipsis, 22⟩, ⟨.openBrace, 25⟩, ⟨.quoted '\x27' "x y", 26⟩, ⟨.colon, 31⟩,
      ⟨.name "d", 32⟩, ⟨.comma, 33⟩, ⟨.number "1.5", 34⟩, ⟨.colon, 37⟩, ⟨.name "e", 38⟩,
      ⟨.closeBrace, 39⟩, ⟨.closeParen, 40⟩] =
      .ok (.function [.labelled "this" 9 (.application "a.b" true [.name "c"]),
        .variadic (.record [.field ⟨.quoted '\x27' "x y", 26⟩ (.name "d"),
          .field ⟨.number "1.5", 34⟩ (.name "e")])], []) := by
    cbv
  have hparse : parse "function(this:a.b.<c>,...\x7b'x y':d,1.5:e\x7d)" = .ok _ :=
    parse_eq_ok_iff.mpr ⟨_, _, scan_eq_iff.mp hscan, root_eq_ok_iff.mp hroot, rfl⟩
  have hrespelled : Respelled (Text.trim "function(this:a.b.<c>,...\x7b'x y':d,1.5:e\x7d)".toList)
      "function (this: a.b <c>,\t... \x7b'x y' :d, 1.5:e\x7d)".toList := by
    have h : Respelled _ _ := .token (t := .function)
        (s := "(this:a.b.<c>,...\x7b'x y':d,1.5:e\x7d)".toList) rfl <|
      .insert (c := ' ') rfl <| .token (t := .openParen) rfl <| .token (t := .name "this") rfl <|
      .token (t := .colon) rfl <| .insert (c := ' ') rfl <| .token (t := .name "a.b") rfl <|
      .insert (c := ' ') rfl <| .point true false <| .token (t := .name "c") rfl <|
      .token (t := .greater) rfl <| .token (t := .comma) rfl <| .insert (c := '\t') rfl <|
      .token (t := .ellipsis) rfl <| .insert (c := ' ') rfl <| .token (t := .openBrace) rfl <|
      .token (t := .quoted '\x27' "x y") rfl <| .insert (c := ' ') rfl <|
      .token (t := .colon) rfl <| .token (t := .name "d") rfl <| .token (t := .comma) rfl <|
      .insert (c := ' ') rfl <| .token (t := .number "1.5") rfl <| .token (t := .colon) rfl <|
      .token (t := .name "e") rfl <| .token (t := .closeBrace) rfl <|
      .token (t := .closeParen) rfl <| .nil
    exact h
  have hrefused : parse "a<b" = .error ⟨.endOfInput, "a<b", 3⟩ := by
    have hstrip : Text.strip "a<b" = "a<b" := by decide
    have hscan : Scan.ofText "a<b".toList =
        ⟨[⟨.name "a", 0⟩, ⟨.less, 1⟩, ⟨.name "b", 2⟩], .endOfText⟩ := by
      decide
    have hroot : Phrase.root [⟨.name "a", 0⟩, ⟨.less, 1⟩, ⟨.name "b", 2⟩] = .error [] := by cbv
    have hread : readPhrase "a<b" = .error ⟨.endOfInput, "a<b", 3⟩ :=
      readPhrase_of_root_error hscan hroot
    simp [parse, hstrip, hread]
  have hrespelled' : Respelled (Text.trim "a<b".toList) "a .<b".toList := by
    have h : Respelled _ _ := .token (t := .name "a") (s := "<b".toList) rfl <|
      .insert (c := ' ') rfl <| .point false true <| .token (t := .name "b") rfl <| .nil
    exact h
  have hfront : "\nfunction (this: a.b <c>,\t... \x7b'x y' :d, 1.5:e\x7d) ".toList =
      ['\n'] ++ ("function (this: a.b <c>,\t... \x7b'x y' :d, 1.5:e\x7d)".toList ++ [' ']) := rfl
  have hfront' : "a .<b".toList = [] ++ ("a .<b".toList ++ []) := rfl
  have hblank : ∀ c ∈ ['\n'], Text.isBlank c = true := List.forall_mem_singleton.mpr rfl
  have hblank' : ∀ c ∈ [' '], Text.isBlank c = true := List.forall_mem_singleton.mpr rfl
  have hnone : ∀ c ∈ [], Text.isBlank c = true := List.forall_mem_nil _
  exact ⟨⟨_, hparse, (parse_respelled hblank hblank' hfront hrespelled).1 _ hparse⟩,
    (parse_respelled hnone hnone hfront' hrespelled').2 _ hrefused⟩

end Ambient.TypeExpr
