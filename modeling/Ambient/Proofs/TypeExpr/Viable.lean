import Ambient.Proofs.TypeExpr.Relocated

/-!
# Where readings fail

A text that the grammar refuses is refused at the first place where nothing can put it right: what
stands before that place goes on to a text that the grammar accepts.

* `Viable`: tokens that go on to those of a phrase;
* `Prompt`: a reader that fails where its tokens stop being so;
* `prompt_separated`, `prompt_listed`, `prompt_trails` and the rules of the grammar;
* **`prompt_root`**: the reader of whole expressions;
* `spaced`, `exists_lexes_spaced`: further tokens that a text can go on with;
* `exists_before`: the text before the place that an error tells;
* **`parse_error_first`**: the error of a text tells the first offence in it.
-/

namespace Ambient.TypeExpr

open Phrase

/-! ## Tokens that can go on -/

/-- Tokens that can be written. -/
def Writable (ls : List Located) : Prop := ∀ l ∈ ls, l.token.Lexeme

/-- Tokens that a rule derives a phrase from when the right ones follow. -/
def Viable (rule : Rule) (ls : List Located) : Prop :=
  ∃ more p, Writable more ∧ Derives rule (ls ++ more) p

/-- Where a reader fails, it has passed over tokens that could go on. -/
def Prompt (rule : Rule) (reader : Reader Phrase) : Prop :=
  ∀ ⦃tokens rest : List Located⦄, reader tokens = .error rest →
    ∃ ls, tokens = ls ++ rest ∧ Viable rule ls

theorem Writable.one (t : Token) (i : ℕ) (ht : t.Lexeme) : Writable [⟨t, i⟩] :=
  List.forall_mem_singleton.mpr ht

theorem Writable.append {ls later : List Located} (hls : Writable ls) (hlater : Writable later) :
    Writable (ls ++ later) := List.forall_mem_append.mpr ⟨hls, hlater⟩

/-- The tokens of a phrase are viable up to any place. -/
theorem Derives.viable {rule : Rule} {all ls more : List Located} {p : Phrase}
    (h : Derives rule all p) (hall : ls ++ more = all) (hmore : Writable more) : Viable rule ls :=
  ⟨more, p, hmore, hall ▸ h⟩

/-- What is viable for a rule is viable for one that derives more from it, behind other tokens. -/
theorem Viable.behind {rule rule' : Rule} {ls : List Located} (front : List Located)
    (h : Viable rule ls)
    (hrule : ∀ ls p, Derives rule ls p → ∃ p', Derives rule' (front ++ ls) p') :
    Viable rule' (front ++ ls) := by
  obtain ⟨more, p, hmore, hderives⟩ := h
  obtain ⟨p', hderives'⟩ := hrule _ p hderives
  exact ⟨more, p', hmore, by rwa [List.append_assoc]⟩

/-! ## Lists -/

/-- Tokens that go on to those of several phrases with a separator between each two. -/
def ViableParts (sep : Token) (rule : Rule) (ls : List Located) : Prop :=
  ∃ more parts, Writable more ∧ parts ≠ [] ∧ Parts sep rule parts (ls ++ more)

/-- Tokens that go on to those of a list with its closing token. -/
def ViableList (close : Token) (rule : Rule) (ls : List Located) : Prop :=
  ∃ more parts inner i, Writable more ∧ ls ++ more = inner ++ [⟨close, i⟩] ∧
    Parts .comma rule parts inner

theorem error_of_expect {t : Token} {tokens rest : List Located}
    (h : expect t tokens = .error rest) : tokens = rest := by
  cases tokens with
  | nil => cases h; rfl
  | cons l later =>
    rw [expect] at h
    split_ifs at h
    cases h
    rfl

theorem ViableParts.of_viable {sep : Token} {rule : Rule} {ls : List Located}
    (h : Viable rule ls) : ViableParts sep rule ls := by
  obtain ⟨more, p, hmore, hderives⟩ := h
  exact ⟨more, [(_, p)], hmore, List.cons_ne_nil _ _, .one hderives⟩

theorem ViableParts.close {rule : Rule} {ls : List Located} {close : Token} (hclose : close.Lexeme)
    (h : ViableParts .comma rule ls) : ViableList close rule ls := by
  obtain ⟨more, parts, hmore, -, hparts⟩ := h
  exact ⟨more ++ [⟨close, 0⟩], parts, ls ++ more, 0, hmore.append (.one close 0 hclose),
    (List.append_assoc _ _ _).symm, hparts⟩

/-- What is viable for a list with its closing token is viable for a rule that derives a phrase from
such a list behind other tokens. -/
theorem ViableList.behind {rule rule' : Rule} {close : Token} {ls : List Located}
    (front : List Located) (h : ViableList close rule ls)
    (hrule : ∀ parts inner i, Parts .comma rule parts inner →
      ∃ p, Derives rule' (front ++ (inner ++ [⟨close, i⟩])) p) :
    Viable rule' (front ++ ls) := by
  obtain ⟨more, parts, inner, i, hmore, hls, hparts⟩ := h
  obtain ⟨p, hderives⟩ := hrule parts inner i hparts
  refine hderives.viable ?_ hmore
  rw [List.append_assoc, hls]

theorem prompt_separated {sep : Token} {rule : Rule} {part : Reader Phrase}
    (hsound : Sound rule part) (hprompt : Prompt rule part) :
    ∀ {fuel : ℕ} {tokens rest : List Located}, separated sep part fuel tokens = .error rest →
      ∃ ls, tokens = ls ++ rest ∧ ViableParts sep rule ls := by
  intro fuel
  induction fuel with
  | zero =>
    intro tokens rest h
    rw [separated] at h
    rcases bind_eq_error.mp h with hfirst | ⟨_, -, hend⟩
    · obtain ⟨ls, hls, hviable⟩ := hprompt hfirst
      exact ⟨ls, hls, .of_viable hviable⟩
    · cases hend
  | succ fuel ih =>
    intro tokens rest h
    rw [separated] at h
    rcases bind_eq_error.mp h with hfirst | ⟨⟨p, after⟩, hp, hafter⟩
    · obtain ⟨ls, hls, hviable⟩ := hprompt hfirst
      exact ⟨ls, hls, .of_viable hviable⟩
    obtain ⟨ls, rfl, hderives⟩ := hsound hp
    cases after with
    | nil => cases hafter
    | cons l after =>
      simp only at hafter
      split_ifs at hafter with hl
      rcases bind_eq_error.mp hafter with hlater | ⟨_, -, hend⟩
      · obtain ⟨later, rfl, more, parts, hmore, hne, hparts⟩ := ih hlater
        refine ⟨ls ++ ⟨sep, l.position⟩ :: later, ?_, more, (ls, p) :: parts, hmore,
          List.cons_ne_nil _ _, ?_⟩
        · rw [List.append_assoc, List.cons_append, ← hl]
        · rw [List.append_assoc, List.cons_append]
          exact .more _ hderives hne hparts
      · cases hend

theorem prompt_listed (close : Token) (hclose : close.Lexeme) {rule : Rule}
    {part : Reader Phrase} (hsound : Sound rule part) (hprompt : Prompt rule part)
    {tokens rest : List Located}
    (h : listed close part tokens = .error rest) :
    ∃ ls, tokens = ls ++ rest ∧ ViableList close rule ls := by
  cases tokens with
  | nil =>
    cases h
    exact ⟨[], rfl, [⟨close, 0⟩], [], [], 0, .one close 0 hclose, rfl, .nil _ _⟩
  | cons l later =>
    rw [listed] at h
    split_ifs at h
    rcases bind_eq_error.mp h with hparts | ⟨⟨ps, after⟩, hps, hend⟩
    · obtain ⟨ls, hls, hviable⟩ := prompt_separated hsound hprompt hparts
      exact ⟨ls, hls, hviable.close hclose⟩
    rcases bind_eq_error.mp hend with hexpect | ⟨_, -, hend⟩
    · obtain ⟨parts, ls, htokens, hne, hparts, -⟩ := sound_separated hsound hps
      obtain rfl := error_of_expect hexpect
      refine ⟨ls, htokens, ViableParts.close hclose ⟨[], parts, List.forall_mem_nil _, hne, ?_⟩⟩
      rwa [List.append_nil]
    · cases hend

/-! ## The rules -/

/-- The marks after an operand can always go on: an open bracket only waits for the closing one. -/
theorem prompt_trails {inner : Phrase} {tokens rest : List Located}
    (h : trails inner tokens = .error rest) :
    ∀ {ls : List Located}, Derives .postfixed ls inner →
      (inner.hasResult = true → Unmarked tokens) →
      ∃ ls', ls ++ tokens = ls' ++ rest ∧ Viable .postfixed ls' := by
  fun_induction trails inner tokens with
  | case1 inner i later ih =>
    intro ls hls hinner
    have hmarked := derives_trail .question [⟨.question, i⟩] rfl hls hinner
    simpa using ih h hmarked (absurd · Bool.false_ne_true)
  | case2 inner i later ih =>
    intro ls hls hinner
    have hmarked := derives_trail .bang [⟨.bang, i⟩] rfl hls hinner
    simpa using ih h hmarked (absurd · Bool.false_ne_true)
  | case3 inner i j later ih =>
    intro ls hls hinner
    have hmarked := derives_trail .brackets [⟨.openBracket, i⟩, ⟨.closeBracket, j⟩] rfl hls
      hinner
    simpa using ih h hmarked (absurd · Bool.false_ne_true)
  | case4 inner i later _ =>
    intro ls hls hinner
    cases h
    have hclosed : inner.hasResult = true →
        Unmarked ([⟨.openBracket, i⟩, ⟨.closeBracket, 0⟩] ++ []) := hinner
    have hmarked := derives_trail .brackets [⟨.openBracket, i⟩, ⟨.closeBracket, 0⟩] rfl hls hclosed
    exact ⟨ls ++ [⟨.openBracket, i⟩], by simp,
      hmarked.viable (List.append_assoc _ _ _) (.one .closeBracket 0 trivial)⟩
  | case5 => cases h

theorem ViableParts.union {ls : List Located} (h : ViableParts .bar .type ls) :
    Viable .union ls := by
  obtain ⟨more, parts, hmore, hne, hparts, hjoined⟩ := h
  rcases parts with _ | ⟨⟨first, q⟩, _ | ⟨second, later⟩⟩
  · exact absurd rfl hne
  · have hone : Derives .union first q := .type (hparts _ List.mem_cons_self)
    generalize hall : ls ++ more = all at hjoined
    cases hjoined
    exact hone.viable hall hmore
  · exact (Derives.union (Nat.le_add_left 2 _) hparts hjoined).viable rfl hmore

section

/-! The rules over a reader of the types inside. -/

variable {inside : Reader Phrase} (hsound : Sound .type inside) (hprompt : Prompt .type inside)

include hsound hprompt

theorem prompt_unionOf : Prompt .union (unionOf inside) := by
  intro tokens rest h
  rw [unionOf] at h
  rcases bind_eq_error.mp h with hmembers | ⟨⟨ps, after⟩, -, hend⟩
  · obtain ⟨ls, hls, hviable⟩ := prompt_separated hsound hprompt hmembers
    exact ⟨ls, hls, hviable.union⟩
  · simp only at hend
    split at hend <;> cases hend

theorem prompt_optionalUnion : Prompt .value (optionalUnion inside) := by
  intro tokens rest h
  rw [optionalUnion] at h
  rcases bind_eq_error.mp h with hunion | ⟨⟨inner, after⟩, -, hend⟩
  · obtain ⟨ls, hls, hviable⟩ := prompt_unionOf hsound hprompt hunion
    exact ⟨ls, hls, hviable.behind [] fun _ p hp => ⟨p, .plain hp⟩⟩
  · simp only at hend
    split at hend <;> cases hend

theorem prompt_param : Prompt .param (param inside) := by
  intro tokens rest h
  rw [param.eq_def] at h
  split at h
  · rename_i i later
    split_ifs at h
    rcases bind_eq_error.mp h with hinner | ⟨_, -, hend⟩
    · obtain ⟨ls, rfl, hviable⟩ := hprompt hinner
      exact ⟨⟨.ellipsis, i⟩ :: ls, rfl,
        hviable.behind [⟨.ellipsis, i⟩] fun _ _ hp => ⟨_, .paramVariadic i hp⟩⟩
    · cases hend
  · rename_i label i j later
    rcases bind_eq_error.mp h with hinner | ⟨_, -, hend⟩
    · obtain ⟨ls, rfl, hviable⟩ := hprompt hinner
      exact ⟨⟨.name label, i⟩ :: ⟨.colon, j⟩ :: ls, rfl,
        hviable.behind [⟨.name label, i⟩, ⟨.colon, j⟩] fun _ _ hp => ⟨_, .labelled label i j hp⟩⟩
    · cases hend
  · obtain ⟨ls, hls, hviable⟩ := prompt_optionalUnion hsound hprompt h
    exact ⟨ls, hls, hviable.behind [] fun _ p hp => ⟨p, .param hp⟩⟩

omit hsound hprompt in
theorem viable_field : Viable .field [] := by
  have hlexeme : (Token.name "a").Lexeme := ⟨⟨'a', [], rfl, by decide, .nil⟩, by decide⟩
  exact (Derives.key (l := ⟨.name "a", 0⟩) rfl).viable (List.nil_append _) (.one _ 0 hlexeme)

theorem prompt_fieldOf : Prompt .field (fieldOf inside) := by
  intro tokens rest h
  cases tokens with
  | nil =>
    cases h
    exact ⟨[], rfl, viable_field⟩
  | cons l later =>
    by_cases hkey : l.token.isKey = true
    · rw [fieldOf_cons inside hkey] at h
      split at h
      · rename_i j after
        rcases bind_eq_error.mp h with hinner | ⟨_, -, hend⟩
        · obtain ⟨ls, rfl, hviable⟩ := prompt_optionalUnion hsound hprompt hinner
          exact ⟨l :: ⟨.colon, j⟩ :: ls, rfl,
            hviable.behind [l, ⟨.colon, j⟩] fun _ _ hp => ⟨_, .field j hkey hp⟩⟩
        · cases hend
      · cases h
    · have hrest : l :: later = rest := by
        obtain ⟨token, i⟩ := l
        cases token <;> first | exact absurd rfl hkey | (cases h; rfl)
      exact ⟨[], hrest, viable_field⟩

theorem prompt_named {base : String} {tokens rest : List Located}
    (h : named inside base tokens = .error rest) (i : ℕ) :
    ∃ ls, ⟨.name base, i⟩ :: tokens = ls ++ rest ∧ Viable .basic ls := by
  have happlication : ∀ (dotted : Bool) {j : ℕ} {later : List Located},
      listed .greater (unionOf inside) later = .error rest →
      ∃ ls, ⟨.name base, i⟩ :: ⟨angle dotted, j⟩ :: later = ls ++ rest ∧ Viable .basic ls := by
    intro dotted j later hlater
    obtain ⟨ls, rfl, hviable⟩ :=
      prompt_listed .greater trivial (sound_unionOf hsound) (prompt_unionOf hsound hprompt) hlater
    exact ⟨⟨.name base, i⟩ :: ⟨angle dotted, j⟩ :: ls, rfl,
      hviable.behind [⟨.name base, i⟩, ⟨angle dotted, j⟩] fun _ _ k hparts =>
        ⟨_, .application base dotted i j k hparts.1 hparts.2⟩⟩
  rw [named.eq_def] at h
  split at h
  · rcases bind_eq_error.mp h with hinner | ⟨_, -, hend⟩
    · exact happlication true hinner
    · cases hend
  · rcases bind_eq_error.mp h with hinner | ⟨_, -, hend⟩
    · exact happlication false hinner
    · cases hend
  · cases h

theorem prompt_functionTail {tokens rest : List Located}
    (h : functionTail inside tokens = .error rest) (i : ℕ) :
    ∃ ls, ⟨.function, i⟩ :: tokens = ls ++ rest ∧ Viable .basic ls := by
  rw [functionTail] at h
  rcases bind_eq_error.mp h with hexpect | ⟨⟨u, after⟩, hopen, hlist⟩
  · obtain rfl := error_of_expect hexpect
    have hempty : Derives .basic [⟨.function, i⟩, ⟨.openParen, 0⟩, ⟨.closeParen, 0⟩] _ :=
      .function i 0 0 (List.forall_mem_nil _) .nil
    exact ⟨[⟨.function, i⟩], rfl, hempty.viable rfl
      ((Writable.one .openParen 0 trivial).append (.one .closeParen 0 trivial))⟩
  obtain ⟨j, rfl⟩ := of_expect hopen
  rcases bind_eq_error.mp hlist with hparams | ⟨⟨ps, after'⟩, hps, hend⟩
  · obtain ⟨ls, rfl, hviable⟩ :=
      prompt_listed .closeParen trivial (sound_param hsound) (prompt_param hsound hprompt) hparams
    exact ⟨⟨.function, i⟩ :: ⟨.openParen, j⟩ :: ls, rfl,
      hviable.behind [⟨.function, i⟩, ⟨.openParen, j⟩] fun _ _ k hparts =>
        ⟨_, .function i j k hparts.1 hparts.2⟩⟩
  obtain ⟨parts, ls, k, rfl, ⟨hparts, hjoined⟩, rfl⟩ := sound_listed (sound_param hsound) hps
  simp only at hend
  split at hend
  · rename_i m later
    rcases bind_eq_error.mp hend with hinner | ⟨_, -, hend⟩
    · obtain ⟨ls', rfl, more, p, hmore, hderives⟩ := hprompt hinner
      exact ⟨⟨.function, i⟩ :: ⟨.openParen, j⟩ :: (ls ++ ⟨.closeParen, k⟩ :: ⟨.colon, m⟩ :: ls'),
        by simp, (Derives.functionTo i j k m hparts hjoined hderives).viable (by simp) hmore⟩
    · cases hend
  · cases hend

omit hsound hprompt in
theorem viable_basic : Viable .basic [] :=
  (Derives.all 0).viable (List.nil_append _) (.one .star 0 trivial)

theorem prompt_basic : Prompt .basic (basic inside) := by
  intro tokens rest h
  cases tokens with
  | nil =>
    cases h
    exact ⟨[], rfl, viable_basic⟩
  | cons l later =>
    obtain ⟨token, i⟩ := l
    rw [basic] at h
    cases token with
    | star => cases h
    | openParen =>
      have hgroup : ∀ {ls : List Located}, ViableParts .bar .type ls →
          Viable .basic (⟨.openParen, i⟩ :: ls) := by
        rintro ls ⟨more, parts, hmore, hne, hparts, hjoined⟩
        exact (Derives.group i 0 hne hparts hjoined).viable (by simp)
          (hmore.append (.one .closeParen 0 trivial))
      rcases bind_eq_error.mp h with hmembers | ⟨⟨ps, after⟩, hps, hclose⟩
      · obtain ⟨ls, rfl, hviable⟩ := prompt_separated hsound hprompt hmembers
        exact ⟨⟨.openParen, i⟩ :: ls, rfl, hgroup hviable⟩
      rcases bind_eq_error.mp hclose with hinner | ⟨_, -, hend⟩
      · obtain ⟨parts, ls, rfl, hne, hparts, -⟩ := sound_separated hsound hps
        obtain rfl := error_of_expect hinner
        refine ⟨⟨.openParen, i⟩ :: ls, rfl, hgroup ⟨[], parts, List.forall_mem_nil _, hne, ?_⟩⟩
        rwa [List.append_nil]
      · cases hend
    | openBracket =>
      rcases bind_eq_error.mp h with hinner | ⟨_, -, hend⟩
      · obtain ⟨ls, rfl, hviable⟩ :=
          prompt_listed .closeBracket trivial (sound_unionOf hsound)
            (prompt_unionOf hsound hprompt) hinner
        exact ⟨⟨.openBracket, i⟩ :: ls, rfl,
          hviable.behind [⟨.openBracket, i⟩] fun _ _ k hparts =>
            ⟨_, .tuple i k hparts.1 hparts.2⟩⟩
      · cases hend
    | openBrace =>
      rcases bind_eq_error.mp h with hinner | ⟨_, -, hend⟩
      · obtain ⟨ls, rfl, hviable⟩ :=
          prompt_listed .closeBrace trivial (sound_fieldOf hsound)
            (prompt_fieldOf hsound hprompt) hinner
        exact ⟨⟨.openBrace, i⟩ :: ls, rfl,
          hviable.behind [⟨.openBrace, i⟩] fun _ _ k hparts =>
            ⟨_, .record i k hparts.1 hparts.2⟩⟩
      · cases hend
    | function => exact prompt_functionTail hsound hprompt h i
    | name base => exact prompt_named hsound hprompt h i
    | _ =>
      cases h
      exact ⟨[], rfl, viable_basic⟩

theorem prompt_typeOf (hmarks : ∀ ⦃tokens p rest⦄, inside tokens = .ok (p, rest) → Unmarked rest) :
    Prompt .type (typeOf inside) := by
  intro tokens rest h
  have hlead : ∀ (mark : Lead) {i : ℕ} {later : List Located}, inside later = .error rest →
      ∃ ls, ⟨mark.token, i⟩ :: later = ls ++ rest ∧ Viable .type ls := by
    intro mark i later hlater
    obtain ⟨ls, rfl, hviable⟩ := hprompt hlater
    exact ⟨⟨mark.token, i⟩ :: ls, rfl,
      hviable.behind [⟨mark.token, i⟩] fun _ _ hp => ⟨_, .lead mark i hp⟩⟩
  rw [typeOf.eq_def] at h
  split at h
  · split_ifs at h
    rcases bind_eq_error.mp h with hinner | ⟨_, -, hend⟩
    · exact hlead .question hinner
    · cases hend
  · rcases bind_eq_error.mp h with hinner | ⟨_, -, hend⟩
    · exact hlead .bang hinner
    · cases hend
  · rcases bind_eq_error.mp h with hbasic | ⟨⟨inner, after⟩, hinner, htrails⟩
    · obtain ⟨ls, hls, hviable⟩ := prompt_basic hsound hprompt hbasic
      exact ⟨ls, hls, hviable.behind [] fun _ p hp => ⟨p, .postfixed (.basic hp)⟩⟩
    · obtain ⟨⟨ls, rfl, hderives⟩, hresult⟩ := sound_basic hsound hmarks hinner
      obtain ⟨ls', hls', hviable⟩ := prompt_trails htrails (.basic hderives) hresult
      exact ⟨ls', hls', hviable.behind [] fun _ p hp => ⟨p, .postfixed hp⟩⟩

end

theorem prompt_typeWithin (depth : ℕ) : Prompt .type (typeWithin depth) := by
  induction depth with
  | zero =>
    intro tokens rest h
    cases h
    exact ⟨[], rfl, viable_basic.behind [] fun _ p hp => ⟨p, .postfixed (.basic hp)⟩⟩
  | succ depth ih =>
    exact prompt_typeOf (fun _ _ _ h => (sound_typeWithin depth h).1) ih
      fun _ _ _ h => (sound_typeWithin depth h).2

/-- **The reader of whole expressions** fails where its tokens stop being viable. -/
theorem prompt_root : Prompt .root root := by
  intro tokens rest h
  have hsound : Sound .type (typeWithin (tokens.length + 1)) :=
    fun _ _ _ h => (sound_typeWithin _ h).1
  have hprompt := prompt_typeWithin (tokens.length + 1)
  rw [root.eq_def] at h
  simp only at h
  split at h
  · rename_i i later
    split_ifs at h
    rcases bind_eq_error.mp h with hinner | ⟨_, -, hend⟩
    · obtain ⟨ls, rfl, hviable⟩ := prompt_unionOf hsound hprompt hinner
      exact ⟨⟨.ellipsis, i⟩ :: ls, rfl,
        hviable.behind [⟨.ellipsis, i⟩] fun _ _ hp => ⟨_, .rootVariadic i hp⟩⟩
    · cases hend
  · obtain ⟨ls, hls, hviable⟩ := prompt_optionalUnion hsound hprompt h
    exact ⟨ls, hls, hviable.behind [] fun _ p hp => ⟨p, .root hp⟩⟩

/-! ## Texts that go on -/

/-- Tokens with a blank in front of each. -/
def spaced (ts : List Token) : List Char := ts.flatMap fun t => ' ' :: t.text.toList

variable {n : ℕ} {s : List Char} {ls later rest : List Located} {ts : List Token}

theorem Token.ends_spaced (t : Token) (ts : List Token) : t.Ends (spaced ts) := by
  cases ts with
  | nil => exact t.ends_nil
  | cons next ts => exact t.ends_space rfl _

theorem exists_lexes_spaced (h : ∀ t ∈ ts, t.Lexeme) (n : ℕ) :
    ∃ ls, ls.map Located.token = ts ∧ Lexes n (spaced ts) ls := by
  induction ts generalizing n with
  | nil => exact ⟨[], rfl, .nil n⟩
  | cons t ts ih =>
    rw [List.forall_mem_cons] at h
    obtain ⟨ls, hls, hlexes⟩ := ih h.2 (n + 1 + t.text.length)
    exact ⟨⟨t, n + 1⟩ :: ls, congrArg (t :: ·) hls,
      .space rfl (.token h.1 (t.ends_spaced ts) hlexes)⟩

/-! ## Errors -/

namespace SyntaxError.Cause

/-- A cause that the grammar gives, and not the labels or keys of a phrase. -/
def isSyntactic : SyntaxError.Cause → Bool
  | .character _ | .token _ | .endOfInput => true
  | .empty | .label _ | .key _ => false

/-- What is at fault stands in front of a text. -/
def Fronts (s : List Char) : SyntaxError.Cause → Prop
  | .character c => s.head? = some c
  | .token t => t.text.toList <+: s
  | .endOfInput => s = []
  | .empty | .label _ | .key _ => False

end SyntaxError.Cause

/-- A meaning that is missing for the sake of a label or a key. -/
def Lawful {α : Type} (x : Except Fault α) : Prop :=
  ∀ fault, x = .error fault → fault.1.isSyntactic = false

theorem Lawful.ok {α : Type} (a : α) : Lawful (.ok a : Except Fault α) := nofun

theorem Lawful.bind {α β : Type} {x : Except Fault α} (hx : Lawful x) {f : α → Except Fault β}
    (hf : ∀ a, Lawful (f a)) : Lawful (x >>= f) := by
  intro fault h
  rcases bind_eq_error.mp h with h | ⟨a, -, h⟩
  · exact hx fault h
  · exact hf a fault h

theorem Lawful.map {α β : Type} {x : Except Fault α} (hx : Lawful x) (f : α → β) :
    Lawful (x >>= fun a => .ok (f a)) := hx.bind fun a => .ok (f a)

theorem lawful_keyOf (l : Located) : Lawful (keyOf l) := by
  intro fault h
  obtain ⟨token, i⟩ := l
  cases token with
  | name text =>
    simp only [keyOf] at h
    split_ifs at h
    cases h
    rfl
  | _ => cases h

theorem lawful_paramsOf_cons {p : Phrase} {ps : List Phrase} (hp : Lawful p.meaning)
    (hps : Lawful (paramsOf ps)) : Lawful (paramsOf (p :: ps)) := by
  cases p with
  | labelled label position inner =>
    rw [meaning] at hp
    rw [paramsOf]
    refine hp.bind fun t => ?_
    split_ifs
    · intro fault h
      cases h
      rfl
    · exact hps.map _
    · exact hps.map _
  | _ =>
    rw [paramsOf]
    · exact hp.bind fun _ => hps.map _
    · exact fun _ _ _ h => Phrase.noConfusion h

mutual

theorem lawful_meaning : ∀ p : Phrase, Lawful p.meaning
  | .name _ | .all | .unknown | .bareEllipsis => by
    rw [meaning]
    exact .ok _
  | .group ps | .tuple ps | .record ps | .application _ _ ps | .union ps => by
    rw [meaning]
    exact (lawful_meanings ps).map _
  | .function ps => by
    rw [meaning]
    exact (lawful_paramsOf ps).map _
  | .functionTo ps result => by
    rw [meaning]
    exact (lawful_paramsOf ps).bind fun _ => (lawful_meaning result).map _
  | .lead mark inner => by
    rw [meaning_lead]
    exact (lawful_meaning inner).map _
  | .trail inner mark => by
    rw [meaning_trail]
    exact (lawful_meaning inner).map _
  | .optional inner | .variadic inner => by
    rw [meaning]
    exact (lawful_meaning inner).map _
  | .labelled _ _ inner => by
    rw [meaning]
    exact lawful_meaning inner
  | .key l => by
    rw [meaning]
    exact (lawful_keyOf l).map _
  | .field l value => by
    rw [meaning]
    exact (lawful_keyOf l).bind fun _ => (lawful_meaning value).map _

theorem lawful_meanings : ∀ ps : List Phrase, Lawful (meanings ps)
  | [] => .ok _
  | p :: ps => by
    rw [meanings]
    exact (lawful_meaning p).bind fun _ => (lawful_meanings ps).map _

theorem lawful_paramsOf : ∀ ps : List Phrase, Lawful (paramsOf ps)
  | [] => .ok _
  | p :: ps => lawful_paramsOf_cons (lawful_meaning p) (lawful_paramsOf ps)

end

theorem SyntaxError.at_text (text : String) (ending : Ending) (rest : List Located) :
    (SyntaxError.at text ending rest).text = text := by
  cases rest <;> cases ending <;> rfl

/-- The text before the place that an error tells has its own tokens, and what is at fault stands
right behind it. -/
theorem exists_before {text : String} : ∀ {fuel n : ℕ} {s : List Char} {ls rest : List Located}
    {ending : Ending}, Scan.from fuel n s = ⟨ls ++ rest, ending⟩ → s.length ≤ fuel →
    text.length = n + s.length →
    ∃ before after, s = before ++ after ∧ Lexes n before ls ∧
      (SyntaxError.at text ending rest).position = n + before.length ∧
      (SyntaxError.at text ending rest).cause.Fronts after
  | fuel, n, [], ls, rest, ending, h, _, htext => by
    have hnil : Scan.from fuel n [] = ⟨[], .endOfText⟩ := by cases fuel <;> rfl
    obtain ⟨hls, rfl⟩ := Scan.mk.inj (hnil.symm.trans h)
    obtain ⟨rfl, rfl⟩ := List.append_eq_nil_iff.mp hls.symm
    exact ⟨[], [], rfl, .nil n, htext, rfl⟩
  | 0, _, _ :: _, _, _, _, _, hfuel, _ => absurd hfuel (Nat.not_succ_le_zero _)
  | fuel + 1, n, c :: s, ls, rest, ending, h, hfuel, htext => by
    rw [List.length_cons] at hfuel htext
    rw [Scan.from] at h
    split_ifs at h with hc
    · have hshift : text.length = n + 1 + s.length := by omega
      obtain ⟨before, after, rfl, hlexes, hposition, hfronts⟩ :=
        exists_before h (Nat.le_of_succ_le_succ hfuel) hshift
      refine ⟨c :: before, after, rfl, .space hc hlexes, ?_, hfronts⟩
      rw [hposition, List.length_cons]
      omega
    split at h
    · obtain ⟨hls, rfl⟩ := Scan.mk.inj h
      obtain ⟨rfl, rfl⟩ := List.append_eq_nil_iff.mp hls.symm
      exact ⟨[], c :: s, rfl, .nil n, rfl, rfl⟩
    · rename_i t after hread
      obtain ⟨hs, ht, hends⟩ := Token.read?_spec hread
      obtain ⟨hls, hending⟩ := Scan.mk.inj h
      cases ls with
      | nil =>
        -- The error tells this token.
        obtain rfl : _ = rest := hls
        exact ⟨[], c :: s, rfl, .nil n, rfl, ⟨after, hs.symm⟩⟩
      | cons l ls =>
        obtain ⟨rfl, htokens⟩ := List.cons.inj hls
        have hlength := congrArg List.length hs
        have hpos := List.length_pos_iff.mpr (Token.text_ne_nil ht)
        rw [List.length_cons, List.length_append, String.length_toList] at hlength
        rw [String.length_toList] at hpos
        have hscan : Scan.from fuel (n + t.text.length) after = ⟨ls ++ rest, ending⟩ :=
          congrArg₂ Scan.mk htokens hending
        have hshift : text.length = n + t.text.length + after.length := by omega
        obtain ⟨before, later, rfl, hlexes, hposition, hfronts⟩ :=
          exists_before hscan (by omega) hshift
        refine ⟨t.text.toList ++ before, later, ?_, .token ht hends.of_append hlexes, ?_, hfronts⟩
        · rw [hs, List.append_assoc]
        · rw [hposition, List.length_append, String.length_toList, Nat.add_assoc]

/-- What the reader of texts has passed over before an error is viable. -/
theorem exists_viable {text : String} {e : SyntaxError} (h : readPhrase text = .error e) :
    ∃ ls rest, (Scan.ofText text.toList).tokens = ls ++ rest ∧ Viable .root ls ∧
      e = .at text (Scan.ofText text.toList).ending rest := by
  cases hroot : root (Scan.ofText text.toList).tokens with
  | error rest =>
    obtain ⟨ls, hls, hviable⟩ := prompt_root hroot
    rw [readPhrase_of_root_error rfl hroot] at h
    exact ⟨ls, rest, hls, hviable, (Except.error.inj h).symm⟩
  | ok read =>
    obtain ⟨p, rest⟩ := read
    obtain ⟨ls, hls, hderives⟩ := sound_root hroot
    refine ⟨ls, rest, hls, hderives.viable (List.append_nil _) (List.forall_mem_nil _), ?_⟩
    rw [readPhrase, hroot] at h
    split at h
    · cases h
    · rename_i hread _
      obtain ⟨-, rfl⟩ := Prod.mk.inj (Except.ok.inj hread)
      exact (Except.error.inj h).symm
    · rename_i hread
      cases hread

/-- A text whose tokens are viable goes on to one that the grammar accepts. -/
theorem exists_accepted {s : List Char} {ls : List Located} (h : Lexes 0 s ls)
    (hviable : Viable .root ls) :
    ∃ tail p, readPhrase (Text.strip (String.ofList (s ++ tail))) = .ok p := by
  obtain ⟨more, p, hmore, hderives⟩ := hviable
  obtain ⟨later, htokens, hlater⟩ :=
    exists_lexes_spaced (List.forall_mem_map.mpr hmore) (0 + s.length)
  obtain ⟨all, hall, hsame⟩ := (h.append (Token.ends_spaced · _) hlater).trim
  have hkinds : SameTokens (ls ++ more) all := by
    rw [SameTokens, hsame, List.map_append, List.map_append, htokens]
  obtain ⟨p', hderives', -⟩ := movable_of_derives hderives all hkinds.kinds
  refine ⟨spaced (more.map Located.token), p', readPhrase_eq_ok_iff.mpr ⟨all, ?_, hderives'⟩⟩
  rwa [Text.strip, String.toList_ofList, String.toList_ofList]

/-- **The error of a text** that the grammar refuses tells the first offence in it: the place is in
the text, what is at fault stands there, and what is before it goes on to a text that the grammar
accepts. -/
theorem parse_error_first {text : String} {e : SyntaxError} (h : parse text = .error e)
    (hcause : e.cause.isSyntactic = true) :
    e.text = Text.strip text ∧ e.position ≤ e.text.length ∧
      (e.cause = .endOfInput → e.position = e.text.length) ∧
      e.cause.Fronts (e.text.toList.drop e.position) ∧
      ∃ tail p, readPhrase
        (Text.strip (String.ofList (e.text.toList.take e.position ++ tail))) = .ok p := by
  have hread : readPhrase (Text.strip text) = .error e := by
    rw [parse] at h
    split_ifs at h
    · cases h
      cases hcause
    rcases bind_eq_error.mp h with h | ⟨p, -, hmeaning⟩
    · exact h
    split at hmeaning
    · cases hmeaning
    · rename_i fault
      cases hmeaning
      have hlabel := lawful_meaning p _ fault
      exact absurd (hlabel.symm.trans hcause) Bool.noConfusion
  obtain ⟨ls, rest, htokens, hviable, he⟩ := exists_viable hread
  have hscan : Scan.from (Text.strip text).toList.length 0 (Text.strip text).toList =
      ⟨ls ++ rest, (Scan.ofText (Text.strip text).toList).ending⟩ := by
    rw [← htokens]
    rfl
  have hlength : (Text.strip text).length = 0 + (Text.strip text).toList.length := by
    rw [String.length_toList, Nat.zero_add]
  obtain ⟨before, after, hsplit, hlexes, hposition, hfronts⟩ :=
    exists_before hscan (Nat.le_refl _) hlength
  have htext : e.text = Text.strip text := by rw [he, SyntaxError.at_text]
  rw [← he, Nat.zero_add] at hposition
  rw [← he] at hfronts
  have htake : (Text.strip text).toList.take before.length = before := by
    rw [hsplit, List.take_left]
  have hdrop : (Text.strip text).toList.drop before.length = after := by
    rw [hsplit, List.drop_left]
  have hall : (Text.strip text).length = before.length + after.length := by
    rw [← String.length_toList, hsplit, List.length_append]
  rw [htext, hposition, htake, hdrop, hall]
  refine ⟨rfl, Nat.le_add_right _ _, fun hend => ?_, hfronts, exists_accepted hlexes hviable⟩
  rw [hend] at hfronts
  have hnil : after = [] := hfronts
  rw [hnil, List.length_nil, Nat.add_zero]

theorem parse_error_first_argument :
    parse " function(a.<b, ?c d) " =
        .error ⟨.token (.name "d"), "function(a.<b, ?c d)", 18⟩ ∧
      ∃ tail p, readPhrase (Text.strip (String.ofList
        ("function(a.<b, ?c d)".toList.take 18 ++ tail))) = .ok p := by
  have hstrip : Text.strip " function(a.<b, ?c d) " = "function(a.<b, ?c d)" := by decide
  have hscan : Scan.ofText "function(a.<b, ?c d)".toList =
      ⟨[⟨.function, 0⟩, ⟨.openParen, 8⟩, ⟨.name "a", 9⟩, ⟨.dotLess, 10⟩, ⟨.name "b", 12⟩,
        ⟨.comma, 13⟩, ⟨.question, 15⟩, ⟨.name "c", 16⟩, ⟨.name "d", 18⟩, ⟨.closeParen, 19⟩],
        .endOfText⟩ := by
    decide
  have hroot : root [⟨.function, 0⟩, ⟨.openParen, 8⟩, ⟨.name "a", 9⟩, ⟨.dotLess, 10⟩,
      ⟨.name "b", 12⟩, ⟨.comma, 13⟩, ⟨.question, 15⟩, ⟨.name "c", 16⟩, ⟨.name "d", 18⟩,
      ⟨.closeParen, 19⟩] = .error [⟨.name "d", 18⟩, ⟨.closeParen, 19⟩] := by
    cbv
  have hread : readPhrase "function(a.<b, ?c d)" =
      .error ⟨.token (.name "d"), "function(a.<b, ?c d)", 18⟩ :=
    readPhrase_of_root_error hscan hroot
  have hparse : parse " function(a.<b, ?c d) " =
      .error ⟨.token (.name "d"), "function(a.<b, ?c d)", 18⟩ := by
    simp [parse, hstrip, hread]
  exact ⟨hparse, (parse_error_first hparse rfl).2.2.2.2⟩

end Ambient.TypeExpr
