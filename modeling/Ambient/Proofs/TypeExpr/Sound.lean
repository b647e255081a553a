import Ambient.Proofs.TypeExpr.Derivation

/-!
# What the readers read is derived

Each reader takes a stretch from the front of the tokens and leaves the rest as it is, and the
grammar derives the phrase from that stretch.

* `Sound`: what a reader reads, a rule derives;
* `Unmarked`: after a type no mark is left over, so that a mark is never put on a function type
  with a result;
* **`sound_typeWithin`**, **`sound_root`**: the readers of types and of whole expressions.
-/

namespace Ambient.TypeExpr

open Phrase

/-- Where a reader succeeds, it has taken tokens that a rule derives its phrase from. -/
def Sound (rule : Rule) (reader : Reader Phrase) : Prop :=
  ∀ ⦃tokens : List Located⦄ ⦃p : Phrase⦄ ⦃rest : List Located⦄,
    reader tokens = .ok (p, rest) → ∃ ls, tokens = ls ++ rest ∧ Derives rule ls p

/-- A token that a mark after a type starts with. -/
def Token.isMark : Token → Bool
  | .question | .bang | .openBracket => true
  | _ => false

/-- No mark stands here. -/
def Unmarked (rest : List Located) : Prop := ∀ l ∈ rest.head?, l.token.isMark = false

theorem unmarked_of_starts {rest : List Located} (h : starts rest = false) : Unmarked rest := by
  intro l hl
  cases rest with
  | nil => cases hl
  | cons first rest =>
    cases hl
    rw [starts] at h
    cases hfirst : l.token <;> rw [hfirst] at h <;> first | rfl | cases h

/-! ## Tokens and lists -/

theorem of_expect {t : Token} {tokens rest : List Located} {u : Unit}
    (h : expect t tokens = .ok (u, rest)) : ∃ i, tokens = ⟨t, i⟩ :: rest := by
  cases tokens with
  | nil => cases h
  | cons l later =>
    rw [expect] at h
    split_ifs at h with hl
    cases h
    exact ⟨l.position, by rw [← hl]⟩

/-- Several phrases of one rule with a separator between each two, and the tokens of them all. -/
def Parts (sep : Token) (rule : Rule) (parts : List (List Located × Phrase)) (ls : List Located) :
    Prop :=
  (∀ part ∈ parts, Derives rule part.1 part.2) ∧ Joined sep (parts.map Prod.fst) ls

theorem Parts.nil (sep : Token) (rule : Rule) : Parts sep rule [] [] :=
  ⟨fun _ hpart => (nomatch hpart), .nil⟩

theorem Parts.one {sep : Token} {rule : Rule} {ls : List Located} {p : Phrase}
    (h : Derives rule ls p) : Parts sep rule [(ls, p)] ls :=
  ⟨List.forall_mem_singleton.mpr h, .one ls⟩

theorem Parts.more {sep : Token} {rule : Rule} {ls tail : List Located} {p : Phrase}
    {parts : List (List Located × Phrase)} (i : ℕ) (h : Derives rule ls p) (hne : parts ≠ [])
    (hparts : Parts sep rule parts tail) :
    Parts sep rule ((ls, p) :: parts) (ls ++ ⟨sep, i⟩ :: tail) := by
  obtain ⟨next, later, rfl⟩ := List.exists_cons_of_ne_nil hne
  exact ⟨List.forall_mem_cons.mpr ⟨h, hparts.1⟩, .more i hparts.2⟩

theorem sound_separated {sep : Token} {rule : Rule} {part : Reader Phrase}
    (hpart : Sound rule part) :
    ∀ {fuel : ℕ} {tokens rest : List Located} {ps : List Phrase},
      separated sep part fuel tokens = .ok (ps, rest) →
      ∃ parts ls, tokens = ls ++ rest ∧ parts ≠ [] ∧ Parts sep rule parts ls ∧
        ps = parts.map Prod.snd := by
  intro fuel
  induction fuel with
  | zero =>
    intro tokens rest ps h
    rw [separated] at h
    obtain ⟨⟨p, after⟩, hp, h⟩ := bind_eq_ok.mp h
    cases h
    obtain ⟨ls, hls, hderives⟩ := hpart hp
    exact ⟨[(ls, p)], ls, hls, List.cons_ne_nil _ _, .one hderives, rfl⟩
  | succ fuel ih =>
    intro tokens rest ps h
    rw [separated] at h
    obtain ⟨⟨p, after⟩, hp, hafter⟩ := bind_eq_ok.mp h
    obtain ⟨ls, rfl, hderives⟩ := hpart hp
    cases after with
    | nil =>
      cases hafter
      exact ⟨[(ls, p)], ls, rfl, List.cons_ne_nil _ _, .one hderives, rfl⟩
    | cons l after =>
      simp only at hafter
      split_ifs at hafter with hl
      · obtain ⟨⟨later, rest'⟩, hlater, hall⟩ := bind_eq_ok.mp hafter
        cases hall
        obtain ⟨parts, tail, rfl, hne, hparts, rfl⟩ := ih hlater
        refine ⟨(ls, p) :: parts, ls ++ ⟨sep, l.position⟩ :: tail, ?_, List.cons_ne_nil _ _,
          .more _ hderives hne hparts, rfl⟩
        rw [List.append_assoc, List.cons_append, ← hl]
      · cases hafter
        exact ⟨[(ls, p)], ls, rfl, List.cons_ne_nil _ _, .one hderives, rfl⟩

theorem sound_listed {close : Token} {rule : Rule} {part : Reader Phrase} (hpart : Sound rule part)
    {tokens rest : List Located} {ps : List Phrase}
    (h : listed close part tokens = .ok (ps, rest)) :
    ∃ parts ls i, tokens = ls ++ ⟨close, i⟩ :: rest ∧ Parts .comma rule parts ls ∧
      ps = parts.map Prod.snd := by
  cases tokens with
  | nil => cases h
  | cons l later =>
    rw [listed] at h
    split_ifs at h with hl
    · cases h
      exact ⟨[], [], l.position, by rw [← hl]; rfl, .nil _ _, rfl⟩
    · obtain ⟨⟨ps', after⟩, hps, h⟩ := bind_eq_ok.mp h
      obtain ⟨⟨u, rest'⟩, hclose, h⟩ := bind_eq_ok.mp h
      cases h
      obtain ⟨parts, ls, htokens, -, hparts, rfl⟩ := sound_separated hpart hps
      obtain ⟨i, rfl⟩ := of_expect hclose
      exact ⟨parts, ls, i, htokens, hparts, rfl⟩

/-! ## The rules -/

/-- A mark right after an operand shows that the operand can take it. -/
theorem derives_trail {ls later : List Located} {inner : Phrase} (mark : Trail)
    (marks : List Located) (hmarks : marks.map Located.token = mark.tokens)
    (hls : Derives .postfixed ls inner)
    (hinner : inner.hasResult = true → Unmarked (marks ++ later)) :
    Derives .postfixed (ls ++ marks) (.trail inner mark) := by
  refine .trail mark hls ?_ hmarks
  by_contra hresult
  rw [Bool.not_eq_false] at hresult
  cases marks with
  | nil => cases mark <;> cases hmarks
  | cons l marks =>
    have hl := hinner hresult l rfl
    cases mark <;> · rw [(List.cons.inj hmarks).1] at hl; cases hl

/-- The marks after an operand are put on it, one after the other, and none is left over. -/
theorem sound_trails {inner p : Phrase} {tokens rest : List Located}
    (h : trails inner tokens = .ok (p, rest)) :
    ∀ {ls : List Located}, Derives .postfixed ls inner →
      (inner.hasResult = true → Unmarked tokens) →
      (∃ ls', ls ++ tokens = ls' ++ rest ∧ Derives .postfixed ls' p) ∧ Unmarked rest := by
  fun_induction trails inner tokens with
  | case1 inner i later ih =>
    intro ls hls hinner
    have hmarked := derives_trail .question [⟨.question, i⟩] rfl hls hinner
    simpa using ih h hmarked (fun h => nomatch h)
  | case2 inner i later ih =>
    intro ls hls hinner
    have hmarked := derives_trail .bang [⟨.bang, i⟩] rfl hls hinner
    simpa using ih h hmarked (fun h => nomatch h)
  | case3 inner i j later ih =>
    intro ls hls hinner
    have hmarked := derives_trail .brackets [⟨.openBracket, i⟩, ⟨.closeBracket, j⟩] rfl hls
      hinner
    simpa using ih h hmarked (fun h => nomatch h)
  | case4 => cases h
  | case5 inner tokens hquestion hbang _ hbracket =>
    intro ls hls _
    cases h
    refine ⟨⟨ls, rfl, hls⟩, fun l hl => ?_⟩
    obtain ⟨later, rfl⟩ := List.head?_eq_some_iff.mp hl
    obtain ⟨token, i⟩ := l
    cases token with
    | question => exact absurd rfl (hquestion i later)
    | bang => exact absurd rfl (hbang i later)
    | openBracket => exact absurd rfl (hbracket i later)
    | _ => rfl

theorem fieldOf_cons (inside : Reader Phrase) {l : Located} (hl : l.token.isKey = true)
    (rest : List Located) :
    fieldOf inside (l :: rest) =
      match rest with
      | ⟨.colon, _⟩ :: after => do
        let (value, rest) ← optionalUnion inside after
        .ok (.field l value, rest)
      | _ => .ok (.key l, rest) := by
  obtain ⟨token, i⟩ := l
  cases token <;> first | rfl | cases hl

section

/-! The rules over a reader of the types inside. -/

variable {inside : Reader Phrase} (hinside : Sound .type inside)

include hinside

theorem sound_unionOf : Sound .union (unionOf inside) := by
  intro tokens p rest h
  rw [unionOf] at h
  obtain ⟨⟨ps, after⟩, hps, hp⟩ := bind_eq_ok.mp h
  obtain ⟨parts, ls, rfl, hne, ⟨hparts, hjoined⟩, rfl⟩ := sound_separated hinside hps
  rcases parts with _ | ⟨⟨first, q⟩, _ | ⟨second, later⟩⟩
  · exact absurd rfl hne
  · cases hp
    cases hjoined
    exact ⟨first, rfl, .type (hparts _ List.mem_cons_self)⟩
  · cases hp
    exact ⟨ls, rfl, .union (Nat.le_add_left 2 _) hparts hjoined⟩

theorem sound_optionalUnion : Sound .value (optionalUnion inside) := by
  intro tokens p rest h
  rw [optionalUnion] at h
  obtain ⟨⟨inner, after⟩, hinner, hp⟩ := bind_eq_ok.mp h
  obtain ⟨ls, rfl, hderives⟩ := sound_unionOf hinside hinner
  simp only at hp
  split at hp
  · rename_i i later
    cases hp
    exact ⟨ls ++ [⟨.equals, i⟩], by rw [List.append_assoc]; rfl, .optional i hderives⟩
  · cases hp
    exact ⟨ls, rfl, .plain hderives⟩

theorem sound_param : Sound .param (param inside) := by
  intro tokens p rest h
  rw [param.eq_def] at h
  split at h
  · rename_i i later
    split_ifs at h
    · obtain ⟨⟨inner, after⟩, hinner, hp⟩ := bind_eq_ok.mp h
      cases hp
      obtain ⟨ls, rfl, hderives⟩ := hinside hinner
      exact ⟨⟨.ellipsis, i⟩ :: ls, rfl, .paramVariadic i hderives⟩
    · cases h
      exact ⟨[⟨.ellipsis, i⟩], rfl, .paramEllipsis i⟩
  · rename_i label i j later
    obtain ⟨⟨inner, after⟩, hinner, hp⟩ := bind_eq_ok.mp h
    cases hp
    obtain ⟨ls, rfl, hderives⟩ := hinside hinner
    exact ⟨⟨.name label, i⟩ :: ⟨.colon, j⟩ :: ls, rfl, .labelled label i j hderives⟩
  · obtain ⟨ls, rfl, hderives⟩ := sound_optionalUnion hinside h
    exact ⟨ls, rfl, .param hderives⟩

theorem sound_fieldOf : Sound .field (fieldOf inside) := by
  intro tokens p rest h
  cases tokens with
  | nil => cases h
  | cons l later =>
    have hkey : l.token.isKey = true := by
      obtain ⟨token, i⟩ := l
      cases token <;> first | rfl | cases h
    rw [fieldOf_cons inside hkey] at h
    split at h
    · rename_i j after
      obtain ⟨⟨value, rest'⟩, hvalue, hp⟩ := bind_eq_ok.mp h
      cases hp
      obtain ⟨ls, rfl, hderives⟩ := sound_optionalUnion hinside hvalue
      exact ⟨l :: ⟨.colon, j⟩ :: ls, rfl, .field j hkey hderives⟩
    · cases h
      exact ⟨[l], rfl, .key hkey⟩

theorem sound_named {base : String} {tokens rest : List Located} {p : Phrase}
    (h : named inside base tokens = .ok (p, rest)) (i : ℕ) :
    (∃ ls, ⟨.name base, i⟩ :: tokens = ls ++ rest ∧ Derives .basic ls p) ∧ p.hasResult = false := by
  have happlication : ∀ (dotted : Bool) {j : ℕ} {later after : List Located} {ps : List Phrase},
      listed .greater (unionOf inside) later = .ok (ps, after) →
      ∃ ls, ⟨.name base, i⟩ :: ⟨angle dotted, j⟩ :: later = ls ++ after ∧
        Derives .basic ls (.application base dotted ps) := by
    intro dotted j later after ps hps
    obtain ⟨parts, ls, k, rfl, ⟨hparts, hjoined⟩, rfl⟩ := sound_listed (sound_unionOf hinside) hps
    exact ⟨_, by simp, .application base dotted i j k hparts hjoined⟩
  rw [named.eq_def] at h
  split at h
  · obtain ⟨⟨ps, after⟩, hps, hp⟩ := bind_eq_ok.mp h
    cases hp
    exact ⟨happlication true hps, rfl⟩
  · obtain ⟨⟨ps, after⟩, hps, hp⟩ := bind_eq_ok.mp h
    cases hp
    exact ⟨happlication false hps, rfl⟩
  · cases h
    exact ⟨⟨[⟨.name base, i⟩], rfl, .name base i⟩, rfl⟩

variable (hmarks : ∀ ⦃tokens p rest⦄, inside tokens = .ok (p, rest) → Unmarked rest)

include hmarks

theorem sound_functionTail {tokens rest : List Located} {p : Phrase}
    (h : functionTail inside tokens = .ok (p, rest)) (i : ℕ) :
    (∃ ls, ⟨.function, i⟩ :: tokens = ls ++ rest ∧ Derives .basic ls p) ∧
      (p.hasResult = true → Unmarked rest) := by
  rw [functionTail] at h
  obtain ⟨⟨u, after⟩, hopen, hlist⟩ := bind_eq_ok.mp h
  obtain ⟨⟨ps, after'⟩, hps, hend⟩ := bind_eq_ok.mp hlist
  obtain ⟨j, rfl⟩ := of_expect hopen
  obtain ⟨parts, ls, k, rfl, ⟨hparts, hjoined⟩, rfl⟩ := sound_listed (sound_param hinside) hps
  simp only at hend
  split at hend
  · rename_i m later
    obtain ⟨⟨result, after⟩, hresult, hp⟩ := bind_eq_ok.mp hend
    cases hp
    obtain ⟨ls', rfl, hderives⟩ := hinside hresult
    exact ⟨⟨_, by simp, .functionTo i j k m hparts hjoined hderives⟩, fun _ => hmarks hresult⟩
  · cases hend
    exact ⟨⟨_, by simp, .function i j k hparts hjoined⟩, fun h => nomatch h⟩

theorem sound_basic {tokens rest : List Located} {p : Phrase}
    (h : basic inside tokens = .ok (p, rest)) :
    (∃ ls, tokens = ls ++ rest ∧ Derives .basic ls p) ∧ (p.hasResult = true → Unmarked rest) := by
  cases tokens with
  | nil => cases h
  | cons l later =>
    obtain ⟨token, i⟩ := l
    rw [basic] at h
    cases token with
    | star =>
      cases h
      exact ⟨⟨[⟨.star, i⟩], rfl, .all i⟩, fun h => nomatch h⟩
    | openParen =>
      obtain ⟨⟨ps, after⟩, hps, h⟩ := bind_eq_ok.mp h
      obtain ⟨⟨u, after'⟩, hclose, hp⟩ := bind_eq_ok.mp h
      cases hp
      obtain ⟨parts, ls, rfl, hne, ⟨hparts, hjoined⟩, rfl⟩ := sound_separated hinside hps
      obtain ⟨j, rfl⟩ := of_expect hclose
      exact ⟨⟨_, by simp, .group i j hne hparts hjoined⟩, fun h => nomatch h⟩
    | openBracket =>
      obtain ⟨⟨ps, after⟩, hps, hp⟩ := bind_eq_ok.mp h
      cases hp
      obtain ⟨parts, ls, j, rfl, ⟨hparts, hjoined⟩, rfl⟩ := sound_listed (sound_unionOf hinside) hps
      exact ⟨⟨_, by simp, .tuple i j hparts hjoined⟩, fun h => nomatch h⟩
    | openBrace =>
      obtain ⟨⟨ps, after⟩, hps, hp⟩ := bind_eq_ok.mp h
      cases hp
      obtain ⟨parts, ls, j, rfl, ⟨hparts, hjoined⟩, rfl⟩ := sound_listed (sound_fieldOf hinside) hps
      exact ⟨⟨_, by simp, .record i j hparts hjoined⟩, fun h => nomatch h⟩
    | function => exact sound_functionTail hinside hmarks h i
    | name base =>
      obtain ⟨hls, hresult⟩ := sound_named hinside h i
      exact ⟨hls, fun h => absurd (hresult.symm.trans h) Bool.noConfusion⟩
    | _ => cases h

theorem sound_typeOf {tokens rest : List Located} {p : Phrase}
    (h : typeOf inside tokens = .ok (p, rest)) :
    (∃ ls, tokens = ls ++ rest ∧ Derives .type ls p) ∧ Unmarked rest := by
  have hlead : ∀ (mark : Lead) {i : ℕ} {later after : List Located} {inner : Phrase},
      inside later = .ok (inner, after) →
      (∃ ls, ⟨mark.token, i⟩ :: later = ls ++ after ∧ Derives .type ls (.lead mark inner)) ∧
        Unmarked after := by
    intro mark i later after inner hinner
    obtain ⟨ls, rfl, hderives⟩ := hinside hinner
    exact ⟨⟨⟨mark.token, i⟩ :: ls, rfl, .lead mark i hderives⟩, hmarks hinner⟩
  rw [typeOf.eq_def] at h
  split at h
  · rename_i i later
    split_ifs at h with hstarts
    · obtain ⟨⟨inner, after⟩, hinner, hp⟩ := bind_eq_ok.mp h
      cases hp
      exact hlead .question hinner
    · cases h
      exact ⟨⟨[⟨.question, i⟩], rfl, .unknown i⟩,
        unmarked_of_starts (Bool.not_eq_true _ ▸ hstarts)⟩
  · obtain ⟨⟨inner, after⟩, hinner, hp⟩ := bind_eq_ok.mp h
    cases hp
    exact hlead .bang hinner
  · obtain ⟨⟨inner, after⟩, hinner, hp⟩ := bind_eq_ok.mp h
    obtain ⟨⟨ls, rfl, hderives⟩, hresult⟩ := sound_basic hinside hmarks hinner
    obtain ⟨⟨ls', hls', hderives'⟩, hrest⟩ := sound_trails hp (.basic hderives) hresult
    exact ⟨⟨ls', hls', .postfixed hderives'⟩, hrest⟩

end

/-! ## Types and whole expressions -/

/-- **What the reader of types reads** is derived, and no mark is left over. -/
theorem sound_typeWithin (depth : ℕ) {tokens rest : List Located} {p : Phrase}
    (h : typeWithin depth tokens = .ok (p, rest)) :
    (∃ ls, tokens = ls ++ rest ∧ Derives .type ls p) ∧ Unmarked rest := by
  induction depth generalizing tokens rest p with
  | zero => cases h
  | succ depth ih =>
    exact sound_typeOf (fun _ _ _ h => (ih h).1) (fun _ _ _ h => (ih h).2) h

/-- **What the reader of whole expressions reads** is derived. -/
theorem sound_root : Sound .root root := by
  intro tokens p rest h
  have hinside : Sound .type (typeWithin (tokens.length + 1)) :=
    fun _ _ _ h => (sound_typeWithin _ h).1
  rw [root.eq_def] at h
  simp only at h
  split at h
  · rename_i i later
    split_ifs at h
    · obtain ⟨⟨inner, after⟩, hinner, hp⟩ := bind_eq_ok.mp h
      cases hp
      obtain ⟨ls, rfl, hderives⟩ := sound_unionOf hinside hinner
      exact ⟨⟨.ellipsis, i⟩ :: ls, rfl, .rootVariadic i hderives⟩
    · cases h
      exact ⟨[⟨.ellipsis, i⟩], rfl, .rootEllipsis i⟩
  · obtain ⟨ls, rfl, hderives⟩ := sound_optionalUnion hinside h
    exact ⟨ls, rfl, .root hderives⟩

end Ambient.TypeExpr
