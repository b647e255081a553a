import Ambient.Proofs.TypeExpr.Lexeme
import Ambient.Proofs.TypeExpr.Sound

/-!
# What is derived is read

A phrase that the grammar derives from tokens is the one the readers find in them, whatever may
stand after it. So the tokens of a whole expression have one derivation at most.

* `Rule.follows`, `Before`: the tokens that may stand after what a rule derives;
* `Reads`: what a reader has to do for a phrase that a rule derives;
* `reads_group`, `reads_tuple`, …: it does so for a phrase if it does for its parts;
* **`reads_of_derives`**: so every derivation is read;
* **`root_eq_ok_iff`**, **`parse_eq_ok_iff`**: the reader of tokens and the reader of texts find
  what the grammar derives.
-/

namespace Ambient.TypeExpr

open Phrase

/-- The tokens after an item of a list. -/
def Token.endsItem : Token → Bool
  | .comma | .closeParen | .closeBracket | .closeBrace | .greater => true
  | _ => false

/-- The tokens that may stand after what a rule derives. -/
def Rule.follows : Rule → Token → Bool
  | .root, _ => false
  | .value, t | .param, t | .field, t => t.endsItem
  | .union, t => t.endsItem || t == .equals
  | .type, t => t.endsItem || t == .equals || t == .bar
  | .postfixed, t | .basic, t => t.endsItem || t == .equals || t == .bar || t.isMark

/-- What a rule derives may stand before these tokens. -/
def Before (rule : Rule) (rest : List Located) : Prop :=
  ∀ l ∈ rest.head?, rule.follows l.token = true

theorem before_nil (rule : Rule) : Before rule [] := fun _ hl => nomatch hl

theorem before_cons {rule : Rule} {l : Located} {rest : List Located} :
    Before rule (l :: rest) ↔ rule.follows l.token = true := by
  simp [Before]

theorem Before.union {rest : List Located} (h : Before .value rest) : Before .union rest :=
  fun l hl => by simpa [Rule.follows] using Or.inl (h l hl)

theorem Before.type {rest : List Located} (h : Before .union rest) : Before .type rest :=
  fun l hl => by
    have := h l hl
    simp only [Rule.follows, Bool.or_eq_true] at this ⊢
    exact Or.inl this

theorem Before.basic {rest : List Located} (h : Before .type rest) : Before .basic rest :=
  fun l hl => by
    have := h l hl
    simp only [Rule.follows, Bool.or_eq_true] at this ⊢
    exact Or.inl this

/-! ## Lists -/

theorem Joined.length_le {sep : Token} {lists : List (List Located)} {ls : List Located}
    (h : Joined sep lists ls) : ∀ l ∈ lists, l.length ≤ ls.length := by
  induction h with
  | nil => exact fun l hl => nomatch hl
  | one ls => exact List.forall_mem_singleton.mpr (Nat.le_refl _)
  | more i _ ih =>
    simp only [List.length_append, List.length_cons]
    refine List.forall_mem_cons.mpr ⟨by omega, fun l hl => ?_⟩
    have := ih l hl
    omega

theorem separated_of_joined {sep : Token} {rule : Rule} {part : Reader Phrase}
    (hsep : rule.follows sep = true) {parts : List (List Located × Phrase)} :
    ∀ {ls rest : List Located}, parts ≠ [] →
      (∀ q ∈ parts, ∀ rest, Before rule rest → part (q.1 ++ rest) = .ok (q.2, rest)) →
      Joined sep (parts.map Prod.fst) ls → Before rule rest → (∀ l ∈ rest.head?, l.token ≠ sep) →
      ∀ fuel, ls.length ≤ fuel →
        separated sep part fuel (ls ++ rest) = .ok (parts.map Prod.snd, rest) := by
  induction parts with
  | nil => exact fun hne => absurd rfl hne
  | cons first later ih =>
    intro ls rest _ hparts hjoined hrest hnot fuel hfuel
    rw [List.forall_mem_cons] at hparts
    obtain ⟨hfirst, hlater⟩ := hparts
    rcases later with _ | ⟨second, later⟩
    · cases hjoined
      cases fuel with
      | zero => rw [separated, hfirst rest hrest]; rfl
      | succ fuel =>
        rw [separated, hfirst rest hrest]
        cases rest with
        | nil => rfl
        | cons l rest => exact if_neg (hnot l rfl)
    · cases hjoined with
      | @more _ _ tail _ i hjoined =>
        rw [List.length_append, List.length_cons] at hfuel
        obtain ⟨fuel, rfl⟩ := Nat.exists_eq_add_of_lt (show 0 < fuel by omega)
        have htail := ih (List.cons_ne_nil _ _) hlater hjoined hrest hnot fuel (by omega)
        have hnext := hfirst (⟨sep, i⟩ :: (tail ++ rest)) (before_cons.mpr hsep)
        rw [Nat.zero_add, separated, List.append_assoc, List.cons_append, hnext]
        simp only [ok_bind, if_true, htail, List.map_cons]

theorem listed_of_joined {close : Token} {rule : Rule} {part : Reader Phrase}
    (hcomma : rule.follows .comma = true) (hclose : rule.follows close = true)
    (hne : close ≠ .comma) (hreject : ∀ i later, ∃ e, part (⟨close, i⟩ :: later) = .error e)
    {parts : List (List Located × Phrase)} {ls : List Located}
    (hparts : ∀ q ∈ parts, ∀ rest, Before rule rest → part (q.1 ++ rest) = .ok (q.2, rest))
    (hjoined : Joined .comma (parts.map Prod.fst) ls) (i : ℕ) (rest : List Located) :
    listed close part (ls ++ ⟨close, i⟩ :: rest) = .ok (parts.map Prod.snd, rest) := by
  have hexpect : expect close (⟨close, i⟩ :: rest) = .ok ((), rest) := if_pos rfl
  have hstop : ∀ l ∈ (⟨close, i⟩ :: rest : List Located).head?, l.token ≠ .comma := by
    intro l hl
    cases hl
    exact hne
  rcases parts with _ | ⟨first, later⟩
  · cases hjoined
    exact if_pos rfl
  · cases htokens : ls ++ ⟨close, i⟩ :: rest with
    | nil => exact absurd htokens (List.append_ne_nil_of_right_ne_nil _ (List.cons_ne_nil _ _))
    | cons l tail =>
      have hlength : ls.length ≤ tail.length := by
        have := congrArg List.length htokens
        simp only [List.length_append, List.length_cons] at this
        omega
      have hall := separated_of_joined hcomma (List.cons_ne_nil _ _) hparts hjoined
        (before_cons.mpr hclose) hstop tail.length hlength
      rw [htokens] at hall
      -- The first part is read, so it does not start with the closing token.
      have hl : l.token ≠ close := by
        intro hl
        obtain ⟨e, he⟩ := hreject l.position tail
        rw [← hl] at he
        cases hfuel : tail.length <;>
        · rw [hfuel, separated, he] at hall
          cases hall
      rw [listed, if_neg hl, hall]
      simp only [ok_bind, hexpect]

/-! ## What is no type -/

theorem typeWithin_of_not_starts (d : ℕ) {tokens : List Located} (h : starts tokens = false) :
    typeWithin d tokens = .error tokens := by
  cases d with
  | zero => rfl
  | succ d =>
    cases tokens with
    | nil => rfl
    | cons l rest =>
      obtain ⟨token, i⟩ := l
      cases token <;> first | rfl | cases h

theorem starts_of_typeWithin {d : ℕ} {tokens : List Located} {x : Phrase × List Located}
    (h : typeWithin d tokens = .ok x) : starts tokens = true := by
  by_contra hstarts
  rw [typeWithin_of_not_starts d (Bool.not_eq_true _ ▸ hstarts)] at h
  cases h

theorem starts_of_before {rest : List Located} (h : Before .type rest) : starts rest = false := by
  cases rest with
  | nil => rfl
  | cons l rest =>
    obtain ⟨token, i⟩ := l
    cases token <;> first | rfl | cases h _ rfl

theorem unionOf_of_not_starts (d : ℕ) {tokens : List Located} (h : starts tokens = false) :
    unionOf (typeWithin d) tokens = .error tokens := by
  rw [unionOf]
  cases tokens.length <;> rw [separated, typeWithin_of_not_starts d h] <;> rfl

theorem optionalUnion_of_not_starts (d : ℕ) {tokens : List Located} (h : starts tokens = false) :
    optionalUnion (typeWithin d) tokens = .error tokens := by
  rw [optionalUnion, unionOf_of_not_starts d h]
  rfl

/-- What is read as a value has neither a bare ellipsis nor a label, and is read as a parameter. -/
theorem param_of_optionalUnion {d : ℕ} {tokens rest : List Located} {p : Phrase}
    (h : optionalUnion (typeWithin d) tokens = .ok (p, rest)) (hrest : Before .value rest) :
    param (typeWithin d) tokens = .ok (p, rest) := by
  rw [param.eq_def]
  split
  · rw [optionalUnion_of_not_starts d rfl] at h
    cases h
  · rename_i label i j later
    -- A label would be read as a type, and the colon after it would be left over.
    cases d with
    | zero => cases h
    | succ d =>
      have hname : optionalUnion (typeWithin (d + 1)) (⟨.name label, i⟩ :: ⟨.colon, j⟩ :: later) =
          .ok (.name label, ⟨.colon, j⟩ :: later) := rfl
      cases hname.symm.trans h
      cases hrest _ rfl
  · exact h

theorem root_of_optionalUnion {tokens rest : List Located} {p : Phrase}
    (h : optionalUnion (typeWithin (tokens.length + 1)) tokens = .ok (p, rest)) :
    root tokens = .ok (p, rest) := by
  rw [root.eq_def]
  dsimp only
  split
  · rw [optionalUnion_of_not_starts _ rfl] at h
    cases h
  · exact h

theorem named_of_before {inside : Reader Phrase} (base : String) {rest : List Located}
    (h : Before .basic rest) : named inside base rest = .ok (.name base, rest) := by
  cases rest with
  | nil => rfl
  | cons l rest =>
    obtain ⟨token, i⟩ := l
    cases token <;> first | rfl | cases h _ rfl

theorem trails_of_before (p : Phrase) {rest : List Located} (h : Before .type rest) :
    trails p rest = .ok (p, rest) := by
  cases rest with
  | nil => rfl
  | cons l rest =>
    obtain ⟨token, i⟩ := l
    cases token <;> first | rfl | cases h _ rfl

theorem trails_of_tokens (p : Phrase) (mark : Trail) {marks : List Located}
    (h : marks.map Located.token = mark.tokens) (rest : List Located) :
    trails p (marks ++ rest) = trails (.trail p mark) rest := by
  cases mark with
  | question =>
    obtain ⟨⟨token, i⟩, rfl, rfl⟩ := List.map_eq_singleton_iff.mp h
    rfl
  | bang =>
    obtain ⟨⟨token, i⟩, rfl, rfl⟩ := List.map_eq_singleton_iff.mp h
    rfl
  | brackets =>
    obtain ⟨⟨token, i⟩, later, rfl, rfl, hlater⟩ := List.map_eq_cons_iff.mp h
    obtain ⟨⟨token, j⟩, rfl, rfl⟩ := List.map_eq_singleton_iff.mp hlater
    rfl

/-- A type without marks before it is read by the rule for such types. -/
theorem typeOf_of_basic {inside : Reader Phrase} {tokens rest : List Located} {p : Phrase}
    (h : (basic inside tokens >>= fun q => trails q.1 q.2) = .ok (p, rest)) :
    typeOf inside tokens = .ok (p, rest) := by
  rw [typeOf.eq_def]
  split
  · cases h
  · cases h
  · exact h

/-! ## Every derivation is read -/

/-- A reader that may go a number of types deep finds a phrase in the tokens it is written with, as
long as there are no more of them, whatever may stand after them. -/
def ReadBy (rule : Rule) (reader : ℕ → Reader Phrase) (ls : List Located) (p : Phrase) : Prop :=
  ∀ d rest, ls.length ≤ d → Before rule rest → reader d (ls ++ rest) = .ok (p, rest)

/-- What the reader of a rule has to do for a phrase written with some tokens. -/
def Reads : Rule → List Located → Phrase → Prop
  | .root, ls, p => root ls = .ok (p, [])
  | .value, ls, p => ReadBy .value (fun d => optionalUnion (typeWithin d)) ls p
  | .union, ls, p => ReadBy .union (fun d => unionOf (typeWithin d)) ls p
  | .type, ls, p => ReadBy .type typeWithin ls p
  | .postfixed, ls, p => ∀ d rest, ls.length ≤ d + 1 → Before .postfixed rest →
    (p.hasResult = true → Before .type rest) →
    (basic (typeWithin d) (ls ++ rest) >>= fun q => trails q.1 q.2) = trails p rest
  | .basic, ls, p => ∀ d rest, ls.length ≤ d + 1 → Before .basic rest →
    (p.hasResult = true → Before .type rest) →
    basic (typeWithin d) (ls ++ rest) = .ok (p, rest)
  | .param, ls, p => ReadBy .param (fun d => param (typeWithin d)) ls p
  | .field, ls, p => ReadBy .field (fun d => fieldOf (typeWithin d)) ls p

theorem Derives.ne_nil {rule : Rule} {ls : List Located} {p : Phrase} (h : Derives rule ls p) :
    ls ≠ [] := by
  induction h with
  | trail _ _ _ _ ih | optional _ _ ih => exact List.append_ne_nil_of_left_ne_nil ih _
  | @union parts ls htwo _ hjoined _ =>
    rcases parts with _ | ⟨first, _ | ⟨second, later⟩⟩
    · cases htwo
    · exact absurd htwo (by simp)
    · cases hjoined
      exact List.append_ne_nil_of_right_ne_nil _ (List.cons_ne_nil _ _)
  | basic _ ih | postfixed _ ih | type _ ih | plain _ ih | param _ ih | root _ ih => exact ih
  | _ => exact List.cons_ne_nil _ _

theorem readBy_parts {rule : Rule} {sep : Token} {reader : ℕ → Reader Phrase}
    {parts : List (List Located × Phrase)} {ls : List Located} {d : ℕ}
    (hparts : ∀ q ∈ parts, ReadBy rule reader q.1 q.2)
    (hjoined : Joined sep (parts.map Prod.fst) ls) (hd : ls.length ≤ d) :
    ∀ q ∈ parts, ∀ rest, Before rule rest → reader d (q.1 ++ rest) = .ok (q.2, rest) := by
  intro q hq rest hrest
  exact hparts q hq d rest ((hjoined.length_le q.1 (List.mem_map_of_mem hq)).trans hd) hrest

theorem separated_of_readBy {parts : List (List Located × Phrase)} {ls rest : List Located} {d : ℕ}
    (hne : parts ≠ []) (hparts : ∀ q ∈ parts, ReadBy .type typeWithin q.1 q.2)
    (hjoined : Joined .bar (parts.map Prod.fst) ls) (hd : ls.length ≤ d)
    (hrest : Before .union rest) :
    separated .bar (typeWithin d) (ls ++ rest).length (ls ++ rest) =
      .ok (parts.map Prod.snd, rest) := by
  have hnot : ∀ l ∈ rest.head?, l.token ≠ .bar := by
    intro l hl hbar
    have := hrest l hl
    rw [hbar] at this
    cases this
  have hfuel : ls.length ≤ (ls ++ rest).length := List.length_append ▸ Nat.le_add_right _ _
  have hbar : Rule.type.follows .bar = true := rfl
  have hall := readBy_parts hparts hjoined hd
  exact separated_of_joined hbar hne hall hjoined hrest.type hnot _ hfuel

theorem listed_of_readBy {rule : Rule} {close : Token} (reader : ℕ → Reader Phrase)
    (hcomma : rule.follows .comma = true) (hclose : rule.follows close = true)
    (hne : close ≠ .comma)
    (hreject : ∀ d i later, ∃ e, reader d (⟨close, i⟩ :: later) = .error e)
    {parts : List (List Located × Phrase)} {ls : List Located} {d : ℕ}
    (hparts : ∀ q ∈ parts, ReadBy rule reader q.1 q.2)
    (hjoined : Joined .comma (parts.map Prod.fst) ls) (hd : ls.length ≤ d) (i : ℕ)
    (rest : List Located) :
    listed close (reader d) (ls ++ ⟨close, i⟩ :: rest) = .ok (parts.map Prod.snd, rest) :=
  listed_of_joined hcomma hclose hne (hreject d) (readBy_parts hparts hjoined hd) hjoined i rest

theorem listed_unions (close : Token) (hclose : close.endsItem = true) (hne : close ≠ .comma)
    {parts : List (List Located × Phrase)} {ls : List Located} {d : ℕ}
    (hparts : ∀ q ∈ parts, Reads .union q.1 q.2)
    (hjoined : Joined .comma (parts.map Prod.fst) ls) (hd : ls.length ≤ d) (i : ℕ)
    (rest : List Located) :
    listed close (unionOf (typeWithin d)) (ls ++ ⟨close, i⟩ :: rest) =
      .ok (parts.map Prod.snd, rest) := by
  have hfollows : Rule.union.follows close = true := by rw [Rule.follows, hclose]; rfl
  have hstarts : ∀ i later, starts (⟨close, i⟩ :: later) = false := by
    intro i later
    cases close <;> first | rfl | cases hclose
  exact listed_of_readBy (fun d => unionOf (typeWithin d)) rfl hfollows hne
    (fun d i later => ⟨_, unionOf_of_not_starts d (hstarts i later)⟩) hparts hjoined hd i rest

theorem listed_params {parts : List (List Located × Phrase)} {ls : List Located} {d : ℕ}
    (hparts : ∀ q ∈ parts, Reads .param q.1 q.2)
    (hjoined : Joined .comma (parts.map Prod.fst) ls) (hd : ls.length ≤ d) (i : ℕ)
    (rest : List Located) :
    listed .closeParen (param (typeWithin d)) (ls ++ ⟨.closeParen, i⟩ :: rest) =
      .ok (parts.map Prod.snd, rest) := by
  have hreject : ∀ d i later, param (typeWithin d) (⟨.closeParen, i⟩ :: later) =
      .error (⟨.closeParen, i⟩ :: later) := fun d i later => optionalUnion_of_not_starts d rfl
  exact listed_of_readBy (fun d => param (typeWithin d)) rfl rfl Token.noConfusion
    (fun d i later => ⟨_, hreject d i later⟩) hparts hjoined hd i rest

theorem listed_fields {parts : List (List Located × Phrase)} {ls : List Located} {d : ℕ}
    (hparts : ∀ q ∈ parts, Reads .field q.1 q.2)
    (hjoined : Joined .comma (parts.map Prod.fst) ls) (hd : ls.length ≤ d) (i : ℕ)
    (rest : List Located) :
    listed .closeBrace (fieldOf (typeWithin d)) (ls ++ ⟨.closeBrace, i⟩ :: rest) =
      .ok (parts.map Prod.snd, rest) :=
  listed_of_readBy (fun d => fieldOf (typeWithin d)) rfl rfl Token.noConfusion
    (fun _ _ _ => ⟨_, rfl⟩) hparts hjoined hd i rest

/-! ### The productions

For each of them: if its parts are read, so is the whole. -/

section

variable {parts : List (List Located × Phrase)} {ls : List Located}

theorem reads_group (i j : ℕ) (hne : parts ≠ [])
    (hparts : ∀ part ∈ parts, Reads .type part.1 part.2)
    (hjoined : Joined .bar (parts.map Prod.fst) ls) :
    Reads .basic (⟨.openParen, i⟩ :: (ls ++ [⟨.closeParen, j⟩])) (.group (parts.map Prod.snd)) := by
  intro d rest hd _ _
  simp only [List.length_cons, List.length_append] at hd
  have hclose : Before .union (⟨.closeParen, j⟩ :: rest) := before_cons.mpr rfl
  have hmembers := separated_of_readBy hne hparts hjoined (by omega : ls.length ≤ d) hclose
  rw [List.cons_append, List.append_assoc, basic]
  simp only [List.cons_append, List.nil_append, hmembers, ok_bind, expect, if_true]

theorem reads_tuple (i j : ℕ) (hparts : ∀ part ∈ parts, Reads .union part.1 part.2)
    (hjoined : Joined .comma (parts.map Prod.fst) ls) :
    Reads .basic (⟨.openBracket, i⟩ :: (ls ++ [⟨.closeBracket, j⟩]))
      (.tuple (parts.map Prod.snd)) := by
  intro d rest hd _ _
  simp only [List.length_cons, List.length_append] at hd
  have hitems := listed_unions .closeBracket rfl (by decide) hparts hjoined
    (by omega : ls.length ≤ d) j rest
  rw [List.cons_append, List.append_assoc, basic]
  simp only [List.cons_append, List.nil_append, hitems, ok_bind]

theorem reads_record (i j : ℕ) (hparts : ∀ part ∈ parts, Reads .field part.1 part.2)
    (hjoined : Joined .comma (parts.map Prod.fst) ls) :
    Reads .basic (⟨.openBrace, i⟩ :: (ls ++ [⟨.closeBrace, j⟩]))
      (.record (parts.map Prod.snd)) := by
  intro d rest hd _ _
  simp only [List.length_cons, List.length_append] at hd
  have hfields := listed_fields hparts hjoined (by omega : ls.length ≤ d) j rest
  rw [List.cons_append, List.append_assoc, basic]
  simp only [List.cons_append, List.nil_append, hfields, ok_bind]

theorem reads_application (base : String) (dotted : Bool) (i j k : ℕ)
    (hparts : ∀ part ∈ parts, Reads .union part.1 part.2)
    (hjoined : Joined .comma (parts.map Prod.fst) ls) :
    Reads .basic (⟨.name base, i⟩ :: ⟨angle dotted, j⟩ :: (ls ++ [⟨.greater, k⟩]))
      (.application base dotted (parts.map Prod.snd)) := by
  intro d rest hd _ _
  simp only [List.length_cons, List.length_append] at hd
  have harguments := listed_unions .greater rfl (by decide) hparts hjoined
    (by omega : ls.length ≤ d) k rest
  rw [List.cons_append, List.cons_append, List.append_assoc, basic]
  cases dotted <;>
    simp only [angle, List.cons_append, List.nil_append, named, harguments, ok_bind, if_true,
      Bool.false_eq_true, if_false]

theorem reads_function (i j k : ℕ) (hparts : ∀ part ∈ parts, Reads .param part.1 part.2)
    (hjoined : Joined .comma (parts.map Prod.fst) ls) :
    Reads .basic (⟨.function, i⟩ :: ⟨.openParen, j⟩ :: (ls ++ [⟨.closeParen, k⟩]))
      (.function (parts.map Prod.snd)) := by
  intro d rest hd hrest _
  simp only [List.length_cons, List.length_append] at hd
  have hparams := listed_params hparts hjoined (by omega : ls.length ≤ d) k rest
  rw [List.cons_append, List.cons_append, List.append_assoc, basic]
  simp only [List.cons_append, List.nil_append, functionTail, expect, hparams, ok_bind, if_true]
  split
  · cases hrest _ rfl
  · rfl

theorem reads_functionTo {after : List Located} {result : Phrase} (i j k m : ℕ)
    (hparts : ∀ part ∈ parts, Reads .param part.1 part.2)
    (hjoined : Joined .comma (parts.map Prod.fst) ls) (hafter : Reads .type after result) :
    Reads .basic
      (⟨.function, i⟩ :: ⟨.openParen, j⟩ :: (ls ++ ⟨.closeParen, k⟩ :: ⟨.colon, m⟩ :: after))
      (.functionTo (parts.map Prod.snd) result) := by
  intro d rest hd hrest hresult
  simp only [List.length_cons, List.length_append] at hd
  have hparams := listed_params hparts hjoined (by omega : ls.length ≤ d) k
    (⟨.colon, m⟩ :: (after ++ rest))
  have hread : typeWithin d (after ++ rest) = .ok (result, rest) :=
    hafter d rest (by omega) (hresult rfl)
  simp only [List.cons_append, List.append_assoc, basic, functionTail, expect, hparams, hread,
    ok_bind, if_true]

theorem reads_union (htwo : 2 ≤ parts.length) (hparts : ∀ part ∈ parts, Reads .type part.1 part.2)
    (hjoined : Joined .bar (parts.map Prod.fst) ls) :
    Reads .union ls (.union (parts.map Prod.snd)) := by
  intro d rest hd hrest
  rcases parts with _ | ⟨first, _ | ⟨second, later⟩⟩
  · cases htwo
  · exact absurd htwo (by simp)
  · have hall := separated_of_readBy (List.cons_ne_nil _ _) hparts hjoined hd hrest
    simp only [unionOf, hall, ok_bind, List.map_cons]

end

section

variable {ls : List Located} {inner p : Phrase}

/-- Marks are read after an operand that leaves them alone. -/
theorem reads_trail {marks : List Located} (mark : Trail) (h : Reads .postfixed ls inner)
    (hinner : inner.hasResult = false) (hmarks : marks.map Located.token = mark.tokens) :
    Reads .postfixed (ls ++ marks) (.trail inner mark) := by
  intro d rest hd _ _
  have hmarked : Before .postfixed (marks ++ rest) := by
    cases marks with
    | nil => cases mark <;> cases hmarks
    | cons l marks =>
      rw [List.cons_append, before_cons]
      cases mark <;> rw [(List.cons.inj hmarks).1] <;> rfl
  have hall := h d (marks ++ rest) (by rw [List.length_append] at hd; omega) hmarked
    (fun h => absurd (hinner.symm.trans h) Bool.noConfusion)
  rw [List.append_assoc, hall, trails_of_tokens inner mark hmarks]

theorem reads_unknown (i : ℕ) : Reads .type [⟨.question, i⟩] .unknown := by
  intro d rest hd hrest
  cases d with
  | zero => cases hd
  | succ d =>
    rw [typeWithin, List.cons_append, List.nil_append, typeOf, starts_of_before hrest]
    rfl

theorem reads_lead (mark : Lead) (i : ℕ) (h : Reads .type ls inner) :
    Reads .type (⟨mark.token, i⟩ :: ls) (.lead mark inner) := by
  intro d rest hd hrest
  cases d with
  | zero => cases hd
  | succ d =>
    have hall : typeWithin d (ls ++ rest) = .ok (inner, rest) :=
      h d rest (Nat.le_of_succ_le_succ hd) hrest
    cases mark with
    | question =>
      rw [List.cons_append, Lead.token, typeWithin, typeOf, if_pos (starts_of_typeWithin hall),
        hall]
      rfl
    | bang =>
      rw [List.cons_append, Lead.token, typeWithin, typeOf, hall]
      rfl

theorem reads_postfixed (hne : ls ≠ []) (h : Reads .postfixed ls p) : Reads .type ls p := by
  intro d rest hd hrest
  cases d with
  | zero => exact absurd (List.eq_nil_of_length_eq_zero (Nat.le_zero.mp hd)) hne
  | succ d =>
    have hall := h d rest hd hrest.basic (fun _ => hrest)
    rw [trails_of_before p hrest] at hall
    exact typeOf_of_basic hall

theorem reads_type (h : Reads .type ls p) : Reads .union ls p := by
  intro d rest hd hrest
  have hmember : ∀ q ∈ [(ls, p)], ReadBy .type typeWithin q.1 q.2 :=
    List.forall_mem_singleton.mpr h
  have hone := separated_of_readBy (List.cons_ne_nil _ _) hmember (.one ls) hd hrest
  simp only [unionOf, hone, ok_bind, List.map_cons, List.map_nil]

theorem reads_plain (h : Reads .union ls p) : Reads .value ls p := by
  intro d rest hd hrest
  have hall : unionOf (typeWithin d) (ls ++ rest) = .ok (p, rest) := h d rest hd hrest.union
  simp only [optionalUnion, hall, ok_bind]
  split
  · cases hrest _ rfl
  · rfl

theorem reads_optional (i : ℕ) (h : Reads .union ls inner) :
    Reads .value (ls ++ [⟨.equals, i⟩]) (.optional inner) := by
  intro d rest hd hrest
  rw [List.length_append] at hd
  have hall : unionOf (typeWithin d) (ls ++ ⟨.equals, i⟩ :: rest) =
      .ok (inner, ⟨.equals, i⟩ :: rest) := h d _ (by omega) (before_cons.mpr rfl)
  rw [List.append_assoc, List.cons_append, List.nil_append]
  simp only [optionalUnion, hall, ok_bind]

theorem reads_paramEllipsis (i : ℕ) : Reads .param [⟨.ellipsis, i⟩] .bareEllipsis := by
  intro d rest _ hrest
  have hstarts : starts rest = false := starts_of_before hrest.union.type
  simp only [List.cons_append, List.nil_append, Phrase.param, hstarts, Bool.false_eq_true,
    if_false]

theorem reads_paramVariadic (i : ℕ) (h : Reads .type ls inner) :
    Reads .param (⟨.ellipsis, i⟩ :: ls) (.variadic inner) := by
  intro d rest hd hrest
  have hall : typeWithin d (ls ++ rest) = .ok (inner, rest) :=
    h d rest (Nat.le_of_succ_le hd) hrest.union.type
  simp only [List.cons_append, Phrase.param, if_pos (starts_of_typeWithin hall), hall, ok_bind]

theorem reads_labelled (label : String) (i j : ℕ) (h : Reads .type ls inner) :
    Reads .param (⟨.name label, i⟩ :: ⟨.colon, j⟩ :: ls) (.labelled label i inner) := by
  intro d rest hd hrest
  simp only [List.length_cons] at hd
  have hall : typeWithin d (ls ++ rest) = .ok (inner, rest) :=
    h d rest (by omega) hrest.union.type
  simp only [List.cons_append, Phrase.param, hall, ok_bind]

theorem reads_key {l : Located} (hkey : l.token.isKey = true) : Reads .field [l] (.key l) := by
  intro d rest _ hrest
  rw [List.cons_append, List.nil_append]
  show fieldOf (typeWithin d) (l :: rest) = _
  rw [fieldOf_cons _ hkey]
  split
  · cases hrest _ rfl
  · rfl

theorem reads_field {l : Located} {value : Phrase} (j : ℕ) (hkey : l.token.isKey = true)
    (h : Reads .value ls value) : Reads .field (l :: ⟨.colon, j⟩ :: ls) (.field l value) := by
  intro d rest hd hrest
  have hall : optionalUnion (typeWithin d) (ls ++ rest) = .ok (value, rest) :=
    h d rest (by simp only [List.length_cons] at hd; omega) hrest
  show fieldOf (typeWithin d) (l :: ⟨.colon, j⟩ :: (ls ++ rest)) = _
  rw [fieldOf_cons _ hkey]
  simp only [hall, ok_bind]

theorem reads_root (h : Reads .value ls p) : Reads .root ls p := by
  have hall := h (ls.length + 1) [] (Nat.le_succ _) (before_nil _)
  rw [List.append_nil] at hall
  exact root_of_optionalUnion hall

theorem reads_rootVariadic (i : ℕ) (h : Reads .union ls inner) :
    Reads .root (⟨.ellipsis, i⟩ :: ls) (.variadic inner) := by
  have hall : unionOf (typeWithin (ls.length + 2)) (ls ++ []) = .ok (inner, []) :=
    h _ [] (by omega) (before_nil _)
  rw [List.append_nil] at hall
  have hstarts : starts ls = true := by
    by_contra hstarts
    rw [unionOf_of_not_starts _ (Bool.not_eq_true _ ▸ hstarts)] at hall
    cases hall
  show Phrase.root _ = _
  rw [Phrase.root, List.length_cons, if_pos hstarts, hall]
  rfl

end

/-- **Every derivation is read.** -/
theorem reads_of_derives {rule : Rule} {ls : List Located} {p : Phrase} (h : Derives rule ls p) :
    Reads rule ls p := by
  induction h with
  | all i => exact fun d rest _ _ _ => rfl
  | name text i => exact fun d rest _ hrest _ => named_of_before text hrest
  | group i j hne _ hjoined ih => exact reads_group i j hne ih hjoined
  | tuple i j _ hjoined ih => exact reads_tuple i j ih hjoined
  | record i j _ hjoined ih => exact reads_record i j ih hjoined
  | application base dotted i j k _ hjoined ih =>
    exact reads_application base dotted i j k ih hjoined
  | function i j k _ hjoined ih => exact reads_function i j k ih hjoined
  | functionTo i j k m _ hjoined _ ih ihresult =>
    exact reads_functionTo i j k m ih hjoined ihresult
  | basic _ ih =>
    intro d rest hd hrest hresult
    rw [ih d rest hd hrest hresult, ok_bind]
  | trail mark _ hinner hmarks ih => exact reads_trail mark ih hinner hmarks
  | unknown i => exact reads_unknown i
  | lead mark i _ ih => exact reads_lead mark i ih
  | postfixed h ih => exact reads_postfixed h.ne_nil ih
  | type _ ih => exact reads_type ih
  | union htwo _ hjoined ih => exact reads_union htwo ih hjoined
  | plain _ ih => exact reads_plain ih
  | optional i _ ih => exact reads_optional i ih
  | param _ ih => exact fun d rest hd hrest => param_of_optionalUnion (ih d rest hd hrest) hrest
  | paramEllipsis i => exact reads_paramEllipsis i
  | paramVariadic i _ ih => exact reads_paramVariadic i ih
  | labelled label i j _ ih => exact reads_labelled label i j ih
  | key hkey => exact reads_key hkey
  | field j hkey _ ih => exact reads_field j hkey ih
  | root _ ih => exact reads_root ih
  | rootEllipsis i => rfl
  | rootVariadic i _ ih => exact reads_rootVariadic i ih

/-! ## Whole expressions -/

/-- **The reader of whole expressions** takes all of the tokens if the grammar derives a phrase from
them, and finds that phrase. -/
theorem root_eq_ok_iff {ls : List Located} {p : Phrase} :
    root ls = .ok (p, []) ↔ Derives .root ls p := by
  refine ⟨fun h => ?_, reads_of_derives⟩
  obtain ⟨ls', hls, hderives⟩ := sound_root h
  rw [List.append_nil] at hls
  exact hls ▸ hderives

/-- The tokens of a whole expression have one derivation at most. -/
theorem Derives.unique {ls : List Located} {p q : Phrase} (hp : Derives .root ls p)
    (hq : Derives .root ls q) : p = q := by
  have h := (root_eq_ok_iff.mpr hp).symm.trans (root_eq_ok_iff.mpr hq)
  exact congrArg Prod.fst (Except.ok.inj h)

theorem readPhrase_eq_ok_iff {text : String} {p : Phrase} :
    readPhrase text = .ok p ↔ ∃ tokens, Lexes 0 text.toList tokens ∧ Derives .root tokens p := by
  rw [readPhrase]
  constructor
  · intro h
    split at h
    · rename_i q hroot hending
      cases h
      refine ⟨(Scan.ofText text.toList).tokens, scan_eq_iff.mp ?_, root_eq_ok_iff.mp hroot⟩
      rw [← hending]
    · cases h
    · cases h
  · rintro ⟨tokens, hlexes, hderives⟩
    simp only [scan_eq_iff.mpr hlexes, root_eq_ok_iff.mpr hderives]

/-- A text is refused where the reader of its tokens stops. -/
theorem readPhrase_of_root_error {text : String} {scan : Scan} {rest : List Located}
    (hscan : Scan.ofText text.toList = scan) (hroot : root scan.tokens = .error rest) :
    readPhrase text = .error (.at text scan.ending rest) := by
  rw [readPhrase]
  simp only [hscan, hroot]

/-- A text is accepted if it is a phrase that has a meaning. -/
theorem parse_of_readPhrase {text : String} {p : Phrase} {n : TypeExpr}
    (hp : readPhrase (Text.strip text) = .ok p) (hn : p.meaning = .ok n) : parse text = .ok n := by
  rw [parse]
  split_ifs with hempty
  · -- Nothing is derived from no tokens.
    obtain ⟨tokens, hlexes, hderives⟩ := readPhrase_eq_ok_iff.mp hp
    rw [String.isEmpty_iff.mp hempty] at hlexes
    have hscan : (⟨[], .endOfText⟩ : Scan) = ⟨tokens, .endOfText⟩ := scan_eq_iff.mpr hlexes
    exact absurd (Scan.mk.inj hscan).1.symm hderives.ne_nil
  · rw [hp, ok_bind, hn]

/-- **The reader of texts** accepts those whose tokens, blanks around the text aside, the grammar
derives a phrase from that has a meaning. -/
theorem parse_eq_ok_iff {text : String} {n : TypeExpr} :
    parse text = .ok n ↔ ∃ tokens p, Lexes 0 (Text.trim text.toList) tokens ∧
      Derives .root tokens p ∧ p.meaning = .ok n := by
  have hstrip : (Text.strip text).toList = Text.trim text.toList := String.toList_ofList
  rw [← hstrip]
  constructor
  · intro h
    rw [parse] at h
    split_ifs at h
    obtain ⟨p, hp, hmeaning⟩ := bind_eq_ok.mp h
    obtain ⟨tokens, hlexes, hderives⟩ := readPhrase_eq_ok_iff.mp hp
    refine ⟨tokens, p, hlexes, hderives, ?_⟩
    split at hmeaning
    · cases hmeaning
      assumption
    · cases hmeaning
  · rintro ⟨tokens, p, hlexes, hderives, hmeaning⟩
    exact parse_of_readPhrase (readPhrase_eq_ok_iff.mpr ⟨tokens, hlexes, hderives⟩) hmeaning

/-- **An accepted text is derived as a whole.** All of its tokens, with nothing but blanks between
them, are what the grammar derives one phrase from, and no other; the phrase stands for the type
that is returned. Every mark in it is on an operand that can take it, every label is `this` or
`new`, and no key that is a name has a point. -/
theorem derives_of_parse {text : String} {n : TypeExpr} (h : parse text = .ok n) :
    ∃ tokens p, Lexes 0 (Text.trim text.toList) tokens ∧ Derives .root tokens p ∧
      p.meaning = .ok n ∧ (∀ q, PartOf q p → q.Proper) ∧
      ∀ p', Derives .root tokens p' → p' = p := by
  obtain ⟨tokens, p, hlexes, hderives, hmeaning⟩ := parse_eq_ok_iff.mp h
  have hproper := hderives.proper_of_partOf hmeaning (fun h => nomatch h)
  exact ⟨tokens, p, hlexes, hderives, hmeaning, hproper, fun p' hp' => hp'.unique hderives⟩

theorem derives_of_parse_functionTo :
    parse " function(this:A, ...B): ?C[]\t" =
      .ok (.function [.variadic (.name "B")]
        (.nullable .before (.application (.name "Array") [.name "C"])) (.name "A") .absent) ∧
    ∃ tokens p, Lexes 0 (Text.trim " function(this:A, ...B): ?C[]\t".toList) tokens ∧
      Derives .root tokens p ∧
      p.meaning = .ok (.function [.variadic (.name "B")]
        (.nullable .before (.application (.name "Array") [.name "C"])) (.name "A") .absent) ∧
      (∀ q, PartOf q p → q.Proper) ∧ ∀ p', Derives .root tokens p' → p' = p := by
  have hscan : Scan.ofText (Text.trim " function(this:A, ...B): ?C[]\t".toList) =
      ⟨[⟨.function, 0⟩, ⟨.openParen, 8⟩, ⟨.name "this", 9⟩, ⟨.colon, 13⟩, ⟨.name "A", 14⟩,
        ⟨.comma, 15⟩, ⟨.ellipsis, 17⟩, ⟨.name "B", 20⟩, ⟨.closeParen, 21⟩, ⟨.colon, 22⟩,
        ⟨.question, 24⟩, ⟨.name "C", 25⟩, ⟨.openBracket, 26⟩, ⟨.closeBracket, 27⟩],
        .endOfText⟩ := by
    decide
  have hroot : root [⟨.function, 0⟩, ⟨.openParen, 8⟩, ⟨.name "this", 9⟩, ⟨.colon, 13⟩,
      ⟨.name "A", 14⟩, ⟨.comma, 15⟩, ⟨.ellipsis, 17⟩, ⟨.name "B", 20⟩, ⟨.closeParen, 21⟩,
      ⟨.colon, 22⟩, ⟨.question, 24⟩, ⟨.name "C", 25⟩, ⟨.openBracket, 26⟩, ⟨.closeBracket, 27⟩] =
      .ok (.functionTo [.labelled "this" 9 (.name "A"), .variadic (.name "B")]
        (.lead .question (.trail (.name "C") .brackets)), []) := by
    cbv
  have hparse := parse_eq_ok_iff.mpr ⟨_, _, scan_eq_iff.mp hscan, root_eq_ok_iff.mp hroot, rfl⟩
  exact ⟨hparse, derives_of_parse hparse⟩

end Ambient.TypeExpr
