import Ambient.Doc.Braces
import Ambient.Proofs.TypeExpr.Complete

/-!
# Braces of a type

The braces around a type are found by counting, without knowing what a type is. A type closes the
braces that it opens, and no others, so the counting ends at the brace after the type.

* `Balanced`: a text that the counting goes through and is as deep as before;
* `depthAfter`, `Level`: the same for tokens;
* **`level_of_derives`**: what the grammar derives is level;
* `untilClosed_of_lexes`, `balanced_of_lexes`: from tokens to texts;
* `readBraced_eq`: a balanced text in braces is found.
-/

namespace Ambient.Doc

open TypeExpr (Token Located Rule Derives Joined Lexes)

/-! ## Texts -/

/-- Counting braces goes through a text and is as deep after it as before. -/
def Balanced (s : List Char) : Prop :=
  ∀ depth rest, untilClosed depth (s ++ rest) =
    (untilClosed depth rest).map fun r => (s ++ r.1, r.2)

/-- No brace stands in a text. -/
def Braceless (s : List Char) : Prop := '\x7b' ∉ s ∧ '\x7d' ∉ s

theorem untilClosed_cons {c : Char} (hopen : c ≠ '\x7b') (hclose : c ≠ '\x7d') (depth : ℕ)
    (rest : List Char) :
    untilClosed depth (c :: rest) = (untilClosed depth rest).map fun r => (c :: r.1, r.2) := by
  rw [untilClosed.eq_def]
  dsimp only
  rw [if_neg hopen, if_neg hclose]

theorem balanced_of_braceless {s : List Char} (h : Braceless s) : Balanced s := by
  intro depth rest
  induction s with
  | nil => simp
  | cons c s ih =>
    obtain ⟨hopen, hclose⟩ := h
    rw [List.mem_cons, not_or] at hopen hclose
    rw [List.cons_append, untilClosed_cons (Ne.symm hopen.1) (Ne.symm hclose.1),
      ih ⟨hopen.2, hclose.2⟩, Option.map_map]
    rfl

theorem Balanced.append {s t : List Char} (hs : Balanced s) (ht : Balanced t) :
    Balanced (s ++ t) := by
  intro depth rest
  rw [List.append_assoc, hs, ht, Option.map_map]
  simp only [Function.comp_def, List.append_assoc]

/-- **A balanced text in braces** is found. -/
theorem readBraced_eq {blanks s : List Char} (hblanks : ∀ c ∈ blanks, Text.isBlank c = true)
    (hs : Balanced s) (rest : List Char) :
    readBraced (blanks ++ '\x7b' :: (s ++ '\x7d' :: rest)) = .balanced s rest := by
  have hleft : Text.trimLeft (blanks ++ '\x7b' :: (s ++ '\x7d' :: rest)) =
      '\x7b' :: (s ++ '\x7d' :: rest) := by
    rw [Text.trimLeft, List.dropWhile_append_of_pos hblanks]
    exact List.dropWhile_cons_of_neg (by decide)
  have hclosed : untilClosed 0 ('\x7d' :: rest) = some ([], rest) := by
    rw [untilClosed, if_neg (by decide), if_pos rfl]
  have hs' : untilClosed 0 (s ++ '\x7d' :: rest) = some (s, rest) := by
    rw [hs, hclosed, Option.map_some, List.append_nil]
  simp only [readBraced, hleft, hs']

/-! ## Tokens -/

/-- How many braces are open after some tokens; nothing if one is closed that was not opened. -/
def depthAfter : ℕ → List Token → Option ℕ
  | depth, [] => some depth
  | depth, .openBrace :: ts => depthAfter (depth + 1) ts
  | 0, .closeBrace :: _ => none
  | depth + 1, .closeBrace :: ts => depthAfter depth ts
  | depth, _ :: ts => depthAfter depth ts

/-- Tokens after which as many braces are open as before. -/
def Level (ts : List Token) : Prop :=
  ∀ depth later, depthAfter depth (ts ++ later) = depthAfter depth later

/-- A token that is a brace. -/
def isBrace : Token → Bool
  | .openBrace | .closeBrace => true
  | _ => false

theorem depthAfter_cons {t : Token} (h : isBrace t = false) (depth : ℕ) (ts : List Token) :
    depthAfter depth (t :: ts) = depthAfter depth ts := by
  cases t with
  | openBrace | closeBrace => cases h
  | _ => cases depth <;> rfl

theorem level_nil : Level [] := fun _ _ => rfl

theorem Level.cons {t : Token} {ts : List Token} (h : isBrace t = false) (hts : Level ts) :
    Level (t :: ts) := by
  intro depth later
  rw [List.cons_append, depthAfter_cons h, hts]

theorem Level.append {ts us : List Token} (hts : Level ts) (hus : Level us) :
    Level (ts ++ us) := by
  intro depth later
  rw [List.append_assoc, hts, hus]

theorem level_one {t : Token} (h : isBrace t = false) : Level [t] := level_nil.cons h

theorem Level.braces {ts : List Token} (h : Level ts) :
    Level (.openBrace :: (ts ++ [.closeBrace])) := by
  intro depth later
  rw [List.cons_append, List.append_assoc, depthAfter, h]
  rfl

theorem level_joined {sep : Token} (hsep : isBrace sep = false) {lists : List (List Located)}
    {ls : List Located} (hjoined : Joined sep lists ls)
    (h : ∀ list ∈ lists, Level (list.map Located.token)) : Level (ls.map Located.token) := by
  induction hjoined with
  | nil => exact level_nil
  | one ls => exact h ls List.mem_cons_self
  | more i _ ih =>
    rw [List.forall_mem_cons] at h
    rw [List.map_append, List.map_cons]
    exact h.1.append ((ih h.2).cons hsep)

theorem level_trail (mark : TypeExpr.Trail) : Level mark.tokens := by
  cases mark with
  | question | bang => exact level_one rfl
  | brackets => exact (level_one rfl).cons rfl

theorem isBrace_lead (mark : TypeExpr.Lead) : isBrace mark.token = false := by cases mark <;> rfl

theorem isBrace_angle (dotted : Bool) : isBrace (TypeExpr.angle dotted) = false := by
  cases dotted <;> rfl

theorem isBrace_of_isKey {t : Token} (h : t.isKey = true) : isBrace t = false := by
  cases t with
  | openBrace | closeBrace => cases h
  | _ => rfl

/-- **What the grammar derives** closes the braces it opens. -/
theorem level_of_derives {rule : Rule} {ls : List Located} {p : TypeExpr.Phrase}
    (h : Derives rule ls p) : Level (ls.map Located.token) := by
  -- The parts of a list are level, so the list is, and so it is between two tokens.
  have hlist : ∀ {sep : Token} {parts : List (List Located × TypeExpr.Phrase)}
      {ls : List Located}, isBrace sep = false → Joined sep (parts.map Prod.fst) ls →
      (∀ part ∈ parts, Level (part.1.map Located.token)) → Level (ls.map Located.token) := by
    intro sep parts ls hsep hjoined hparts
    refine level_joined hsep hjoined fun list hmem => ?_
    obtain ⟨part, hpart, rfl⟩ := List.mem_map.mp hmem
    exact hparts part hpart
  induction h with
  | all | name | unknown | paramEllipsis | rootEllipsis => exact level_one rfl
  | key hkey => exact level_one (isBrace_of_isKey hkey)
  | group i j _ _ hjoined ih =>
    rw [List.map_cons, List.map_append, List.map_singleton]
    exact ((hlist rfl hjoined ih).append (level_one rfl)).cons rfl
  | tuple i j _ hjoined ih =>
    rw [List.map_cons, List.map_append, List.map_singleton]
    exact ((hlist rfl hjoined ih).append (level_one rfl)).cons rfl
  | record i j _ hjoined ih =>
    rw [List.map_cons, List.map_append, List.map_singleton]
    exact (hlist rfl hjoined ih).braces
  | application base dotted i j k _ hjoined ih =>
    rw [List.map_cons, List.map_cons, List.map_append, List.map_singleton]
    exact (((hlist rfl hjoined ih).append (level_one rfl)).cons (isBrace_angle dotted)).cons rfl
  | function i j k _ hjoined ih =>
    rw [List.map_cons, List.map_cons, List.map_append, List.map_singleton]
    exact (((hlist rfl hjoined ih).append (level_one rfl)).cons rfl).cons rfl
  | functionTo i j k m _ hjoined _ ih ihresult =>
    rw [List.map_cons, List.map_cons, List.map_append, List.map_cons, List.map_cons]
    exact (((hlist rfl hjoined ih).append ((ihresult.cons rfl).cons rfl)).cons rfl).cons rfl
  | trail mark _ _ hmarks ih =>
    rw [List.map_append, hmarks]
    exact ih.append (level_trail mark)
  | lead mark i _ ih => exact ih.cons (isBrace_lead mark)
  | union _ _ hjoined ih => exact hlist rfl hjoined ih
  | optional i _ ih =>
    rw [List.map_append, List.map_singleton]
    exact ih.append (level_one rfl)
  | paramVariadic i _ ih | rootVariadic i _ ih => exact ih.cons rfl
  | labelled label i j _ ih => exact (ih.cons rfl).cons rfl
  | field j hkey _ ih => exact (ih.cons rfl).cons (isBrace_of_isKey hkey)
  | basic _ ih | postfixed _ ih | type _ ih | plain _ ih | param _ ih | root _ ih => exact ih

/-! ## From tokens to texts -/

/-- A token that, if it is a key in quotes, has no brace in them. -/
def BracelessKey (t : Token) : Prop := ∀ mark body, t = .quoted mark body → Braceless body.toList

theorem braceless_text {t : Token} (ht : t.Lexeme) (hbrace : isBrace t = false)
    (hkey : BracelessKey t) : Braceless t.text.toList := by
  have hnotMem : ∀ {s : List Char}, (∀ c ∈ s, c ≠ '\x7b' ∧ c ≠ '\x7d') → Braceless s :=
    fun h => ⟨fun hmem => (h _ hmem).1 rfl, fun hmem => (h _ hmem).2 rfl⟩
  cases t with
  | openBrace | closeBrace => cases hbrace
  | name word =>
    refine hnotMem (ht.1.forall_mem (fun c hc => ?_) (by decide))
    constructor <;> (rintro rfl; exact absurd hc (by decide))
  | number digits =>
    refine hnotMem (TypeExpr.IsNumber.forall_mem ht (fun c hc => ?_) (by decide) (by decide))
    constructor <;> (rintro rfl; exact absurd hc (by decide))
  | quoted mark body =>
    obtain ⟨hopen, hclose⟩ := hkey mark body rfl
    rcases ht.1 with rfl | rfl <;> simp [Braceless, Token.text, hopen, hclose]
  | _ => exact ⟨by decide, by decide⟩

/-- Counting the braces of a text is counting the braces among its tokens. -/
theorem untilClosed_of_lexes {n : ℕ} {s : List Char} {ls : List Located} (h : Lexes n s ls)
    (hkeys : ∀ l ∈ ls, BracelessKey l.token) : ∀ {depth depth' : ℕ} (rest : List Char),
      depthAfter depth (ls.map Located.token) = some depth' →
        untilClosed depth (s ++ rest) =
          (untilClosed depth' rest).map fun r => (s ++ r.1, r.2) := by
  induction h with
  | nil =>
    intro depth depth' rest hdepth
    obtain rfl := Option.some.inj hdepth
    simp
  | @space n c s ls hc _ ih =>
    intro depth depth' rest hdepth
    have hc' : c ≠ '\x7b' ∧ c ≠ '\x7d' := by
      constructor <;> (rintro rfl; exact absurd hc (by decide))
    rw [List.cons_append, untilClosed_cons hc'.1 hc'.2, ih hkeys rest hdepth, Option.map_map]
    rfl
  | @token n t s ls ht hends _ ih =>
    intro depth depth' rest hdepth
    rw [List.forall_mem_cons] at hkeys
    rw [List.map_cons] at hdepth
    by_cases hbrace : isBrace t = true
    · cases t with
      | openBrace =>
        have hopen : untilClosed depth ('\x7b' :: (s ++ rest)) =
            (untilClosed (depth + 1) (s ++ rest)).map fun r => ('\x7b' :: r.1, r.2) := by
          rw [untilClosed.eq_def]
          rfl
        rw [depthAfter] at hdepth
        have hall := congrArg (Option.map fun r => ('\x7b' :: r.1, r.2)) (ih hkeys.2 rest hdepth)
        rw [← hopen, Option.map_map] at hall
        exact hall
      | closeBrace =>
        cases depth with
        | zero => cases hdepth
        | succ depth =>
          have hclose : untilClosed (depth + 1) ('\x7d' :: (s ++ rest)) =
              (untilClosed depth (s ++ rest)).map fun r => ('\x7d' :: r.1, r.2) := by
            rw [untilClosed.eq_def]
            rfl
          rw [depthAfter] at hdepth
          have hall := congrArg (Option.map fun r => ('\x7d' :: r.1, r.2))
            (ih hkeys.2 rest hdepth)
          rw [← hclose, Option.map_map] at hall
          exact hall
      | _ => cases hbrace
    · rw [Bool.not_eq_true] at hbrace
      rw [depthAfter_cons hbrace] at hdepth
      have htext := balanced_of_braceless (braceless_text ht hbrace hkeys.1)
      rw [List.append_assoc, htext, ih hkeys.2 rest hdepth, Option.map_map]
      simp only [Function.comp_def, List.append_assoc]

/-- **A text that the grammar derives** is balanced, if no key in quotes has a brace. -/
theorem balanced_of_lexes {n : ℕ} {s : List Char} {ls : List Located} {rule : Rule}
    {p : TypeExpr.Phrase} (h : Lexes n s ls) (hderives : Derives rule ls p)
    (hkeys : ∀ l ∈ ls, BracelessKey l.token) : Balanced s := by
  intro depth rest
  have hlevel : depthAfter depth (ls.map Located.token) = some depth := by
    have hnil := level_of_derives hderives depth []
    rwa [List.append_nil] at hnil
  exact untilClosed_of_lexes h hkeys rest hlevel

end Ambient.Doc
