import Ambient.Proofs.Text.Lines
import Ambient.Proofs.TypeExpr.RoundTrip

/-!
# Tokens at other places

Where the tokens of a text stand has no part in the type the text stands for: blanks between them
can be more, fewer or others. Neither has the point that may stand before the arguments of a type.

* `Moved`: a phrase with its parts at other places, as far as meanings go;
* `paramsOf_cons_iff`: what the first parameter of a function type adds;
* `SameTokens`, `SameKinds`: the same tokens, and the same ones up to points before arguments;
* `movable_of_derives`: tokens of the same kinds are derived as the same phrase;
* **`parse_of_same_kinds`**, `parse_of_same_tokens`: texts with such tokens stand for the same type;
* `Token.ends_space`, `Token.ends_text`: where tokens end, by what comes next;
* `Lexes.append`: a text that goes on with further tokens;
* `Lexes.relocate`, `Lexes.trim`: a text elsewhere, and without the blanks at its ends.
-/

namespace Ambient.TypeExpr

open Phrase

/-! ## Phrases at other places -/

/-- The label of a parameter. -/
def Phrase.label? : Phrase → Option String
  | .labelled label _ _ => some label
  | _ => none

/-- A phrase that means what another one means, if that one means anything, and that is as good in
its place. -/
structure Moved (p p' : Phrase) : Prop where
  meaning : ∀ t, p.meaning = .ok t → p'.meaning = .ok t
  label : p'.label? = p.label?
  hasResult : p'.hasResult = p.hasResult

/-- The parameters that the first one makes of the later ones, given its label and its type. -/
def Params.add (later : Params) (t : TypeExpr) : Option String → Option Params
  | none => some { later with plain := t :: later.plain }
  | some label =>
    if label = "this" then
      some { later with thisType := if later.thisType matches .absent then t else later.thisType }
    else if label = "new" then
      some { later with newType := if later.newType matches .absent then t else later.newType }
    else none

theorem paramsOf_cons_iff {p : Phrase} {ps : List Phrase} {params : Params} :
    paramsOf (p :: ps) = .ok params ↔ ∃ t later, p.meaning = .ok t ∧ paramsOf ps = .ok later ∧
      later.add t p.label? = some params := by
  cases p with
  | labelled label position inner =>
    rw [paramsOf, label?, meaning]
    by_cases hknown : label = "this" ∨ label = "new"
    · rcases hknown with rfl | rfl
      all_goals
        constructor
        · intro h
          obtain ⟨t, ht, h⟩ := bind_eq_ok.mp h
          obtain ⟨later, hlater, h⟩ := bind_eq_ok.mp h
          exact ⟨t, later, ht, hlater, congrArg some (Except.ok.inj h)⟩
        · rintro ⟨t, later, ht, hlater, hadd⟩
          rw [ht, ok_bind, hlater]
          exact congrArg Except.ok (Option.some.inj hadd)
    · obtain ⟨hthis, hnew⟩ := not_or.mp hknown
      constructor
      · intro h
        obtain ⟨t, -, h⟩ := bind_eq_ok.mp h
        rw [if_pos ⟨hthis, hnew⟩] at h
        cases h
      · rintro ⟨t, later, -, -, hadd⟩
        rw [Params.add, if_neg hthis, if_neg hnew] at hadd
        cases hadd
  | _ =>
    rw [paramsOf]
    · constructor
      · intro h
        obtain ⟨t, ht, h⟩ := bind_eq_ok.mp h
        obtain ⟨later, hlater, h⟩ := bind_eq_ok.mp h
        exact ⟨t, later, ht, hlater, congrArg some (Except.ok.inj h)⟩
      · rintro ⟨t, later, ht, hlater, hadd⟩
        rw [ht, ok_bind, hlater, ok_bind, ← Option.some.inj hadd]
    · exact fun _ _ _ h => Phrase.noConfusion h

theorem Moved.refl (p : Phrase) : Moved p p := ⟨fun _ h => h, rfl, rfl⟩

theorem Moved.meanings {ps ps' : List Phrase} (h : List.Forall₂ Moved ps ps') :
    ∀ {ts : List TypeExpr}, meanings ps = .ok ts → meanings ps' = .ok ts := by
  induction h with
  | nil => exact fun h => h
  | cons hp _ ih =>
    intro ts hts
    obtain ⟨t, later, ht, hlater, rfl⟩ := meanings_cons hts
    rw [Phrase.meanings, hp.meaning t ht, ok_bind, ih hlater, ok_bind]

theorem Moved.paramsOf {ps ps' : List Phrase} (h : List.Forall₂ Moved ps ps') :
    ∀ {params : Params}, paramsOf ps = .ok params → paramsOf ps' = .ok params := by
  induction h with
  | nil => exact fun h => h
  | cons hp _ ih =>
    intro params hparams
    obtain ⟨t, later, ht, hlater, hadd⟩ := paramsOf_cons_iff.mp hparams
    exact paramsOf_cons_iff.mpr ⟨t, later, hp.meaning t ht, ih hlater, by rwa [hp.label]⟩

/-! ## The same tokens at other places -/

/-- The same tokens, whatever their places. -/
def SameTokens (ls ls' : List Located) : Prop := ls'.map Located.token = ls.map Located.token

/-- A token before the arguments of a type. -/
def Token.isAngle : Token → Bool
  | .dotLess | .less => true
  | _ => false

/-- A token without the point that may stand before the arguments of a type. -/
def Token.undotted : Token → Token
  | .dotLess => .less
  | t => t

/-- What the token at some place is, apart from a point before the arguments of a type. -/
def Located.kind (l : Located) : Token := l.token.undotted

/-- The same tokens, whatever their places, with or without points before type arguments. -/
def SameKinds (ls ls' : List Located) : Prop := ls'.map Located.kind = ls.map Located.kind

theorem Token.undotted_of_not_isAngle {t : Token} (h : t.isAngle = false) : t.undotted = t := by
  cases t <;> first | rfl | cases h

theorem Token.eq_of_undotted {t t' : Token} (h : t'.undotted = t) (ht : t.isAngle = false) :
    t' = t := by
  cases t' with
  | dotLess =>
    rw [← h] at ht
    cases ht
  | _ => exact h

theorem exists_angle {t : Token} (h : t.undotted = .less) : ∃ dotted, t = angle dotted := by
  cases t with
  | dotLess => exact ⟨true, rfl⟩
  | less => exact ⟨false, rfl⟩
  | _ => cases h

theorem isAngle_of_isKey {t : Token} (h : t.isKey = true) : t.isAngle = false := by
  cases t <;> first | rfl | cases h

theorem SameTokens.kinds {ls ls' : List Located} (h : SameTokens ls ls') : SameKinds ls ls' := by
  have hkind : Located.kind = Token.undotted ∘ Located.token := rfl
  rw [SameKinds, hkind, List.comp_map, List.comp_map, h]

namespace SameKinds

variable {ls later ls' : List Located} {t : Token} {i : ℕ}

theorem cons (h : SameKinds (⟨t, i⟩ :: ls) ls') (ht : t.isAngle = false) :
    ∃ i' later, ls' = ⟨t, i'⟩ :: later ∧ SameKinds ls later := by
  obtain ⟨⟨t', i'⟩, later, rfl, hkind, hlater⟩ := List.map_eq_cons_iff.mp h
  have htoken : t'.undotted = t := hkind.trans (Token.undotted_of_not_isAngle ht)
  obtain rfl := Token.eq_of_undotted htoken ht
  exact ⟨i', later, rfl, hlater⟩

theorem append (h : SameKinds (ls ++ later) ls') :
    ∃ first rest, ls' = first ++ rest ∧ SameKinds ls first ∧ SameKinds later rest := by
  rw [SameKinds, List.map_append] at h
  exact List.map_eq_append_iff.mp h

theorem one (h : SameKinds [⟨t, i⟩] ls') (ht : t.isAngle = false) : ∃ i', ls' = [⟨t, i'⟩] := by
  obtain ⟨i', later, rfl, hlater⟩ := h.cons ht
  exact ⟨i', by rw [List.map_eq_nil_iff.mp hlater]⟩

theorem concat (h : SameKinds (ls ++ [⟨t, i⟩]) ls') (ht : t.isAngle = false) :
    ∃ inner i', ls' = inner ++ [⟨t, i'⟩] ∧ SameKinds ls inner := by
  obtain ⟨inner, last, rfl, hinner, hlast⟩ := h.append
  obtain ⟨i', rfl⟩ := hlast.one ht
  exact ⟨inner, i', rfl, hinner⟩

/-- Tokens of which none stands before type arguments are the same if their kinds are. -/
theorem tokens (h : SameKinds ls ls') (hls : ∀ l ∈ ls, l.token.isAngle = false) :
    SameTokens ls ls' := by
  induction ls generalizing ls' with
  | nil => rw [List.map_eq_nil_iff.mp h, SameTokens]
  | cons l ls ih =>
    rw [List.forall_mem_cons] at hls
    obtain ⟨i', later, rfl, hlater⟩ := h.cons hls.1
    exact congrArg (l.token :: ·) (ih hlater hls.2)

end SameKinds

/-- A rule derives a moved phrase from tokens of the same kinds. -/
def Movable (rule : Rule) (ls : List Located) (p : Phrase) : Prop :=
  ∀ ls', SameKinds ls ls' → ∃ p', Derives rule ls' p' ∧ Moved p p'

theorem Movable.of_derives {rule rule' : Rule} {ls : List Located} {p : Phrase}
    (h : Movable rule ls p)
    (hrule : ∀ {ls p}, Derives rule ls p → Derives rule' ls p) : Movable rule' ls p := by
  intro ls' hls
  obtain ⟨p', hderives, hmoved⟩ := h ls' hls
  exact ⟨p', hrule hderives, hmoved⟩

theorem Movable.one {rule : Rule} {token : Token} {p : Phrase} (i : ℕ)
    (htoken : token.isAngle = false) (h : ∀ i, Derives rule [⟨token, i⟩] p) :
    Movable rule [⟨token, i⟩] p := by
  intro ls' hls
  obtain ⟨i', rfl⟩ := hls.one htoken
  exact ⟨p, h i', .refl p⟩

theorem Joined.kinds {sep : Token} (hsep : sep.isAngle = false) {lists : List (List Located)}
    {ls : List Located} (h : Joined sep lists ls) :
    ls.map Located.kind = [sep].intercalate (lists.map (List.map Located.kind)) := by
  induction h with
  | nil => rfl
  | one ls => rw [List.map_singleton, List.intercalate_singleton]
  | more i _ ih =>
    rw [List.map_append, List.map_cons, ih, List.map_cons, List.map_cons, List.map_cons,
      List.intercalate_cons_cons, List.append_assoc, List.singleton_append, Located.kind,
      Token.undotted_of_not_isAngle hsep]

/-- Joined parts that can be moved one by one can be moved together. -/
theorem exists_moved_parts {rule : Rule} {sep : Token} {parts : List (List Located × Phrase)}
    {ls ls' : List Located} (hjoined : Joined sep (parts.map Prod.fst) ls)
    (hsep : sep.isAngle = false) (h : ∀ part ∈ parts, Movable rule part.1 part.2)
    (hls : SameKinds ls ls') :
    ∃ parts' : List (List Located × Phrase), Joined sep (parts'.map Prod.fst) ls' ∧
      (∀ part ∈ parts', Derives rule part.1 part.2) ∧
      List.Forall₂ Moved (parts.map Prod.snd) (parts'.map Prod.snd) := by
  obtain ⟨lists, hjoined', hlists⟩ :=
    exists_joined (fun _ h => Token.eq_of_undotted h hsep) (hls.trans (hjoined.kinds hsep))
  clear hjoined hls
  suffices hparts : ∃ parts' : List (List Located × Phrase), parts'.map Prod.fst = lists ∧
      (∀ part ∈ parts', Derives rule part.1 part.2) ∧
      List.Forall₂ Moved (parts.map Prod.snd) (parts'.map Prod.snd) by
    obtain ⟨parts', rfl, hderives, hmoved⟩ := hparts
    exact ⟨parts', hjoined', hderives, hmoved⟩
  clear hjoined'
  induction parts generalizing lists with
  | nil =>
    rw [List.map_nil, List.map_nil, List.map_eq_nil_iff] at hlists
    exact ⟨[], hlists.symm, fun _ hpart => (nomatch hpart), .nil⟩
  | cons part parts ih =>
    rw [List.forall_mem_cons] at h
    rw [List.map_cons, List.map_cons] at hlists
    obtain ⟨first, later, rfl, hfirst, hlater⟩ := List.map_eq_cons_iff.mp hlists
    obtain ⟨p', hderives, hmoved⟩ := h.1 first hfirst
    obtain ⟨parts', rfl, hderives', hmoved'⟩ := ih h.2 later hlater
    exact ⟨(first, p') :: parts', rfl, List.forall_mem_cons.mpr ⟨hderives, hderives'⟩,
      .cons hmoved hmoved'⟩

/-- A phrase whose meaning is that of its parts, under a constructor. -/
theorem Moved.of_meanings {p p' : Phrase} {ps ps' : List Phrase} {make : List TypeExpr → TypeExpr}
    (h : List.Forall₂ Moved ps ps')
    (hp : p.meaning = Phrase.meanings ps >>= fun ts => .ok (make ts))
    (hp' : p'.meaning = Phrase.meanings ps' >>= fun ts => .ok (make ts))
    (hlabel : p'.label? = p.label?) (hresult : p'.hasResult = p.hasResult) : Moved p p' := by
  refine ⟨fun t ht => ?_, hlabel, hresult⟩
  rw [hp] at ht
  obtain ⟨ts, hts, ht⟩ := bind_eq_ok.mp ht
  rw [hp', Moved.meanings h hts, ok_bind, ht]

/-- A phrase whose meaning is that of another one, under a constructor. -/
theorem Moved.of_meaning {p p' q q' : Phrase} {make : TypeExpr → TypeExpr} (h : Moved q q')
    (hp : p.meaning = q.meaning >>= fun t => .ok (make t))
    (hp' : p'.meaning = q'.meaning >>= fun t => .ok (make t))
    (hlabel : p'.label? = p.label?) (hresult : p'.hasResult = p.hasResult) : Moved p p' := by
  refine ⟨fun t ht => ?_, hlabel, hresult⟩
  rw [hp] at ht
  obtain ⟨u, hu, ht⟩ := bind_eq_ok.mp ht
  rw [hp', h.meaning u hu, ok_bind, ht]

theorem keyOf_elsewhere {l : Located} {key : String} (hkey : keyOf l = .ok key) (i : ℕ) :
    keyOf ⟨l.token, i⟩ = .ok key := by
  obtain ⟨token, position⟩ := l
  cases token with
  | name text =>
    simp only [keyOf] at hkey ⊢
    by_cases hpoint : text.contains '.' = true
    · rw [if_pos hpoint] at hkey
      cases hkey
    · rw [if_neg hpoint] at hkey ⊢
      exact hkey
  | _ => exact hkey

/-- **Tokens of the same kinds**, at any places, are derived as the same phrase. -/
theorem movable_of_derives {rule : Rule} {ls : List Located} {p : Phrase}
    (h : Derives rule ls p) : Movable rule ls p := by
  induction h with
  | all i => exact .one i rfl .all
  | name text i => exact .one i rfl (.name text)
  | unknown i => exact .one i rfl .unknown
  | paramEllipsis i => exact .one i rfl .paramEllipsis
  | rootEllipsis i => exact .one i rfl .rootEllipsis
  | @key l hkey =>
    intro ls' hls
    obtain ⟨i', rfl⟩ := hls.one (isAngle_of_isKey hkey)
    refine ⟨.key ⟨l.token, i'⟩, .key hkey, fun t ht => ?_, rfl, rfl⟩
    rw [meaning] at ht ⊢
    obtain ⟨key, hkey, ht⟩ := bind_eq_ok.mp ht
    rw [keyOf_elsewhere hkey i', ok_bind, ht]
  | @field l ls value j hkey _ ih =>
    intro ls' hls
    obtain ⟨i', later, rfl, hlater⟩ := hls.cons (isAngle_of_isKey hkey)
    obtain ⟨j', inner, rfl, hinner⟩ := hlater.cons rfl
    obtain ⟨p', hderives, hmoved⟩ := ih inner hinner
    refine ⟨.field ⟨l.token, i'⟩ p', .field j' hkey hderives, fun t ht => ?_, rfl, rfl⟩
    rw [meaning] at ht ⊢
    obtain ⟨key, hkey, ht⟩ := bind_eq_ok.mp ht
    obtain ⟨u, hu, ht⟩ := bind_eq_ok.mp ht
    rw [keyOf_elsewhere hkey i', ok_bind, hmoved.meaning u hu, ok_bind, ht]
  | group i j hne _ hjoined ih =>
    intro ls' hls
    obtain ⟨i', later, rfl, hlater⟩ := hls.cons rfl
    obtain ⟨inner, j', rfl, hinner⟩ := hlater.concat rfl
    obtain ⟨parts', hjoined', hderives, hmoved⟩ := exists_moved_parts hjoined rfl ih hinner
    have hne' : parts' ≠ [] := by
      rintro rfl
      exact hne (List.map_eq_nil_iff.mp (List.forall₂_nil_right_iff.mp hmoved))
    exact ⟨_, .group i' j' hne' hderives hjoined', .of_meanings hmoved rfl rfl rfl rfl⟩
  | tuple i j _ hjoined ih =>
    intro ls' hls
    obtain ⟨i', later, rfl, hlater⟩ := hls.cons rfl
    obtain ⟨inner, j', rfl, hinner⟩ := hlater.concat rfl
    obtain ⟨parts', hjoined', hderives, hmoved⟩ := exists_moved_parts hjoined rfl ih hinner
    exact ⟨_, .tuple i' j' hderives hjoined', .of_meanings hmoved rfl rfl rfl rfl⟩
  | record i j _ hjoined ih =>
    intro ls' hls
    obtain ⟨i', later, rfl, hlater⟩ := hls.cons rfl
    obtain ⟨inner, j', rfl, hinner⟩ := hlater.concat rfl
    obtain ⟨parts', hjoined', hderives, hmoved⟩ := exists_moved_parts hjoined rfl ih hinner
    exact ⟨_, .record i' j' hderives hjoined', .of_meanings hmoved rfl rfl rfl rfl⟩
  | @application _ ls base dotted i j k _ hjoined ih =>
    intro ls' hls
    obtain ⟨i', later, rfl, hlater⟩ := hls.cons rfl
    obtain ⟨⟨token, j'⟩, later, rfl, htoken, hargs⟩ := List.map_eq_cons_iff.mp hlater
    -- The point before the arguments is the one thing that may be another one.
    have hless : token.undotted = .less := htoken.trans (by cases dotted <;> rfl)
    obtain ⟨dotted', rfl⟩ := exists_angle hless
    have hconcat : SameKinds (ls ++ [⟨.greater, k⟩]) later := hargs
    obtain ⟨inner, k', rfl, hinner⟩ := hconcat.concat rfl
    obtain ⟨parts', hjoined', hderives, hmoved⟩ := exists_moved_parts hjoined rfl ih hinner
    exact ⟨_, .application base dotted' i' j' k' hderives hjoined',
      .of_meanings hmoved rfl rfl rfl rfl⟩
  | function i j k _ hjoined ih =>
    intro ls' hls
    obtain ⟨i', later, rfl, hopen⟩ := hls.cons rfl
    obtain ⟨j', later, rfl, hlist⟩ := hopen.cons rfl
    obtain ⟨inner, k', rfl, hinner⟩ := hlist.concat rfl
    obtain ⟨parts', hjoined', hderives, hmoved⟩ := exists_moved_parts hjoined rfl ih hinner
    refine ⟨_, .function i' j' k' hderives hjoined', fun t ht => ?_, rfl, rfl⟩
    rw [meaning] at ht ⊢
    obtain ⟨params, hparams, ht⟩ := bind_eq_ok.mp ht
    rw [Moved.paramsOf hmoved hparams, ok_bind, ht]
  | functionTo i j k m _ hjoined _ ih ihresult =>
    intro ls' hls
    obtain ⟨i', later, rfl, hopen⟩ := hls.cons rfl
    obtain ⟨j', later, rfl, hlist⟩ := hopen.cons rfl
    obtain ⟨inner, later, rfl, hinner, hclose⟩ := hlist.append
    obtain ⟨k', later, rfl, hcolon⟩ := hclose.cons rfl
    obtain ⟨m', after, rfl, hafter⟩ := hcolon.cons rfl
    obtain ⟨parts', hjoined', hderives, hmoved⟩ := exists_moved_parts hjoined rfl ih hinner
    obtain ⟨p', hresult, hmovedResult⟩ := ihresult after hafter
    refine ⟨_, .functionTo i' j' k' m' hderives hjoined' hresult, fun t ht => ?_, rfl, rfl⟩
    rw [meaning] at ht ⊢
    obtain ⟨params, hparams, ht⟩ := bind_eq_ok.mp ht
    obtain ⟨u, hu, ht⟩ := bind_eq_ok.mp ht
    rw [Moved.paramsOf hmoved hparams, ok_bind, hmovedResult.meaning u hu, ok_bind, ht]
  | basic _ ih => exact ih.of_derives .basic
  | trail mark _ hinner hmarks ih =>
    intro ls' hls
    obtain ⟨inner, marks', rfl, hsame, hmarks'⟩ := hls.append
    obtain ⟨p', hderives, hmoved⟩ := ih inner hsame
    have hresult : p'.hasResult = false := hmoved.hasResult.trans hinner
    have hangle : ∀ t ∈ mark.tokens, t.isAngle = false := by cases mark <;> decide
    rw [← hmarks, List.forall_mem_map] at hangle
    have hsameMarks : SameTokens _ marks' := SameKinds.tokens hmarks' hangle
    exact ⟨_, .trail mark hderives hresult (hsameMarks.trans hmarks),
      .of_meaning hmoved (meaning_trail mark _) (meaning_trail mark _) rfl rfl⟩
  | lead mark i _ ih =>
    intro ls' hls
    obtain ⟨i', inner, rfl, hinner⟩ := hls.cons (by cases mark <;> rfl)
    obtain ⟨p', hderives, hmoved⟩ := ih inner hinner
    exact ⟨_, .lead mark i' hderives,
      .of_meaning hmoved (meaning_lead mark _) (meaning_lead mark _) rfl rfl⟩
  | postfixed _ ih => exact ih.of_derives .postfixed
  | type _ ih => exact ih.of_derives .type
  | union htwo _ hjoined ih =>
    intro ls' hls
    obtain ⟨parts', hjoined', hderives, hmoved⟩ := exists_moved_parts hjoined rfl ih hls
    have htwo' : 2 ≤ parts'.length := by
      have hlength := hmoved.length_eq
      rw [List.length_map, List.length_map] at hlength
      omega
    exact ⟨_, .union htwo' hderives hjoined', .of_meanings hmoved rfl rfl rfl rfl⟩
  | plain _ ih => exact ih.of_derives .plain
  | optional i _ ih =>
    intro ls' hls
    obtain ⟨inner, i', rfl, hinner⟩ := hls.concat rfl
    obtain ⟨p', hderives, hmoved⟩ := ih inner hinner
    exact ⟨_, .optional i' hderives, .of_meaning hmoved rfl rfl rfl rfl⟩
  | param _ ih => exact ih.of_derives .param
  | paramVariadic i _ ih =>
    intro ls' hls
    obtain ⟨i', inner, rfl, hinner⟩ := hls.cons rfl
    obtain ⟨p', hderives, hmoved⟩ := ih inner hinner
    exact ⟨_, .paramVariadic i' hderives, .of_meaning hmoved rfl rfl rfl rfl⟩
  | labelled label i j _ ih =>
    intro ls' hls
    obtain ⟨i', later, rfl, hlater⟩ := hls.cons rfl
    obtain ⟨j', inner, rfl, hinner⟩ := hlater.cons rfl
    obtain ⟨p', hderives, hmoved⟩ := ih inner hinner
    exact ⟨_, .labelled label i' j' hderives, hmoved.meaning, rfl, rfl⟩
  | root _ ih => exact ih.of_derives .root
  | rootVariadic i _ ih =>
    intro ls' hls
    obtain ⟨i', inner, rfl, hinner⟩ := hls.cons rfl
    obtain ⟨p', hderives, hmoved⟩ := ih inner hinner
    exact ⟨_, .rootVariadic i' hderives, .of_meaning hmoved rfl rfl rfl rfl⟩

/-! ## Texts with the same tokens -/

/-- A text elsewhere is made of the same tokens. -/
theorem Lexes.relocate {n : ℕ} {s : List Char} {ls : List Located} (h : Lexes n s ls) (m : ℕ) :
    ∃ ls', Lexes m s ls' ∧ SameTokens ls ls' := by
  induction h generalizing m with
  | nil => exact ⟨[], .nil m, rfl⟩
  | space hc _ ih =>
    obtain ⟨ls', hlexes, hsame⟩ := ih (m + 1)
    exact ⟨ls', .space hc hlexes, hsame⟩
  | @token n t s ls ht hends _ ih =>
    obtain ⟨ls', hlexes, hsame⟩ := ih (m + t.text.length)
    exact ⟨⟨t, m⟩ :: ls', .token ht hends hlexes, congrArg (t :: ·) hsame⟩

theorem Token.ends_congr {t : Token} {c : Char} {a b : List Char} (h : t.Ends (c :: a))
    (hab : c = '.' → b.head? = a.head?) : t.Ends (c :: b) := by
  cases t with
  | name _ | function => exact ⟨h.1, fun hc => by rw [hab hc]; exact h.2 hc⟩
  | number text =>
    refine ⟨h.1, fun hpoint after hafter => ?_⟩
    obtain ⟨hc, rfl⟩ := List.cons.inj hafter
    rw [hab hc]
    exact h.2 hpoint a (by rw [hc])
  | _ => trivial

theorem isBlank_of_isSpace {c : Char} (h : Token.isSpace c = true) : Text.isBlank c = true := by
  simp only [Token.isSpace, Bool.or_eq_true, beq_iff_eq] at h
  rcases h with (((rfl | rfl) | rfl) | rfl) | rfl <;> rfl

/-- No token goes on with a blank. -/
theorem Token.ends_space {c : Char} (hc : isSpace c = true) (t : Token) (s : List Char) :
    t.Ends (c :: s) := by
  obtain ⟨hpart, hdigit⟩ := not_word_of_isBlank (isBlank_of_isSpace hc)
  have hpoint : c ≠ '.' := by
    rintro rfl
    exact absurd hc (by decide)
  cases t with
  | name _ | function => exact ⟨hpart, fun h => absurd h hpoint⟩
  | number text => exact ⟨hdigit, fun _ after h => absurd (List.cons.inj h).1 hpoint⟩
  | _ => trivial

theorem Token.exists_word_head {t : Token} (ht : t.Lexeme) (hword : t.isWord = true) :
    ∃ c later, t.text.toList = c :: later ∧ c ≠ '.' := by
  have hne : ∀ {c : Char} {p : Char → Bool}, p c = true → p '.' = false → c ≠ '.' := by
    rintro c p hc hpoint rfl
    exact absurd (hc.symm.trans hpoint) Bool.noConfusion
  cases t with
  | name word =>
    obtain ⟨⟨c, later, hname, hc, -⟩, -⟩ := ht
    exact ⟨c, later, hname, hne hc (by decide)⟩
  | function => exact ⟨_, _, rfl, by decide⟩
  | number digits =>
    rcases ht with h | ⟨digits', hdigits, -⟩
    · obtain ⟨c, later, hs, hc⟩ := h.exists_digit
      exact ⟨c, later, hs, hne hc (by decide)⟩
    · exact ⟨'-', digits', hdigits, by decide⟩
  | _ => cases hword

/-- Whether a token goes on in the next one does not depend on what follows that. -/
theorem Token.ends_text {t next : Token} {s : List Char} (hnext : next.Lexeme)
    (h : t.Ends (next.text.toList ++ s)) (s' : List Char) : t.Ends (next.text.toList ++ s') := by
  by_cases hword : next.isWord = true
  · obtain ⟨c, later, htext, hpoint⟩ := Token.exists_word_head hnext hword
    rw [htext, List.cons_append] at h ⊢
    exact Token.ends_congr h fun hc => absurd hc hpoint
  · exact Token.ends_of_apart hnext (fun _ => Bool.not_eq_true _ ▸ hword) s'

theorem Token.Ends.of_append {t : Token} {a b : List Char} (h : t.Ends (a ++ b)) : t.Ends a := by
  cases a with
  | nil => exact t.ends_nil
  | cons c a =>
    have hhead : ∀ p : Char → Bool, (a ++ b).head?.any p = false → a.head?.any p = false := by
      intro p hp
      cases a with
      | nil => rfl
      | cons d a => exact hp
    cases t with
    | name _ | function => exact ⟨h.1, fun hc => hhead _ (h.2 hc)⟩
    | number text =>
      refine ⟨h.1, fun hpoint after hafter => ?_⟩
      obtain ⟨rfl, rfl⟩ := List.cons.inj hafter
      exact hhead _ (h.2 hpoint _ rfl)
    | _ => trivial

theorem Lexes.ends_append {n : ℕ} {s u : List Char} {ls : List Located} {t : Token}
    (h : Lexes n s ls) (hends : t.Ends s) (hu : t.Ends u) : t.Ends (s ++ u) := by
  cases h with
  | nil => exact hu
  | space hc _ => exact t.ends_space hc _
  | token hnext _ _ =>
    rw [List.append_assoc]
    exact Token.ends_text hnext hends _

/-- **A text that goes on** where no token does has its own tokens and those that follow. -/
theorem Lexes.append {n : ℕ} {s u : List Char} {ls later : List Located} (h : Lexes n s ls)
    (hu : ∀ t : Token, t.Ends u) (hlater : Lexes (n + s.length) u later) :
    Lexes n (s ++ u) (ls ++ later) := by
  induction h with
  | nil => exact hlater
  | @space n c s ls hc _ ih =>
    rw [List.length_cons, Nat.add_comm s.length, ← Nat.add_assoc] at hlater
    exact .space hc (ih hlater)
  | @token n t s ls ht hends hs ih =>
    rw [List.length_append, String.length_toList, ← Nat.add_assoc] at hlater
    rw [List.append_assoc]
    exact .token ht (hs.ends_append hends (hu t)) (ih hlater)

theorem Lexes.unique {s : List Char} {ls ls' : List Located} (h : Lexes 0 s ls)
    (h' : Lexes 0 s ls') : ls = ls' :=
  (Scan.mk.inj ((scan_eq_iff.mpr h).symm.trans (scan_eq_iff.mpr h'))).1

theorem Lexes.eq_nil {n : ℕ} {ls : List Located} (h : Lexes n [] ls) : ls = [] := by
  have hscan : Scan.from 0 n [] = ⟨ls, .endOfText⟩ := scan_of_lexes h 0 (Nat.le_refl _)
  exact (Scan.mk.inj hscan).1.symm

theorem Token.trimRight_append {t : Token} (ht : t.Lexeme) (s : List Char) :
    Text.trimRight (t.text.toList ++ s) = t.text.toList ++ Text.trimRight s := by
  have htext : Text.trimRight t.text.toList = t.text.toList := by
    rw [Text.trimRight_eq_rdropWhile, List.rdropWhile_eq_self_iff]
    intro hne
    have hlast := (Token.not_blank_ends ht).2 _ (List.getLast_mem_getLast? hne)
    rw [hlast]
    exact Bool.false_ne_true
  rw [Text.trimRight_append]
  by_cases hs : Text.trimRight s = []
  · rw [if_pos hs, htext, hs, List.append_nil]
  · rw [if_neg hs]

/-- The blanks at the end of a text belong to no token. -/
theorem Lexes.trimRight {n : ℕ} {s : List Char} {ls : List Located} (h : Lexes n s ls) :
    Lexes n (Text.trimRight s) ls := by
  induction h with
  | nil n => exact .nil n
  | @space n c s ls hc _ ih =>
    have hsplit : Text.trimRight (c :: s) = Text.trimRight ([c] ++ s) := rfl
    rw [hsplit, Text.trimRight_append]
    by_cases hs : Text.trimRight s = []
    · have hblank : Text.trimRight [c] = [] :=
        Text.trimRight_eq_nil (List.forall_mem_singleton.mpr (isBlank_of_isSpace hc))
      rw [hs] at ih
      rw [if_pos hs, hblank, ih.eq_nil]
      exact .nil n
    · rw [if_neg hs]
      exact .space hc ih
  | @token n t s ls ht hends _ ih =>
    obtain ⟨blanks, hblanks⟩ : Text.trimRight s <+: s := List.rdropWhile_prefix Text.isBlank _
    have hends' : t.Ends (Text.trimRight s ++ blanks) := by rwa [hblanks]
    rw [Token.trimRight_append ht]
    exact .token ht hends'.of_append ih

/-- The blanks at the ends of a text belong to no token. -/
theorem Lexes.trim {n : ℕ} {s : List Char} {ls : List Located} (h : Lexes n s ls) :
    ∃ ls', Lexes 0 (Text.trim s) ls' ∧ SameTokens ls ls' := by
  induction h with
  | nil => exact ⟨[], .nil 0, rfl⟩
  | space hc _ ih =>
    rw [Text.trim_cons_of_blank (isBlank_of_isSpace hc)]
    exact ih
  | @token n t s ls ht hends hs ih =>
    obtain ⟨ls', hlexes, hsame⟩ := (Lexes.token ht hends hs).relocate 0
    obtain ⟨c, later, htext⟩ := List.exists_cons_of_ne_nil (Token.text_ne_nil ht)
    have hc : Text.isBlank c = false := (Token.not_blank_ends ht).1 c (by rw [htext]; rfl)
    have hleft : Text.trimLeft (t.text.toList ++ s) = t.text.toList ++ s := by
      rw [htext, List.cons_append, Text.trimLeft_of_not_blank hc]
    refine ⟨ls', ?_, hsame⟩
    rw [Text.trim, hleft]
    exact hlexes.trimRight

/-- **Texts with tokens of the same kinds** stand for the same type. -/
theorem parse_of_same_kinds {text text' : String} {n : TypeExpr} {ls ls' : List Located}
    (h : Lexes 0 (Text.trim text.toList) ls) (h' : Lexes 0 (Text.trim text'.toList) ls')
    (hsame : SameKinds ls ls') (hn : parse text = .ok n) : parse text' = .ok n := by
  obtain ⟨tokens, p, hlexes, hderives, hmeaning⟩ := parse_eq_ok_iff.mp hn
  obtain rfl := h.unique hlexes
  obtain ⟨p', hderives', hmoved⟩ := movable_of_derives hderives ls' hsame
  exact parse_eq_ok_iff.mpr ⟨ls', p', h', hderives', hmoved.meaning n hmeaning⟩

/-- Texts with the same tokens stand for the same type. -/
theorem parse_of_same_tokens {text text' : String} {n : TypeExpr} {ls ls' : List Located}
    (h : Lexes 0 (Text.trim text.toList) ls) (h' : Lexes 0 (Text.trim text'.toList) ls')
    (hsame : SameTokens ls ls') (hn : parse text = .ok n) : parse text' = .ok n :=
  parse_of_same_kinds h h' hsame.kinds hn

end Ambient.TypeExpr
