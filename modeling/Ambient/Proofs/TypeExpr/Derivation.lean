import Ambient.Refusal
import Ambient.TypeExpr.Reading
import Mathlib.Data.List.Basic

/-!
# Derivations

The grammar of type expressions as rules that say which tokens each phrase is written with, without
saying how to find the phrase. A mark after a type belongs to the nearest operand: it is never put
on a function type that has a result, for it can go to the result.

* `Rule`, `Derives`: the rules, and what they derive;
* `meaning_lead`, `meaning_trail`: a mark goes on the type of what it stands by;
* `Phrase.PartOf`: the parts of a phrase;
* `Phrase.Proper`: what the marks, the labels and the keys of a phrase keep to;
* **`proper_of_partOf`**: every part of a derived phrase that has a meaning is proper.
-/

namespace Ambient.TypeExpr

/-- The tokens of a mark before a type. -/
def Lead.token : Lead → Token
  | .question => .question
  | .bang => .bang

/-- The tokens of a mark after a type. -/
def Trail.tokens : Trail → List Token
  | .question => [.question]
  | .bang => [.bang]
  | .brackets => [.openBracket, .closeBracket]

/-- A type with a mark before it. -/
def Lead.marked : Lead → TypeExpr → TypeExpr
  | .question, t => .nullable .before t
  | .bang, t => .nonNullable .before t

/-- A type with a mark after it. -/
def Trail.marked : Trail → TypeExpr → TypeExpr
  | .question, t => .nullable .after t
  | .bang, t => .nonNullable .after t
  | .brackets, t => .application (.name "Array") [t]

/-- The token before the arguments of a type. -/
def angle (dotted : Bool) : Token := if dotted then .dotLess else .less

/-- A token that a record key may be. -/
def Token.isKey : Token → Bool
  | .name _ | .quoted _ _ | .number _ => true
  | _ => false

/-- A function type with a result. -/
def Phrase.hasResult : Phrase → Bool
  | .functionTo _ _ => true
  | _ => false

/-- The rules of the grammar. -/
inductive Rule
  | root
  /-- A union that may be marked optional. -/
  | value
  | union
  | type
  /-- A type without marks before it. -/
  | postfixed
  /-- A type without marks. -/
  | basic
  | param
  | field
  deriving DecidableEq, Repr

/-- The tokens of several parts, a separator between each two. -/
inductive Joined (sep : Token) : List (List Located) → List Located → Prop
  | nil : Joined sep [] []
  | one (ls : List Located) : Joined sep [ls] ls
  | more {ls next tail : List Located} {later : List (List Located)} (i : ℕ)
      (h : Joined sep (next :: later) tail) :
      Joined sep (ls :: next :: later) (ls ++ ⟨sep, i⟩ :: tail)

/-- The tokens that a phrase is written with, by a rule of the grammar. -/
inductive Derives : Rule → List Located → Phrase → Prop
  | all (i : ℕ) : Derives .basic [⟨.star, i⟩] .all
  | name (text : String) (i : ℕ) : Derives .basic [⟨.name text, i⟩] (.name text)
  | group {parts : List (List Located × Phrase)} {ls : List Located} (i j : ℕ) (hne : parts ≠ [])
      (hparts : ∀ part ∈ parts, Derives .type part.1 part.2)
      (hjoined : Joined .bar (parts.map Prod.fst) ls) :
      Derives .basic (⟨.openParen, i⟩ :: (ls ++ [⟨.closeParen, j⟩])) (.group (parts.map Prod.snd))
  | tuple {parts : List (List Located × Phrase)} {ls : List Located} (i j : ℕ)
      (hparts : ∀ part ∈ parts, Derives .union part.1 part.2)
      (hjoined : Joined .comma (parts.map Prod.fst) ls) :
      Derives .basic (⟨.openBracket, i⟩ :: (ls ++ [⟨.closeBracket, j⟩]))
        (.tuple (parts.map Prod.snd))
  | record {parts : List (List Located × Phrase)} {ls : List Located} (i j : ℕ)
      (hparts : ∀ part ∈ parts, Derives .field part.1 part.2)
      (hjoined : Joined .comma (parts.map Prod.fst) ls) :
      Derives .basic (⟨.openBrace, i⟩ :: (ls ++ [⟨.closeBrace, j⟩])) (.record (parts.map Prod.snd))
  | application {parts : List (List Located × Phrase)} {ls : List Located} (base : String)
      (dotted : Bool) (i j k : ℕ) (hparts : ∀ part ∈ parts, Derives .union part.1 part.2)
      (hjoined : Joined .comma (parts.map Prod.fst) ls) :
      Derives .basic (⟨.name base, i⟩ :: ⟨angle dotted, j⟩ :: (ls ++ [⟨.greater, k⟩]))
        (.application base dotted (parts.map Prod.snd))
  | function {parts : List (List Located × Phrase)} {ls : List Located} (i j k : ℕ)
      (hparts : ∀ part ∈ parts, Derives .param part.1 part.2)
      (hjoined : Joined .comma (parts.map Prod.fst) ls) :
      Derives .basic (⟨.function, i⟩ :: ⟨.openParen, j⟩ :: (ls ++ [⟨.closeParen, k⟩]))
        (.function (parts.map Prod.snd))
  | functionTo {parts : List (List Located × Phrase)} {ls after : List Located} {result : Phrase}
      (i j k m : ℕ) (hparts : ∀ part ∈ parts, Derives .param part.1 part.2)
      (hjoined : Joined .comma (parts.map Prod.fst) ls) (hresult : Derives .type after result) :
      Derives .basic
        (⟨.function, i⟩ :: ⟨.openParen, j⟩ :: (ls ++ ⟨.closeParen, k⟩ :: ⟨.colon, m⟩ :: after))
        (.functionTo (parts.map Prod.snd) result)
  | basic {ls : List Located} {p : Phrase} (h : Derives .basic ls p) : Derives .postfixed ls p
  | trail {ls marks : List Located} {inner : Phrase} (mark : Trail)
      (h : Derives .postfixed ls inner) (hinner : inner.hasResult = false)
      (hmarks : marks.map Located.token = mark.tokens) :
      Derives .postfixed (ls ++ marks) (.trail inner mark)
  | unknown (i : ℕ) : Derives .type [⟨.question, i⟩] .unknown
  | lead {ls : List Located} {inner : Phrase} (mark : Lead) (i : ℕ) (h : Derives .type ls inner) :
      Derives .type (⟨mark.token, i⟩ :: ls) (.lead mark inner)
  | postfixed {ls : List Located} {p : Phrase} (h : Derives .postfixed ls p) : Derives .type ls p
  | type {ls : List Located} {p : Phrase} (h : Derives .type ls p) : Derives .union ls p
  | union {parts : List (List Located × Phrase)} {ls : List Located} (htwo : 2 ≤ parts.length)
      (hparts : ∀ part ∈ parts, Derives .type part.1 part.2)
      (hjoined : Joined .bar (parts.map Prod.fst) ls) :
      Derives .union ls (.union (parts.map Prod.snd))
  | plain {ls : List Located} {p : Phrase} (h : Derives .union ls p) : Derives .value ls p
  | optional {ls : List Located} {inner : Phrase} (i : ℕ) (h : Derives .union ls inner) :
      Derives .value (ls ++ [⟨.equals, i⟩]) (.optional inner)
  | param {ls : List Located} {p : Phrase} (h : Derives .value ls p) : Derives .param ls p
  | paramEllipsis (i : ℕ) : Derives .param [⟨.ellipsis, i⟩] .bareEllipsis
  | paramVariadic {ls : List Located} {inner : Phrase} (i : ℕ) (h : Derives .type ls inner) :
      Derives .param (⟨.ellipsis, i⟩ :: ls) (.variadic inner)
  | labelled {ls : List Located} {inner : Phrase} (label : String) (i j : ℕ)
      (h : Derives .type ls inner) :
      Derives .param (⟨.name label, i⟩ :: ⟨.colon, j⟩ :: ls) (.labelled label i inner)
  | key {l : Located} (hkey : l.token.isKey = true) : Derives .field [l] (.key l)
  | field {l : Located} {ls : List Located} {value : Phrase} (j : ℕ) (hkey : l.token.isKey = true)
      (h : Derives .value ls value) : Derives .field (l :: ⟨.colon, j⟩ :: ls) (.field l value)
  | root {ls : List Located} {p : Phrase} (h : Derives .value ls p) : Derives .root ls p
  | rootEllipsis (i : ℕ) : Derives .root [⟨.ellipsis, i⟩] .bareEllipsis
  | rootVariadic {ls : List Located} {inner : Phrase} (i : ℕ) (h : Derives .union ls inner) :
      Derives .root (⟨.ellipsis, i⟩ :: ls) (.variadic inner)

namespace Phrase

/-! ## The parts of a phrase -/

/-- The phrases right inside a phrase. -/
def children : Phrase → List Phrase
  | .group ps | .tuple ps | .record ps | .application _ _ ps | .function ps | .union ps => ps
  | .functionTo ps result => ps ++ [result]
  | .lead _ inner | .trail inner _ | .optional inner | .variadic inner | .labelled _ _ inner
  | .field _ inner => [inner]
  | .name _ | .all | .unknown | .bareEllipsis | .key _ => []

/-- A phrase is a part of another one: the phrase itself, or a part of a phrase right inside. -/
inductive PartOf (q : Phrase) : Phrase → Prop
  | self : PartOf q q
  | inside {p child : Phrase} (hchild : child ∈ p.children) (h : PartOf q child) : PartOf q p

/-- The operands that a mark can be put on: types without marks before them, unless they have a
result that the mark can go to. -/
def takesMark : Phrase → Bool
  | .name _ | .all | .group _ | .tuple _ | .record _ | .application _ _ _ | .function _
  | .trail _ _ => true
  | _ => false

/-- A record key that is no name with a point in it. -/
def PlainKey (l : Located) : Prop := ∀ text, l.token = .name text → text.contains '.' = false

/-- A phrase whose label, if it has one, is `this` or `new`. -/
def KnownLabel : Phrase → Prop
  | .labelled label _ _ => label = "this" ∨ label = "new"
  | _ => True

/-- Marks are on operands, labels are `this` or `new`, and keys that are names have no point. -/
def Proper : Phrase → Prop
  | .trail inner _ => inner.takesMark = true
  | .labelled label _ _ => label = "this" ∨ label = "new"
  | .key l => PlainKey l
  | .field l _ => PlainKey l
  | _ => True

theorem forall_partOf {P : Phrase → Prop} {p : Phrase} (hself : P p)
    (hinside : ∀ child ∈ p.children, ∀ q, PartOf q child → P q) : ∀ q, PartOf q p → P q := by
  intro q hq
  cases hq with
  | self => exact hself
  | inside hchild h => exact hinside _ hchild q h

/-! ## Phrases that have a meaning -/

theorem meaning_lead (mark : Lead) (inner : Phrase) :
    (Phrase.lead mark inner).meaning = inner.meaning >>= fun t => .ok (mark.marked t) := by
  cases mark <;> (rw [meaning]; rfl)

theorem meaning_trail (mark : Trail) (inner : Phrase) :
    (Phrase.trail inner mark).meaning = inner.meaning >>= fun t => .ok (mark.marked t) := by
  cases mark <;> (rw [meaning]; rfl)

theorem meanings_cons {p : Phrase} {ps : List Phrase} {ts : List TypeExpr}
    (h : meanings (p :: ps) = .ok ts) :
    ∃ t later, p.meaning = .ok t ∧ meanings ps = .ok later ∧ ts = t :: later := by
  rw [meanings] at h
  obtain ⟨t, ht, h⟩ := bind_eq_ok.mp h
  obtain ⟨later, hlater, h⟩ := bind_eq_ok.mp h
  cases h
  exact ⟨t, later, ht, hlater, rfl⟩

/-- Of several phrases that have a meaning together, each has one of its own. -/
theorem exists_meaning_of_meanings {ps : List Phrase} : ∀ {ts : List TypeExpr},
    meanings ps = .ok ts → ∀ p ∈ ps, ∃ t, p.meaning = .ok t := by
  induction ps with
  | nil =>
    intro ts _ p hp
    cases hp
  | cons p ps ih =>
    intro ts h
    obtain ⟨t, later, ht, hlater, -⟩ := meanings_cons h
    rw [List.forall_mem_cons]
    exact ⟨⟨t, ht⟩, ih hlater⟩

/-- A labelled parameter. -/
def isLabelled : Phrase → Bool
  | .labelled _ _ _ => true
  | _ => false

/-- The first parameter of several has a meaning and, if it is labelled, a known label. It goes to
the plain parameters or, with a label, to the labelled types. -/
theorem paramsOf_cons {p : Phrase} {ps : List Phrase} {params : Params}
    (h : paramsOf (p :: ps) = .ok params) :
    ∃ t later, p.meaning = .ok t ∧ paramsOf ps = .ok later ∧ p.KnownLabel ∧
      (p.isLabelled = false ∧ params = { later with plain := t :: later.plain } ∨
        p.isLabelled = true ∧ params.plain = later.plain ∧
          (params.thisType = later.thisType ∨ params.thisType = t) ∧
          (params.newType = later.newType ∨ params.newType = t)) := by
  cases p with
  | labelled label position inner =>
    rw [paramsOf] at h
    obtain ⟨t, ht, h⟩ := bind_eq_ok.mp h
    split_ifs at h with hlabel hthis
    all_goals
      obtain ⟨later, hlater, h⟩ := bind_eq_ok.mp h
      cases h
      refine ⟨t, later, ht, hlater, ?_, Or.inr ⟨rfl, rfl, ?_, ?_⟩⟩
    · exact Or.inl hthis
    · dsimp only
      split_ifs
      · exact Or.inr rfl
      · exact Or.inl rfl
    · exact Or.inl rfl
    · exact Or.inr (not_not.mp fun hnew => hlabel ⟨hthis, hnew⟩)
    · exact Or.inl rfl
    · dsimp only
      split_ifs
      · exact Or.inr rfl
      · exact Or.inl rfl
  | _ =>
    rw [paramsOf] at h
    · obtain ⟨t, ht, h⟩ := bind_eq_ok.mp h
      obtain ⟨later, hlater, h⟩ := bind_eq_ok.mp h
      cases h
      exact ⟨t, later, ht, hlater, trivial, Or.inl ⟨rfl, rfl⟩⟩
    · exact fun _ _ _ h => Phrase.noConfusion h

/-- The parameters of a function type have a meaning each, and known labels. -/
theorem forall_of_paramsOf {ps : List Phrase} : ∀ {params : Params}, paramsOf ps = .ok params →
    ∀ p ∈ ps, (∃ t, p.meaning = .ok t) ∧ p.KnownLabel := by
  induction ps with
  | nil =>
    intro params _ p hp
    cases hp
  | cons p ps ih =>
    intro params h
    obtain ⟨t, later, ht, hlater, hlabel, -⟩ := paramsOf_cons h
    rw [List.forall_mem_cons]
    exact ⟨⟨⟨t, ht⟩, hlabel⟩, ih hlater⟩

/-- What is right inside a phrase that has a meaning has one itself. -/
theorem exists_meaning_of_mem_children {p : Phrase} {t : TypeExpr} (h : p.meaning = .ok t) :
    ∀ child ∈ p.children, ∃ u, child.meaning = .ok u := by
  cases p with
  | group ps | tuple ps | record ps | application _ _ ps | union ps =>
    rw [meaning] at h
    obtain ⟨ts, hts, -⟩ := bind_eq_ok.mp h
    exact exists_meaning_of_meanings hts
  | function ps =>
    rw [meaning] at h
    obtain ⟨params, hparams, -⟩ := bind_eq_ok.mp h
    exact fun child hchild => (forall_of_paramsOf hparams child hchild).1
  | functionTo ps result =>
    rw [meaning] at h
    obtain ⟨params, hparams, h⟩ := bind_eq_ok.mp h
    obtain ⟨u, hu, -⟩ := bind_eq_ok.mp h
    intro child hchild
    rcases List.mem_append.mp hchild with hchild | hchild
    · exact (forall_of_paramsOf hparams child hchild).1
    · exact ⟨u, List.mem_singleton.mp hchild ▸ hu⟩
  | lead mark inner =>
    obtain ⟨u, hu, -⟩ := bind_eq_ok.mp (meaning_lead mark inner ▸ h)
    exact List.forall_mem_singleton.mpr ⟨u, hu⟩
  | trail inner mark =>
    obtain ⟨u, hu, -⟩ := bind_eq_ok.mp (meaning_trail mark inner ▸ h)
    exact List.forall_mem_singleton.mpr ⟨u, hu⟩
  | optional inner | variadic inner =>
    rw [meaning] at h
    obtain ⟨u, hu, -⟩ := bind_eq_ok.mp h
    exact List.forall_mem_singleton.mpr ⟨u, hu⟩
  | labelled label position inner =>
    rw [meaning] at h
    exact List.forall_mem_singleton.mpr ⟨t, h⟩
  | field l value =>
    rw [meaning] at h
    obtain ⟨key, -, h⟩ := bind_eq_ok.mp h
    obtain ⟨u, hu, -⟩ := bind_eq_ok.mp h
    exact List.forall_mem_singleton.mpr ⟨u, hu⟩
  | name _ | all | unknown | bareEllipsis | key _ =>
    intro child hchild
    cases hchild

theorem plainKey_of_keyOf {l : Located} {key : String} (h : keyOf l = .ok key) : PlainKey l := by
  intro text hl
  rw [keyOf, hl] at h
  by_contra hpoint
  rw [Bool.not_eq_false] at hpoint
  simp only [hpoint, if_true] at h
  cases h

end Phrase

/-! ## Derived phrases -/

namespace Derives

open Phrase

theorem takesMark {ls : List Located} {p : Phrase} (h : Derives .postfixed ls p)
    (hp : p.hasResult = false) : p.takesMark = true := by
  cases h with
  | basic h =>
    cases h with
    | functionTo => cases hp
    | _ => rfl
  | trail => rfl

/-- The parts of phrases that a rule derives are proper, if those of each phrase are once it has a
meaning and, as a parameter, a known label. -/
theorem proper_of_parts {rule : Rule} {parts : List (List Located × Phrase)}
    (ih : ∀ part ∈ parts, ∀ {t : TypeExpr}, part.2.meaning = .ok t →
      (rule = .param → part.2.KnownLabel) → ∀ q, PartOf q part.2 → q.Proper)
    (h : ∀ p ∈ parts.map Prod.snd, (∃ t, p.meaning = .ok t) ∧ (rule = .param → p.KnownLabel)) :
    ∀ p ∈ parts.map Prod.snd, ∀ q, PartOf q p → q.Proper := by
  intro p hp
  obtain ⟨⟨t, ht⟩, hlabel⟩ := h p hp
  obtain ⟨part, hpart, rfl⟩ := List.mem_map.mp hp
  exact ih part hpart ht hlabel

/-- **Every part of a derived phrase that has a meaning is proper.** Only the parameters of a
function type can have a label, which that function type has checked. -/
theorem proper_of_partOf {rule : Rule} {ls : List Located} {p : Phrase} (h : Derives rule ls p) :
    ∀ {t : TypeExpr}, p.meaning = .ok t → (rule = .param → p.KnownLabel) →
      ∀ q, PartOf q p → q.Proper := by
  induction h with
  | all i | name text i | unknown i | paramEllipsis i | rootEllipsis i =>
    intro t _ _
    exact forall_partOf trivial (fun _ hchild => nomatch hchild)
  | group i j _ _ _ ih | tuple i j _ _ ih | record i j _ _ ih | union _ _ _ ih
  | application _ _ i j k _ _ ih =>
    intro t ht _
    refine forall_partOf trivial (proper_of_parts ih fun child hchild => ?_)
    exact ⟨exists_meaning_of_mem_children ht child hchild, fun h => nomatch h⟩
  | function i j k _ _ ih =>
    intro t ht _
    rw [meaning] at ht
    obtain ⟨params, hparams, -⟩ := bind_eq_ok.mp ht
    refine forall_partOf trivial (proper_of_parts ih fun child hchild => ?_)
    obtain ⟨hmeaning, hlabel⟩ := forall_of_paramsOf hparams child hchild
    exact ⟨hmeaning, fun _ => hlabel⟩
  | functionTo i j k m _ _ _ ih ihresult =>
    intro t ht _
    rw [meaning] at ht
    obtain ⟨params, hparams, ht⟩ := bind_eq_ok.mp ht
    obtain ⟨u, hu, -⟩ := bind_eq_ok.mp ht
    have hps := proper_of_parts ih fun child hchild =>
      have hchild := forall_of_paramsOf hparams child hchild
      ⟨hchild.1, fun _ => hchild.2⟩
    refine forall_partOf trivial fun child hchild => ?_
    rcases List.mem_append.mp hchild with hchild | hchild
    · exact hps child hchild
    · rw [List.mem_singleton.mp hchild]
      exact ihresult hu (fun h => nomatch h)
  | trail mark h hinner _ ih =>
    intro t ht _
    refine forall_partOf (h.takesMark hinner) (List.forall_mem_singleton.mpr ?_)
    obtain ⟨u, hu⟩ := exists_meaning_of_mem_children ht _ List.mem_cons_self
    exact ih hu (fun h => nomatch h)
  | lead _ _ _ ih | optional _ _ ih | paramVariadic _ _ ih | rootVariadic _ _ ih =>
    intro t ht _
    refine forall_partOf trivial (List.forall_mem_singleton.mpr ?_)
    obtain ⟨u, hu⟩ := exists_meaning_of_mem_children ht _ List.mem_cons_self
    exact ih hu (fun h => nomatch h)
  | labelled label i j _ ih =>
    intro t ht hlabel
    exact forall_partOf (hlabel rfl) (List.forall_mem_singleton.mpr (ih ht (fun h => nomatch h)))
  | key _ =>
    intro t ht _
    rw [meaning] at ht
    obtain ⟨key, hkey, -⟩ := bind_eq_ok.mp ht
    exact forall_partOf (plainKey_of_keyOf hkey) (fun _ hchild => nomatch hchild)
  | field j _ _ ih =>
    intro t ht _
    rw [meaning] at ht
    obtain ⟨key, hkey, ht⟩ := bind_eq_ok.mp ht
    obtain ⟨u, hu, -⟩ := bind_eq_ok.mp ht
    refine forall_partOf (plainKey_of_keyOf hkey) (List.forall_mem_singleton.mpr ?_)
    exact ih hu (fun h => nomatch h)
  | basic _ ih | postfixed _ ih | type _ ih | plain _ ih | param _ ih | root _ ih =>
    intro t ht _
    exact ih ht (fun h => nomatch h)

end Derives

end Ambient.TypeExpr
