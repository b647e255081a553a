import Ambient.Proofs.TypeExpr.Complete

/-!
# The shape of what is read

Which trees the grammar can give, place by place: a variadic type stands only at the root or as a
parameter, an optional one also as the value of a record key, and a mark after a type only on an
operand that can take it.

* `Site`: the places of a tree;
* `Fits`: the trees that can stand at a place;
* **`fits_of_parse`**: the type of an accepted text fits the root;
* `fits_induction`: the labelled types of a function aside, the trees that fit are built up from
  those that their texts depend on.
-/

namespace Ambient.TypeExpr

open Phrase

/-- Where a type expression stands. -/
inductive Site
  /-- At the root, or as a parameter of a function type. -/
  | outer
  /-- The value of a record key. -/
  | value
  /-- Inside another type. -/
  | inner
  /-- A member of a record. -/
  | member
  deriving DecidableEq, Repr

/-- The types that a mark can be put after: no type with a mark before it, no `?` alone and no
function type with a result. -/
def takesMark : TypeExpr → Bool
  | .nullable .before _ | .nonNullable .before _ | .unknown => false
  | .function _ result _ _ => (result matches .absent)
  | _ => true

/-- The type expressions that can stand at a place. -/
inductive Fits : Site → TypeExpr → Prop
  | name {n : String} (hn : IsName n.toList)
      (hword : n ≠ "function" ∧ n ≠ "null" ∧ n ≠ "undefined" ∧ n ≠ "void") : Fits .inner (.name n)
  | all : Fits .inner .all
  | unknown : Fits .inner .unknown
  | void : Fits .inner .void
  | null : Fits .inner .null
  | undefined : Fits .inner .undefined
  | nullable {side : Side} {t : TypeExpr} (hside : side = .after → t.takesMark = true)
      (h : Fits .inner t) : Fits .inner (.nullable side t)
  | nonNullable {side : Side} {t : TypeExpr} (hside : side = .after → t.takesMark = true)
      (h : Fits .inner t) : Fits .inner (.nonNullable side t)
  | union {members : List TypeExpr} (hne : members ≠ []) (h : ∀ t ∈ members, Fits .inner t) :
      Fits .inner (.union members)
  | tuple {items : List TypeExpr} (h : ∀ t ∈ items, Fits .inner t) : Fits .inner (.tuple items)
  | application {base : String} {arguments : List TypeExpr} (hbase : IsName base.toList)
      (hword : base ≠ "function") (h : ∀ t ∈ arguments, Fits .inner t) :
      Fits .inner (.application (.name base) arguments)
  | function {params : List TypeExpr} {result thisType newType : TypeExpr}
      (hparams : ∀ t ∈ params, Fits .outer t) (hresult : result ≠ .absent → Fits .inner result)
      (hthis : thisType ≠ .absent → Fits .inner thisType)
      (hnew : newType ≠ .absent → Fits .inner newType) :
      Fits .inner (.function params result thisType newType)
  | record {fields : List TypeExpr} (h : ∀ t ∈ fields, Fits .member t) :
      Fits .inner (.record fields)
  | member {key : String} {t : TypeExpr} (hkey : '\x27' ∉ key.toList ∨ '\x22' ∉ key.toList)
      (h : t ≠ .absent → Fits .value t) : Fits .member (.field key t)
  | plain {t : TypeExpr} (h : Fits .inner t) : Fits .value t
  | optional {t : TypeExpr} (h : Fits .inner t) : Fits .value (.optional t)
  | outer {t : TypeExpr} (h : Fits .value t) : Fits .outer t
  | variadic {t : TypeExpr} (h : t ≠ .absent → Fits .inner t) : Fits .outer (.variadic t)

/-! ## Marks -/

theorem Fits.lead (mark : Lead) {t : TypeExpr} (h : Fits .inner t) :
    Fits .inner (mark.marked t) := by
  cases mark with
  | question => exact .nullable (fun hside => Side.noConfusion hside) h
  | bang => exact .nonNullable (fun hside => Side.noConfusion hside) h

theorem Fits.trail (mark : Trail) {t : TypeExpr} (h : Fits .inner t) (ht : t.takesMark = true) :
    Fits .inner (mark.marked t) := by
  cases mark with
  | question => exact .nullable (fun _ => ht) h
  | bang => exact .nonNullable (fun _ => ht) h
  | brackets =>
    have harray : (Token.name "Array").Lexeme := Token.lexeme_of_read? rfl
    exact .application harray.1 harray.2 (List.forall_mem_singleton.mpr h)

/-! ## Names and keys -/

theorem quote_notMem_of_isName {s : List Char} (h : IsName s) : '\x27' ∉ s := by
  have hall : ∀ c ∈ s, c ≠ '\x27' := by
    refine h.forall_mem (fun c hc => ?_) (by decide)
    rintro rfl
    exact absurd hc (by decide)
  exact fun hmem => hall _ hmem rfl

theorem quote_notMem_of_isNumber {s : List Char} (h : IsNumber s) : '\x27' ∉ s := by
  have hall : ∀ c ∈ s, c ≠ '\x27' := by
    refine h.forall_mem (fun c hc => ?_) (by decide) (by decide)
    rintro rfl
    exact absurd hc (by decide)
  exact fun hmem => hall _ hmem rfl

/-- A key that is read has no quotes of one kind. -/
theorem quote_notMem_of_keyOf {l : Located} {key : String} (hl : l.token.Lexeme)
    (hkey : l.token.isKey = true) (h : keyOf l = .ok key) :
    '\x27' ∉ key.toList ∨ '\x22' ∉ key.toList := by
  obtain ⟨token, i⟩ := l
  cases token with
  | name text =>
    simp only [keyOf] at h
    split_ifs at h
    cases h
    exact Or.inl (quote_notMem_of_isName hl.1)
  | quoted mark body =>
    cases h
    obtain ⟨rfl | rfl, hbody⟩ := hl
    · exact Or.inl hbody
    · exact Or.inr hbody
  | number text =>
    cases h
    exact Or.inl (quote_notMem_of_isNumber hl)
  | _ => cases hkey

theorem fits_ofName {text : String} (h : IsName text.toList) (hword : text ≠ "function") :
    Fits .inner (ofName text) := by
  rw [ofName]
  split_ifs with hnull hundefined hvoid
  · exact .null
  · exact .undefined
  · exact .void
  · exact .name h ⟨hword, hnull, hundefined, hvoid⟩

theorem takesMark_ofName (text : String) : (ofName text).takesMark = true := by
  rw [ofName]
  split_ifs <;> rfl

/-! ## The shape of a meaning -/

/-- The place of what a rule derives. -/
def Rule.place : Rule → Site
  | .root | .param => .outer
  | .value => .value
  | .field => .member
  | .union | .type | .postfixed | .basic => .inner

/-- The place of a phrase that a rule derives: a labelled type stands inside the function type. -/
def Rule.site (rule : Rule) (p : Phrase) : Site := if p.isLabelled then .inner else rule.place

theorem site_of_place {rule : Rule} (h : rule.place = .inner) (p : Phrase) :
    rule.site p = .inner := by
  rw [Rule.site, h, ite_self]

theorem site_of_not_labelled {rule : Rule} {p : Phrase} (h : p.isLabelled = false) :
    rule.site p = rule.place := by
  rw [Rule.site, h]
  rfl

theorem Fits.inner_of_site {rule : Rule} {p : Phrase} {t : TypeExpr} (h : Fits (rule.site p) t)
    (hrule : rule.place = .inner) : Fits .inner t :=
  site_of_place hrule p ▸ h

theorem Fits.of_site {rule : Rule} {p : Phrase} {t : TypeExpr} (h : Fits (rule.site p) t)
    (hp : p.isLabelled = false) : Fits rule.place t :=
  site_of_not_labelled hp ▸ h

theorem exists_phrase_of_meanings {ps : List Phrase} : ∀ {ts : List TypeExpr},
    meanings ps = .ok ts → ∀ t ∈ ts, ∃ p ∈ ps, p.meaning = .ok t := by
  induction ps with
  | nil =>
    intro ts h t ht
    cases h
    cases ht
  | cons p ps ih =>
    intro ts h
    obtain ⟨t, later, ht, hlater, rfl⟩ := meanings_cons h
    refine List.forall_mem_cons.mpr ⟨⟨p, List.mem_cons_self, ht⟩, fun u hu => ?_⟩
    obtain ⟨q, hq, hmeaning⟩ := ih hlater u hu
    exact ⟨q, List.mem_cons_of_mem _ hq, hmeaning⟩

theorem fits_of_paramsOf {ps : List Phrase}
    (hps : ∀ p ∈ ps, ∀ t, p.meaning = .ok t → Fits (Rule.param.site p) t) :
    ∀ {params : Params}, paramsOf ps = .ok params →
      (∀ t ∈ params.plain, Fits .outer t) ∧
        (params.thisType ≠ .absent → Fits .inner params.thisType) ∧
        (params.newType ≠ .absent → Fits .inner params.newType) := by
  induction ps with
  | nil =>
    intro params h
    cases h
    exact ⟨fun t ht => (nomatch ht), fun h => absurd rfl h, fun h => absurd rfl h⟩
  | cons p ps ih =>
    intro params h
    rw [List.forall_mem_cons] at hps
    obtain ⟨t, later, ht, hlater, -, hparams⟩ := paramsOf_cons h
    obtain ⟨hplain, hthis, hnew⟩ := ih hps.2 hlater
    have hfits := hps.1 t ht
    rw [Rule.site] at hfits
    rcases hparams with ⟨hlabel, rfl⟩ | ⟨hlabel, hplain', hthis', hnew'⟩
    · rw [if_neg (Bool.not_eq_true _ ▸ hlabel)] at hfits
      exact ⟨List.forall_mem_cons.mpr ⟨hfits, hplain⟩, hthis, hnew⟩
    · rw [if_pos hlabel] at hfits
      refine ⟨hplain' ▸ hplain, ?_, ?_⟩
      · rcases hthis' with h | h
        · exact h ▸ hthis
        · exact fun _ => h ▸ hfits
      · rcases hnew' with h | h
        · exact h ▸ hnew
        · exact fun _ => h ▸ hfits

theorem Joined.mem {sep : Token} {lists : List (List Located)} {ls : List Located}
    (h : Joined sep lists ls) : ∀ part ∈ lists, ∀ l ∈ part, l ∈ ls := by
  induction h with
  | nil => exact fun part hpart => nomatch hpart
  | one ls => exact List.forall_mem_singleton.mpr fun l hl => hl
  | more i _ ih =>
    refine List.forall_mem_cons.mpr ⟨fun l hl => List.mem_append_left _ hl, ?_⟩
    intro part hpart l hl
    exact List.mem_append_right _ (List.mem_cons_of_mem _ (ih part hpart l hl))

theorem isLabelled_of_union {ls : List Located} {p : Phrase} (h : Derives .union ls p) :
    p.isLabelled = false := by
  cases h with
  | type h =>
    cases h with
    | postfixed h =>
      cases h with
      | basic h => cases h <;> rfl
      | trail => rfl
    | _ => rfl
  | union => rfl

theorem isLabelled_of_value {ls : List Located} {p : Phrase} (h : Derives .value ls p) :
    p.isLabelled = false := by
  cases h with
  | plain h => exact isLabelled_of_union h
  | optional => rfl

theorem isLabelled_of_field {ls : List Located} {p : Phrase} (h : Derives .field ls p) :
    p.isLabelled = false := by
  cases h <;> rfl

/-- An operand that is derived without a result means a type that takes a mark. -/
theorem Derives.takesMark_meaning {ls : List Located} {p : Phrase} (h : Derives .postfixed ls p)
    (hp : p.hasResult = false) {t : TypeExpr} (ht : p.meaning = .ok t) : t.takesMark = true := by
  have hmark := h.takesMark hp
  cases p with
  | name text =>
    cases ht
    exact takesMark_ofName text
  | all =>
    cases ht
    rfl
  | group ps | tuple ps | record ps | application base dotted ps | function ps =>
    rw [meaning] at ht
    obtain ⟨x, -, hx⟩ := bind_eq_ok.mp ht
    cases hx
    rfl
  | trail inner mark =>
    rw [meaning_trail] at ht
    obtain ⟨u, -, hu⟩ := bind_eq_ok.mp ht
    cases hu
    cases mark <;> rfl
  | _ => cases hmark

theorem ne_nil_of_meanings {ps : List Phrase} {ts : List TypeExpr} (h : meanings ps = .ok ts)
    (hne : ps ≠ []) : ts ≠ [] := by
  obtain ⟨p, ps, rfl⟩ := List.exists_cons_of_ne_nil hne
  obtain ⟨t, later, -, -, rfl⟩ := meanings_cons h
  exact List.cons_ne_nil _ _

/-- The meanings of several parts of one rule fit its place, if each of them does. -/
theorem fits_of_meanings {sep : Token} {rule : Rule} {site : Site}
    {parts : List (List Located × Phrase)} {ls : List Located} {ts : List TypeExpr}
    (hjoined : Joined sep (parts.map Prod.fst) ls) (hls : ∀ l ∈ ls, l.token.Lexeme)
    (ih : ∀ part ∈ parts, (∀ l ∈ part.1, l.token.Lexeme) → ∀ {t : TypeExpr},
      part.2.meaning = .ok t → Fits (rule.site part.2) t)
    (hsite : ∀ part ∈ parts, rule.site part.2 = site)
    (hts : meanings (parts.map Prod.snd) = .ok ts) : ∀ t ∈ ts, Fits site t := by
  intro t ht
  obtain ⟨p, hp, hmeaning⟩ := exists_phrase_of_meanings hts t ht
  obtain ⟨part, hpart, rfl⟩ := List.mem_map.mp hp
  have hlexeme := fun l hl => hls l (hjoined.mem part.1 (List.mem_map_of_mem hpart) l hl)
  exact hsite part hpart ▸ ih part hpart hlexeme hmeaning

/-- What the parameters of a function type give fits the places it goes to, if each of them does. -/
theorem fits_of_params {sep : Token} {parts : List (List Located × Phrase)} {ls : List Located}
    {params : Params} (hjoined : Joined sep (parts.map Prod.fst) ls)
    (hls : ∀ l ∈ ls, l.token.Lexeme)
    (ih : ∀ part ∈ parts, (∀ l ∈ part.1, l.token.Lexeme) → ∀ {t : TypeExpr},
      part.2.meaning = .ok t → Fits (Rule.param.site part.2) t)
    (hparams : paramsOf (parts.map Prod.snd) = .ok params) :
    (∀ t ∈ params.plain, Fits .outer t) ∧
      (params.thisType ≠ .absent → Fits .inner params.thisType) ∧
      (params.newType ≠ .absent → Fits .inner params.newType) := by
  refine fits_of_paramsOf (fun p hp t ht => ?_) hparams
  obtain ⟨part, hpart, rfl⟩ := List.mem_map.mp hp
  exact ih part hpart (fun l hl => hls l (hjoined.mem part.1 (List.mem_map_of_mem hpart) l hl)) ht

/-- **The meaning of a derived phrase fits** the place of its rule. -/
theorem fits_of_derives {rule : Rule} {ls : List Located} {p : Phrase} (h : Derives rule ls p) :
    (∀ l ∈ ls, l.token.Lexeme) → ∀ {t : TypeExpr}, p.meaning = .ok t → Fits (rule.site p) t := by
  induction h with
  | all i =>
    intro _ t ht
    cases ht
    exact .all
  | name text i =>
    intro hls t ht
    cases ht
    have hlexeme : (Token.name text).Lexeme := hls _ List.mem_cons_self
    exact fits_ofName hlexeme.1 hlexeme.2
  | @group parts ls i j hne _ hjoined ih =>
    intro hls t ht
    simp only [List.forall_mem_cons, List.forall_mem_append] at hls
    rw [meaning] at ht
    obtain ⟨ts, hts, ht⟩ := bind_eq_ok.mp ht
    cases ht
    refine .union (ne_nil_of_meanings hts (List.map_eq_nil_iff.not.mpr hne)) ?_
    exact fits_of_meanings hjoined hls.2.1 ih (fun _ _ => site_of_place rfl _) hts
  | @tuple parts ls i j _ hjoined ih =>
    intro hls t ht
    simp only [List.forall_mem_cons, List.forall_mem_append] at hls
    rw [meaning] at ht
    obtain ⟨ts, hts, ht⟩ := bind_eq_ok.mp ht
    cases ht
    exact .tuple (fits_of_meanings hjoined hls.2.1 ih (fun _ _ => site_of_place rfl _) hts)
  | @record parts ls i j hparts hjoined ih =>
    intro hls t ht
    simp only [List.forall_mem_cons, List.forall_mem_append] at hls
    rw [meaning] at ht
    obtain ⟨ts, hts, ht⟩ := bind_eq_ok.mp ht
    cases ht
    refine .record (fits_of_meanings hjoined hls.2.1 ih (fun part hpart => ?_) hts)
    exact site_of_not_labelled (isLabelled_of_field (hparts part hpart))
  | @application parts ls base dotted i j k _ hjoined ih =>
    intro hls t ht
    simp only [List.forall_mem_cons, List.forall_mem_append] at hls
    rw [meaning] at ht
    obtain ⟨ts, hts, ht⟩ := bind_eq_ok.mp ht
    cases ht
    have hbase : (Token.name base).Lexeme := hls.1
    refine .application hbase.1 hbase.2 ?_
    exact fits_of_meanings hjoined hls.2.2.1 ih (fun _ _ => site_of_place rfl _) hts
  | @function parts ls i j k _ hjoined ih =>
    intro hls t ht
    simp only [List.forall_mem_cons, List.forall_mem_append] at hls
    rw [meaning] at ht
    obtain ⟨params, hparams, ht⟩ := bind_eq_ok.mp ht
    cases ht
    obtain ⟨hplain, hthis, hnew⟩ := fits_of_params hjoined hls.2.2.1 ih hparams
    exact .function hplain (fun h => absurd rfl h) hthis hnew
  | @functionTo parts ls after result i j k m _ hjoined _ ih ihresult =>
    intro hls t ht
    simp only [List.forall_mem_cons, List.forall_mem_append] at hls
    rw [meaning] at ht
    obtain ⟨params, hparams, ht⟩ := bind_eq_ok.mp ht
    obtain ⟨u, hu, ht⟩ := bind_eq_ok.mp ht
    cases ht
    obtain ⟨hplain, hthis, hnew⟩ := fits_of_params hjoined hls.2.2.1 ih hparams
    have hresult : Fits .inner u := (ihresult hls.2.2.2.2.2 hu).inner_of_site rfl
    exact .function hplain (fun _ => hresult) hthis hnew
  | @trail ls marks inner mark h hinner _ ih =>
    intro hls t ht
    rw [List.forall_mem_append] at hls
    rw [meaning_trail] at ht
    obtain ⟨u, hu, ht⟩ := bind_eq_ok.mp ht
    cases ht
    exact ((ih hls.1 hu).inner_of_site rfl).trail mark (h.takesMark_meaning hinner hu)
  | unknown i =>
    intro _ t ht
    cases ht
    exact .unknown
  | @lead ls inner mark i _ ih =>
    intro hls t ht
    rw [List.forall_mem_cons] at hls
    rw [meaning_lead] at ht
    obtain ⟨u, hu, ht⟩ := bind_eq_ok.mp ht
    cases ht
    exact ((ih hls.2 hu).inner_of_site rfl).lead mark
  | @union parts ls htwo _ hjoined ih =>
    intro hls t ht
    rw [meaning] at ht
    obtain ⟨ts, hts, ht⟩ := bind_eq_ok.mp ht
    cases ht
    have hne : parts.map Prod.snd ≠ [] := by
      rintro hnil
      rw [List.map_eq_nil_iff.mp hnil] at htwo
      cases htwo
    refine .union (ne_nil_of_meanings hts hne) ?_
    exact fits_of_meanings hjoined hls ih (fun _ _ => site_of_place rfl _) hts
  | @optional ls inner i _ ih =>
    intro hls t ht
    rw [List.forall_mem_append] at hls
    rw [meaning] at ht
    obtain ⟨u, hu, ht⟩ := bind_eq_ok.mp ht
    cases ht
    exact .optional ((ih hls.1 hu).inner_of_site rfl)
  | paramEllipsis i | rootEllipsis i =>
    intro _ t ht
    cases ht
    exact .variadic (fun h => absurd rfl h)
  | @paramVariadic ls inner i _ ih | @rootVariadic ls inner i _ ih =>
    intro hls t ht
    rw [List.forall_mem_cons] at hls
    rw [meaning] at ht
    obtain ⟨u, hu, ht⟩ := bind_eq_ok.mp ht
    cases ht
    exact .variadic fun _ => (ih hls.2 hu).inner_of_site rfl
  | @labelled ls inner label i j _ ih =>
    intro hls t ht
    simp only [List.forall_mem_cons] at hls
    rw [meaning] at ht
    exact (ih hls.2.2 ht).inner_of_site rfl
  | @key l hkey =>
    intro hls t ht
    rw [meaning] at ht
    obtain ⟨key, hl, ht⟩ := bind_eq_ok.mp ht
    cases ht
    exact .member (quote_notMem_of_keyOf (hls l List.mem_cons_self) hkey hl)
      (fun h => absurd rfl h)
  | @field l ls value j hkey hvalue ih =>
    intro hls t ht
    simp only [List.forall_mem_cons] at hls
    rw [meaning] at ht
    obtain ⟨key, hl, ht⟩ := bind_eq_ok.mp ht
    obtain ⟨u, hu, ht⟩ := bind_eq_ok.mp ht
    cases ht
    have hfits : Fits .value u := (ih hls.2.2 hu).of_site (isLabelled_of_value hvalue)
    exact .member (quote_notMem_of_keyOf hls.1 hkey hl) fun _ => hfits
  | basic _ ih | postfixed _ ih | type _ ih => exact ih
  | @plain ls p h ih =>
    intro hls t ht
    have hfits : Fits .inner t := (ih hls ht).inner_of_site rfl
    rw [site_of_not_labelled (isLabelled_of_union h)]
    exact .plain hfits
  | @param ls p h ih | @root ls p h ih =>
    intro hls t ht
    have hfits : Fits .value t := (ih hls ht).of_site (isLabelled_of_value h)
    rw [site_of_not_labelled (isLabelled_of_value h)]
    exact .outer hfits

theorem Lexes.lexeme {n : ℕ} {s : List Char} {ls : List Located} (h : Lexes n s ls) :
    ∀ l ∈ ls, l.token.Lexeme := by
  induction h with
  | nil => exact fun l hl => nomatch hl
  | space _ _ ih => exact ih
  | token ht _ _ ih => exact List.forall_mem_cons.mpr ⟨ht, ih⟩

/-- **The type of an accepted text fits the root.** -/
theorem fits_of_parse {text : String} {t : TypeExpr} (h : parse text = .ok t) : Fits .outer t := by
  obtain ⟨tokens, p, hlexes, hderives, hmeaning⟩ := parse_eq_ok_iff.mp h
  have hlabel : p.isLabelled = false := by
    cases hderives with
    | root h => exact isLabelled_of_value h
    | rootEllipsis => rfl
    | rootVariadic => rfl
  exact (fits_of_derives hderives hlexes.lexeme hmeaning).of_site hlabel

/-! ## Induction -/

/-- What an ellipsis repeats: the item of a literal that has only one. -/
def operand : TypeExpr → TypeExpr
  | .tuple [item] => item
  | t => t

theorem operand_cases (t : TypeExpr) : (∃ item, t = .tuple [item]) ∨ t.operand = t := by
  unfold operand
  split
  · exact Or.inl ⟨_, rfl⟩
  · exact Or.inr rfl

theorem ne_tuple_of_operand {t : TypeExpr} (h : t.operand = t) : ∀ item, t ≠ .tuple [item] := by
  rintro item rfl
  have hsize : sizeOf (TypeExpr.tuple [item]).operand < sizeOf (TypeExpr.tuple [item]) := by
    rw [operand]
    simp only [TypeExpr.tuple.sizeOf_spec, List.cons.sizeOf_spec]
    omega
  exact absurd (congrArg sizeOf h) (Nat.ne_of_lt hsize)

theorem Fits.operand {t : TypeExpr} (h : Fits .inner t) : Fits .inner t.operand := by
  rcases operand_cases t with ⟨item, rfl⟩ | ht
  · cases h with
    | tuple h => exact h item List.mem_cons_self
  · rwa [ht]

section

variable {P : TypeExpr → Prop}

/-- A property of a type, and of what an ellipsis before it repeats; for a record, of the values. -/
def AtSite (P : TypeExpr → Prop) : Site → TypeExpr → Prop
  | .inner, t => P t ∧ P t.operand
  | .member, t => ∃ key value, t = .field key value ∧ P value
  | .value, t | .outer, t => P t

theorem AtSite.of_operand {t : TypeExpr} (ht : t.operand = t) (h : P t) : AtSite P .inner t :=
  ⟨h, ht.symm ▸ h⟩

theorem of_ne_absent (absent : P .absent) {t : TypeExpr} (h : t ≠ .absent → P t) : P t := by
  by_cases ht : t = .absent
  · exact ht ▸ absent
  · exact h ht

/-- **Induction over the trees that fit a place**, without the labelled types of a function; after
an ellipsis over what it repeats. -/
theorem fits_induction (absent : P .absent) (name : ∀ n : String, IsName n.toList → P (.name n))
    (all : P .all) (unknown : P .unknown) (void : P .void) (null : P .null)
    (undefined : P .undefined) (optional : ∀ t, Fits .inner t → P t → P (.optional t))
    (nullable : ∀ side t, Fits .inner t → P t → P (.nullable side t))
    (nonNullable : ∀ side t, Fits .inner t → P t → P (.nonNullable side t))
    (union : ∀ members, members ≠ [] → (∀ t ∈ members, Fits .inner t) → (∀ t ∈ members, P t) →
      P (.union members))
    (tuple : ∀ items, P (.tuple items))
    (application : ∀ (base : String) arguments, IsName base.toList →
      (∀ t ∈ arguments, Fits .inner t) → (∀ t ∈ arguments, P t) →
      P (.application (.name base) arguments))
    (function : ∀ params result thisType newType, (∀ t ∈ params, P t) → P result →
      P (.function params result thisType newType))
    (record : ∀ fields, (∀ t ∈ fields, ∃ key value, t = .field key value ∧ P value) →
      P (.record fields))
    (variadic : ∀ t, (t ≠ .absent → Fits .inner t) → P t.operand → P (.variadic t))
    {site : Site} {t : TypeExpr} (h : Fits site t) : AtSite P site t := by
  induction h with
  | name hn _ => exact .of_operand rfl (name _ hn)
  | all => exact .of_operand rfl all
  | unknown => exact .of_operand rfl unknown
  | void => exact .of_operand rfl void
  | null => exact .of_operand rfl null
  | undefined => exact .of_operand rfl undefined
  | nullable _ h ih => exact .of_operand rfl (nullable _ _ h ih.1)
  | nonNullable _ h ih => exact .of_operand rfl (nonNullable _ _ h ih.1)
  | union hne h ih => exact .of_operand rfl (union _ hne h fun t ht => (ih t ht).1)
  | @tuple items _ ih =>
    refine ⟨tuple items, ?_⟩
    rcases operand_cases (.tuple items) with ⟨item, hitem⟩ | hsame
    · cases hitem
      exact (ih item List.mem_cons_self).1
    · rw [hsame]
      exact tuple items
  | application hbase _ h ih =>
    exact .of_operand rfl (application _ _ hbase h fun t ht => (ih t ht).1)
  | function _ _ _ _ ihparams ihresult =>
    refine .of_operand rfl (function _ _ _ _ ihparams ?_)
    exact of_ne_absent absent fun h => (ihresult h).1
  | record _ ih => exact .of_operand rfl (record _ ih)
  | @member key t _ _ ih => exact ⟨key, t, rfl, of_ne_absent absent ih⟩
  | plain _ ih => exact ih.1
  | optional h ih => exact optional _ h ih.1
  | outer _ ih => exact ih
  | @variadic t h ih =>
    refine variadic t h ?_
    by_cases ht : t = .absent
    · subst ht
      exact absent
    · exact (ih ht).2

end

end Ambient.TypeExpr
