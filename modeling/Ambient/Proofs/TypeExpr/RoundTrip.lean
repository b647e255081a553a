import Ambient.Proofs.TypeExpr.Spelling

/-!
# Reading a spelling back

The tokens of a tree are derived, as the grammar has it, from a phrase that means the tree; so its
spelling is read as the tree itself.

* `keyToken_spec`: the token of a record key stands for the key;
* `spellable_of_fits`, `spelled_of_fits`: the tokens of a tree can be written together, and the
  grammar derives a phrase from them;
* **`parse_spelling`**: the spelling of a tree is read as that tree;
* **`exists_parse_iff`**: the types of the accepted texts are the trees that fit the root.
-/

namespace Ambient.TypeExpr

open Phrase

/-! ## Keys -/

theorem quotedKey_lexeme {key : String} (h : '\x27' ∉ key.toList ∨ '\x22' ∉ key.toList) :
    (quotedKey key).Lexeme := by
  rw [quotedKey]
  split_ifs with hmark
  · exact ⟨Or.inr rfl, h.resolve_left (not_not.mpr hmark)⟩
  · exact ⟨Or.inl rfl, hmark⟩

/-- **The token of a record key** can be written, and stands for the key. -/
theorem keyToken_spec {key : String} (h : '\x27' ∉ key.toList ∨ '\x22' ∉ key.toList) :
    (keyToken key).Lexeme ∧ (keyToken key).isKey = true ∧
      ∀ i, keyOf ⟨keyToken key, i⟩ = .ok key := by
  have hquoted : (quotedKey key).Lexeme ∧ (quotedKey key).isKey = true ∧
      ∀ i, keyOf ⟨quotedKey key, i⟩ = .ok key := ⟨quotedKey_lexeme h, rfl, fun _ => rfl⟩
  rw [keyToken]
  split
  · rename_i text hread
    obtain ⟨htext, hlexeme, -⟩ := Token.read?_spec hread
    have hkey : key = text := by
      rw [List.append_nil] at htext
      exact String.toList_inj.mp htext
    split_ifs with hpoint
    · exact hquoted
    · refine ⟨hlexeme, rfl, fun i => ?_⟩
      simp only [keyOf, hpoint, if_false, hkey, Bool.false_eq_true]
  · rename_i text hread
    obtain ⟨htext, hlexeme, -⟩ := Token.read?_spec hread
    rw [List.append_nil] at htext
    exact ⟨hlexeme, rfl, fun i => congrArg Except.ok (String.toList_inj.mp htext).symm⟩
  · exact hquoted

/-! ## The tokens of a tree can be written together -/

theorem tokensOfEach_eq_map (ts : List TypeExpr) : tokensOfEach ts = ts.map tokens := by
  induction ts with
  | nil => rw [tokensOfEach]; rfl
  | cons t ts ih => rw [tokensOfEach, ih]; rfl

theorem forall_mem_unlessAbsent {α : Type} {P : α → Prop} {t : TypeExpr} {xs : List α}
    (h : t ≠ .absent → ∀ x ∈ xs, P x) : ∀ x ∈ unlessAbsent t xs, P x := by
  cases t with
  | absent => exact fun _ hx => nomatch hx
  | _ => exact h TypeExpr.noConfusion

theorem spellable_unlessAbsent {t : TypeExpr} {ts : List Token}
    (h : t ≠ .absent → Spellable ts) : Spellable (unlessAbsent t ts) := by
  cases t with
  | absent => exact .nil
  | _ => exact h TypeExpr.noConfusion

theorem spellable_listed {sep close : Token} (hsep : sep.isSymbol = true)
    (hclose : close.isSymbol = true) {ts : List TypeExpr} (h : ∀ t ∈ ts, Spellable t.tokens) :
    Spellable ([sep].intercalate (tokensOfEach ts) ++ [close]) := by
  refine .append (.intercalate hsep ?_) hclose .nil
  rw [tokensOfEach_eq_map]
  exact List.forall_mem_map.mpr h

theorem spellable_labelled {label : String} (hlabel : (Token.name label).Lexeme) {t : TypeExpr}
    (h : t ≠ .absent → Spellable t.tokens) :
    ∀ piece ∈ unlessAbsent t [.name label :: .colon :: t.tokens], Spellable piece := by
  refine forall_mem_unlessAbsent fun ht => List.forall_mem_singleton.mpr ?_
  exact Spellable.append (.one hlabel) rfl (h ht)

/-- The tokens of a tree that fits a place can be written together. -/
theorem spellable_of_fits {site : Site} {t : TypeExpr} (h : Fits site t) : Spellable t.tokens := by
  induction h with
  | name hn hword => exact .one ⟨hn, hword.1⟩
  | all | unknown => exact .one trivial
  | void | null | undefined => exact .one (Token.lexeme_of_read? rfl)
  | @nullable side t _ _ ih =>
    cases side with
    | before => exact .cons rfl ih
    | after => exact ih.append rfl .nil
  | @nonNullable side t _ _ ih =>
    cases side with
    | before => exact .cons rfl ih
    | after => exact ih.append rfl .nil
  | union _ _ ih | tuple _ ih | record _ ih => exact .cons rfl (spellable_listed rfl rfl ih)
  | application hbase hword _ ih =>
    exact Spellable.append (.one ⟨hbase, hword⟩) rfl (spellable_listed rfl rfl ih)
  | @function params result thisType newType _ _ _ _ ihparams ihresult ihthis ihnew =>
    have hpieces : ∀ piece ∈ unlessAbsent thisType [.name "this" :: .colon :: thisType.tokens] ++
        unlessAbsent newType [.name "new" :: .colon :: newType.tokens] ++ tokensOfEach params,
        Spellable piece := by
      rw [tokensOfEach_eq_map]
      refine List.forall_mem_append.mpr ⟨List.forall_mem_append.mpr ⟨?_, ?_⟩, ?_⟩
      · exact spellable_labelled (Token.lexeme_of_read? rfl) ihthis
      · exact spellable_labelled (Token.lexeme_of_read? rfl) ihnew
      · exact List.forall_mem_map.mpr ihparams
    have hresult : Spellable (unlessAbsent result (.colon :: result.tokens)) :=
      spellable_unlessAbsent fun h => .cons rfl (ihresult h)
    rw [tokens]
    have hfunction : Spellable [.function] := .one trivial
    exact hfunction.append rfl ((Spellable.intercalate rfl hpieces).append rfl hresult)
  | @member key t hkey _ ih =>
    have hone : Spellable [keyToken key] := .one (keyToken_spec hkey).1
    rw [tokens]
    by_cases ht : t = .absent
    · rw [ht]
      exact hone
    · rw [unlessAbsent_of_ne ht]
      exact hone.append rfl (ih ht)
  | plain _ ih | outer _ ih => exact ih
  | optional _ ih => exact ih.append rfl .nil
  | @variadic t _ ih =>
    rw [tokens]
    by_cases ht : t = .absent
    · rw [ht, tokens]
      exact .one trivial
    · exact .cons rfl (ih ht)

/-! ## The tokens of a tree are derived -/

/-- What is wanted of the tokens of a tree, by its place: a phrase that the grammar derives from
them and that means the tree. -/
def Spelled : Site → TypeExpr → Prop
  | .inner, t => ∀ ls, ls.map Located.token = t.tokens → ∃ p, Derives .type ls p ∧
    p.meaning = .ok t ∧ (t.takesMark = true → Derives .postfixed ls p ∧ p.hasResult = false)
  | .value, t => ∀ ls, ls.map Located.token = t.tokens → ∃ p, Derives .value ls p ∧
    p.meaning = .ok t
  | .member, t => ∀ ls, ls.map Located.token = t.tokens → ∃ p, Derives .field ls p ∧
    p.meaning = .ok t
  | .outer, t => ∀ ls, ls.map Located.token = t.tokens → ∃ p, Derives .param ls p ∧
    Derives .root ls p ∧ p.isLabelled = false ∧ p.meaning = .ok t

theorem spelled_of_basic {t : TypeExpr}
    (h : ∀ ls, ls.map Located.token = t.tokens → ∃ p, Derives .basic ls p ∧ p.meaning = .ok t ∧
      (t.takesMark = true → p.hasResult = false)) : Spelled .inner t := by
  intro ls hls
  obtain ⟨p, hderives, hmeaning, hresult⟩ := h ls hls
  exact ⟨p, .postfixed (.basic hderives), hmeaning, fun ht => ⟨.basic hderives, hresult ht⟩⟩

theorem exists_joined {f : Located → Token} {sep : Token} (hsep : ∀ l, f l = sep → l.token = sep)
    {pieces : List (List Token)} : ∀ {ls : List Located}, ls.map f = [sep].intercalate pieces →
      ∃ lists, Joined sep lists ls ∧ lists.map (List.map f) = pieces := by
  induction pieces with
  | nil =>
    intro ls hls
    rw [List.intercalate_nil, List.map_eq_nil_iff] at hls
    exact ⟨[], hls ▸ .nil, rfl⟩
  | cons piece later ih =>
    intro ls hls
    cases later with
    | nil =>
      rw [List.intercalate_singleton] at hls
      exact ⟨[ls], .one ls, by rw [List.map_singleton, hls]⟩
    | cons next later =>
      rw [List.intercalate_cons_cons, List.append_assoc] at hls
      obtain ⟨first, tail, rfl, hfirst, htail⟩ := List.map_eq_append_iff.mp hls
      obtain ⟨⟨token, i⟩, tail, rfl, htoken, htail⟩ := List.map_eq_cons_iff.mp htail
      obtain rfl := hsep _ htoken
      obtain ⟨lists, hjoined, hlists⟩ := ih htail
      obtain ⟨second, lists, rfl, hsecond, hlater⟩ := List.map_eq_cons_iff.mp hlists
      refine ⟨first :: second :: lists, .more i hjoined, ?_⟩
      rw [List.map_cons, hfirst, hlists]

/-- Several trees whose tokens are each derived are derived together, part by part. -/
theorem exists_parts {R : List Located → Phrase → Prop} {ts : List TypeExpr}
    (h : ∀ t ∈ ts, ∀ ls, ls.map Located.token = t.tokens → ∃ p, R ls p ∧ p.meaning = .ok t) :
    ∀ {lists : List (List Located)}, lists.map (List.map Located.token) = tokensOfEach ts →
      ∃ parts : List (List Located × Phrase), parts.map Prod.fst = lists ∧
        (∀ part ∈ parts, R part.1 part.2) ∧ meanings (parts.map Prod.snd) = .ok ts := by
  induction ts with
  | nil =>
    intro lists hlists
    rw [tokensOfEach, List.map_eq_nil_iff] at hlists
    exact ⟨[], hlists.symm, fun _ hpart => (nomatch hpart), rfl⟩
  | cons t ts ih =>
    intro lists hlists
    rw [List.forall_mem_cons] at h
    rw [tokensOfEach] at hlists
    obtain ⟨first, later, rfl, hfirst, hlater⟩ := List.map_eq_cons_iff.mp hlists
    obtain ⟨p, hp, hmeaning⟩ := h.1 first hfirst
    obtain ⟨parts, hparts, hR, hmeanings⟩ := ih h.2 hlater
    refine ⟨(first, p) :: parts, by rw [List.map_cons, hparts], List.forall_mem_cons.mpr ⟨hp, hR⟩,
      ?_⟩
    rw [List.map_cons, meanings, hmeaning, ok_bind, hmeanings, ok_bind]

/-- Tokens between two others, at their places. -/
theorem exists_between {opening closing : Token} {tokens : List Token} {ls : List Located}
    (hls : ls.map Located.token = opening :: (tokens ++ [closing])) :
    ∃ i inner j, ls = ⟨opening, i⟩ :: (inner ++ [⟨closing, j⟩]) ∧
      inner.map Located.token = tokens := by
  obtain ⟨⟨token, i⟩, later, rfl, rfl, hlater⟩ := List.map_eq_cons_iff.mp hls
  obtain ⟨inner, last, rfl, hinner, hlast⟩ := List.map_eq_append_iff.mp hlater
  obtain ⟨⟨token', j⟩, rfl, rfl⟩ := List.map_eq_singleton_iff.mp hlast
  exact ⟨i, inner, j, rfl, hinner⟩

/-- The tokens of several trees between brackets are derived, part by part. -/
theorem exists_parts_between {opening sep closing : Token} {rule : Rule} {ts : List TypeExpr}
    (h : ∀ t ∈ ts, ∀ ls, ls.map Located.token = t.tokens → ∃ p, Derives rule ls p ∧
      p.meaning = .ok t)
    {ls : List Located}
    (hls : ls.map Located.token = opening :: ([sep].intercalate (tokensOfEach ts) ++ [closing])) :
    ∃ i inner j, ∃ parts : List (List Located × Phrase),
      ls = ⟨opening, i⟩ :: (inner ++ [⟨closing, j⟩]) ∧
        (∀ part ∈ parts, Derives rule part.1 part.2) ∧ Joined sep (parts.map Prod.fst) inner ∧
        meanings (parts.map Prod.snd) = .ok ts := by
  obtain ⟨i, inner, j, rfl, hinner⟩ := exists_between hls
  obtain ⟨lists, hjoined, hlists⟩ := exists_joined (fun _ h => h) hinner
  obtain ⟨parts, rfl, hparts, hmeanings⟩ := exists_parts h hlists
  exact ⟨i, inner, j, parts, rfl, hparts, hjoined, hmeanings⟩

/-! ### Parameters -/

theorem paramsOf_cons_of_not_labelled {p : Phrase} {ps : List Phrase} {t : TypeExpr}
    {later : Params} (hp : p.isLabelled = false) (ht : p.meaning = .ok t)
    (hps : paramsOf ps = .ok later) :
    paramsOf (p :: ps) = .ok { later with plain := t :: later.plain } := by
  cases p with
  | labelled => cases hp
  | _ =>
    rw [paramsOf]
    · rw [ht, ok_bind, hps, ok_bind]
    · exact fun _ _ _ h => Phrase.noConfusion h

theorem paramsOf_of_meanings {ps : List Phrase} : ∀ {ts : List TypeExpr},
    meanings ps = .ok ts → (∀ p ∈ ps, p.isLabelled = false) →
    paramsOf ps = .ok ⟨ts, .absent, .absent⟩ := by
  induction ps with
  | nil =>
    intro ts h _
    cases h
    rfl
  | cons p ps ih =>
    intro ts h hlabels
    obtain ⟨t, later, ht, hlater, rfl⟩ := meanings_cons h
    rw [List.forall_mem_cons] at hlabels
    exact paramsOf_cons_of_not_labelled hlabels.1 ht (ih hlater hlabels.2)

theorem paramsOf_this {inner : Phrase} {ps : List Phrase} {t newType : TypeExpr}
    {plain : List TypeExpr} (i : ℕ) (ht : inner.meaning = .ok t)
    (hps : paramsOf ps = .ok ⟨plain, .absent, newType⟩) :
    paramsOf (.labelled "this" i inner :: ps) = .ok ⟨plain, t, newType⟩ := by
  rw [paramsOf, ht, ok_bind, hps]
  rfl

theorem paramsOf_new {inner : Phrase} {ps : List Phrase} {t thisType : TypeExpr}
    {plain : List TypeExpr} (i : ℕ) (ht : inner.meaning = .ok t)
    (hps : paramsOf ps = .ok ⟨plain, thisType, .absent⟩) :
    paramsOf (.labelled "new" i inner :: ps) = .ok ⟨plain, thisType, t⟩ := by
  rw [paramsOf, ht, ok_bind, hps]
  rfl

/-- The tokens of a labelled type that may be left out are derived as a labelled parameter, or as
none. -/
theorem exists_labelled (label : String) {t : TypeExpr} (h : t ≠ .absent → Spelled .inner t)
    {lists : List (List Located)}
    (hlists : lists.map (List.map Located.token) =
      unlessAbsent t [.name label :: .colon :: t.tokens]) :
    ∃ parts : List (List Located × Phrase), parts.map Prod.fst = lists ∧
      (∀ part ∈ parts, Derives .param part.1 part.2) ∧
      (t = .absent ∧ parts = [] ∨
        ∃ ls i inner, parts = [(ls, .labelled label i inner)] ∧ inner.meaning = .ok t) := by
  by_cases ht : t = .absent
  · rw [ht] at hlists
    rw [List.map_eq_nil_iff.mp hlists]
    exact ⟨[], rfl, fun _ hpart => (nomatch hpart), Or.inl ⟨ht, rfl⟩⟩
  · rw [unlessAbsent_of_ne ht] at hlists
    obtain ⟨ls, rfl, hls⟩ := List.map_eq_singleton_iff.mp hlists
    obtain ⟨⟨token, i⟩, later, rfl, rfl, hlater⟩ := List.map_eq_cons_iff.mp hls
    obtain ⟨⟨token, j⟩, inner, rfl, rfl, hinner⟩ := List.map_eq_cons_iff.mp hlater
    obtain ⟨p, hderives, hmeaning, -⟩ := h ht inner hinner
    refine ⟨[(_, .labelled label i p)], rfl, ?_, Or.inr ⟨_, i, p, rfl, hmeaning⟩⟩
    exact List.forall_mem_singleton.mpr (.labelled label i j hderives)

/-- The tokens of the parameters of a function type, the labelled types first, are derived. -/
theorem exists_params {params : List TypeExpr} {thisType newType : TypeExpr}
    (hparams : ∀ t ∈ params, Spelled .outer t)
    (hthis : thisType ≠ .absent → Spelled .inner thisType)
    (hnew : newType ≠ .absent → Spelled .inner newType) {ls : List Located}
    (hls : ls.map Located.token = [Token.comma].intercalate
      (unlessAbsent thisType [.name "this" :: .colon :: thisType.tokens] ++
        unlessAbsent newType [.name "new" :: .colon :: newType.tokens] ++ tokensOfEach params)) :
    ∃ parts : List (List Located × Phrase), (∀ part ∈ parts, Derives .param part.1 part.2) ∧
      Joined .comma (parts.map Prod.fst) ls ∧
      paramsOf (parts.map Prod.snd) = .ok ⟨params, thisType, newType⟩ := by
  obtain ⟨lists, hjoined, hlists⟩ := exists_joined (fun _ h => h) hls
  obtain ⟨labelled, plain, rfl, hlabelled, hplain⟩ := List.map_eq_append_iff.mp hlists
  obtain ⟨first, second, rfl, hfirst, hsecond⟩ := List.map_eq_append_iff.mp hlabelled
  obtain ⟨thisParts, rfl, hthisDerives, hthisParts⟩ := exists_labelled "this" hthis hfirst
  obtain ⟨newParts, rfl, hnewDerives, hnewParts⟩ := exists_labelled "new" hnew hsecond
  have hplainParams : ∀ t ∈ params, ∀ ls, ls.map Located.token = t.tokens →
      ∃ p, (Derives .param ls p ∧ p.isLabelled = false) ∧ p.meaning = .ok t := by
    intro t ht ls hls
    obtain ⟨p, hparam, -, hlabel, hmeaning⟩ := hparams t ht ls hls
    exact ⟨p, ⟨hparam, hlabel⟩, hmeaning⟩
  obtain ⟨parts, rfl, hderives, hmeanings⟩ := exists_parts hplainParams hplain
  refine ⟨thisParts ++ newParts ++ parts, ?_, by rwa [List.map_append, List.map_append], ?_⟩
  · exact List.forall_mem_append.mpr ⟨List.forall_mem_append.mpr ⟨hthisDerives, hnewDerives⟩,
      fun part hpart => (hderives part hpart).1⟩
  · have hall : paramsOf (parts.map Prod.snd) = .ok ⟨params, .absent, .absent⟩ :=
      paramsOf_of_meanings hmeanings (List.forall_mem_map.mpr fun part hpart =>
        (hderives part hpart).2)
    have hnewAll : paramsOf ((newParts ++ parts).map Prod.snd) =
        .ok ⟨params, .absent, newType⟩ := by
      rcases hnewParts with ⟨rfl, rfl⟩ | ⟨ls', i, inner, rfl, hinner⟩
      · exact hall
      · exact paramsOf_new i hinner hall
    rw [List.append_assoc]
    rcases hthisParts with ⟨rfl, rfl⟩ | ⟨ls', i, inner, rfl, hinner⟩
    · exact hnewAll
    · exact paramsOf_this i hinner hnewAll

/-! ### Trees -/

theorem exists_type {t : TypeExpr} (h : Spelled .inner t) :
    ∀ ls, ls.map Located.token = t.tokens → ∃ p, Derives .type ls p ∧ p.meaning = .ok t := by
  intro ls hls
  obtain ⟨p, hderives, hmeaning, -⟩ := h ls hls
  exact ⟨p, hderives, hmeaning⟩

theorem exists_union {t : TypeExpr} (h : Spelled .inner t) :
    ∀ ls, ls.map Located.token = t.tokens → ∃ p, Derives .union ls p ∧ p.meaning = .ok t := by
  intro ls hls
  obtain ⟨p, hderives, hmeaning⟩ := exists_type h ls hls
  exact ⟨p, .type hderives, hmeaning⟩

theorem spelled_lead (mark : Lead) {t : TypeExpr} (h : Spelled .inner t) :
    Spelled .inner (mark.marked t) := by
  have htokens : (mark.marked t).tokens = mark.token :: t.tokens := by cases mark <;> rfl
  have hmark : (mark.marked t).takesMark = false := by cases mark <;> rfl
  intro ls hls
  rw [htokens] at hls
  obtain ⟨⟨token, i⟩, inner, rfl, rfl, hinner⟩ := List.map_eq_cons_iff.mp hls
  obtain ⟨p, hderives, hp⟩ := exists_type h inner hinner
  refine ⟨.lead mark p, .lead mark i hderives, by rw [meaning_lead, hp, ok_bind], fun h => ?_⟩
  exact absurd (hmark.symm.trans h) Bool.noConfusion

theorem spelled_trail (mark : Trail) {t : TypeExpr} (h : Spelled .inner t)
    (ht : t.takesMark = true) (htokens : (mark.marked t).tokens = t.tokens ++ mark.tokens) :
    Spelled .inner (mark.marked t) := by
  intro ls hls
  rw [htokens] at hls
  obtain ⟨inner, marks, rfl, hinner, hmarks⟩ := List.map_eq_append_iff.mp hls
  obtain ⟨p, -, hp, hpostfixed⟩ := h inner hinner
  obtain ⟨hderives, hresult⟩ := hpostfixed ht
  have hall := Derives.trail mark hderives hresult hmarks
  exact ⟨.trail p mark, .postfixed hall, by rw [meaning_trail, hp, ok_bind], fun _ => ⟨hall, rfl⟩⟩

theorem spelled_word {word : String} {t : TypeExpr} (htokens : t.tokens = [.name word])
    (ht : ofName word = t) : Spelled .inner t := by
  refine spelled_of_basic fun ls hls => ?_
  rw [htokens] at hls
  obtain ⟨⟨token, i⟩, rfl, rfl⟩ := List.map_eq_singleton_iff.mp hls
  exact ⟨.name word, .name word i, by rw [meaning, ht], fun _ => rfl⟩

theorem spelled_function {params : List TypeExpr} {result thisType newType : TypeExpr}
    (hparams : ∀ t ∈ params, Spelled .outer t) (hresult : result ≠ .absent → Spelled .inner result)
    (hthis : thisType ≠ .absent → Spelled .inner thisType)
    (hnew : newType ≠ .absent → Spelled .inner newType) :
    Spelled .inner (.function params result thisType newType) := by
  refine spelled_of_basic fun ls hls => ?_
  rw [tokens] at hls
  obtain ⟨⟨token, i⟩, later, rfl, rfl, hopen⟩ := List.map_eq_cons_iff.mp hls
  obtain ⟨⟨token, j⟩, later, rfl, rfl, hlist⟩ := List.map_eq_cons_iff.mp hopen
  obtain ⟨inner, later, rfl, hinner, hclose⟩ := List.map_eq_append_iff.mp hlist
  obtain ⟨⟨token, k⟩, later, rfl, rfl, hend⟩ := List.map_eq_cons_iff.mp hclose
  obtain ⟨parts, hparts, hjoined, hall⟩ := exists_params hparams hthis hnew hinner
  by_cases habsent : result = .absent
  · subst habsent
    rw [List.map_eq_nil_iff.mp hend]
    exact ⟨_, .function i j k hparts hjoined, by rw [meaning, hall]; rfl, fun _ => rfl⟩
  · rw [unlessAbsent_of_ne habsent] at hend
    obtain ⟨⟨token, m⟩, after, rfl, rfl, hafter⟩ := List.map_eq_cons_iff.mp hend
    obtain ⟨p, hderives, hp⟩ := exists_type (hresult habsent) after hafter
    refine ⟨_, .functionTo i j k m hparts hjoined hderives, ?_, fun h => ?_⟩
    · rw [meaning, hall, ok_bind, hp]
      rfl
    · -- With a result, a function type takes no mark.
      cases result with
      | absent => exact absurd rfl habsent
      | _ => cases h

theorem spelled_member {key : String} {t : TypeExpr}
    (hkey : '\x27' ∉ key.toList ∨ '\x22' ∉ key.toList) (h : t ≠ .absent → Spelled .value t) :
    Spelled .member (.field key t) := by
  intro ls hls
  obtain ⟨-, hisKey, hkeyOf⟩ := keyToken_spec hkey
  rw [tokens] at hls
  obtain ⟨⟨token, i⟩, later, rfl, rfl, hend⟩ := List.map_eq_cons_iff.mp hls
  by_cases ht : t = .absent
  · subst ht
    rw [List.map_eq_nil_iff.mp hend]
    exact ⟨.key ⟨keyToken key, i⟩, .key hisKey, by rw [meaning, hkeyOf]; rfl⟩
  · rw [unlessAbsent_of_ne ht] at hend
    obtain ⟨⟨token, j⟩, after, rfl, rfl, hafter⟩ := List.map_eq_cons_iff.mp hend
    obtain ⟨p, hderives, hp⟩ := h ht after hafter
    refine ⟨.field ⟨keyToken key, i⟩ p, .field j hisKey hderives, ?_⟩
    rw [meaning, hkeyOf, ok_bind, hp]
    rfl

theorem spelled_variadic {t : TypeExpr} (h : t ≠ .absent → Spelled .inner t) :
    Spelled .outer (.variadic t) := by
  intro ls hls
  obtain ⟨⟨token, i⟩, inner, rfl, rfl, hinner⟩ := List.map_eq_cons_iff.mp hls
  by_cases ht : t = .absent
  · subst ht
    rw [List.map_eq_nil_iff.mp hinner]
    exact ⟨.bareEllipsis, .paramEllipsis i, .rootEllipsis i, rfl, rfl⟩
  · obtain ⟨p, hderives, hp⟩ := exists_type (h ht) inner hinner
    exact ⟨.variadic p, .paramVariadic i hderives, .rootVariadic i (.type hderives), rfl,
      by rw [meaning, hp]; rfl⟩

/-- **The grammar derives a phrase that means the tree** from the tokens of a tree. -/
theorem spelled_of_fits {site : Site} {t : TypeExpr} (h : Fits site t) : Spelled site t := by
  induction h with
  | @name n _ hword =>
    refine spelled_word rfl ?_
    rw [ofName, if_neg hword.2.1, if_neg hword.2.2.1, if_neg hword.2.2.2]
  | void | null | undefined => exact spelled_word rfl rfl
  | all =>
    refine spelled_of_basic fun ls hls => ?_
    obtain ⟨⟨token, i⟩, rfl, rfl⟩ := List.map_eq_singleton_iff.mp hls
    exact ⟨.all, .all i, rfl, fun _ => rfl⟩
  | unknown =>
    intro ls hls
    obtain ⟨⟨token, i⟩, rfl, rfl⟩ := List.map_eq_singleton_iff.mp hls
    exact ⟨.unknown, .unknown i, rfl, fun h => Bool.noConfusion h⟩
  | @nullable side t hside _ ih =>
    cases side with
    | before => exact spelled_lead .question ih
    | after => exact spelled_trail .question ih (hside rfl) rfl
  | @nonNullable side t hside _ ih =>
    cases side with
    | before => exact spelled_lead .bang ih
    | after => exact spelled_trail .bang ih (hside rfl) rfl
  | @union members hne _ ih =>
    refine spelled_of_basic fun ls hls => ?_
    obtain ⟨i, inner, j, parts, rfl, hparts, hjoined, hmeanings⟩ :=
      exists_parts_between (fun t ht => exists_type (ih t ht)) hls
    have hne' : parts ≠ [] := by
      rintro rfl
      cases hmeanings
      exact hne rfl
    exact ⟨_, .group i j hne' hparts hjoined, by rw [meaning, hmeanings]; rfl, fun _ => rfl⟩
  | @tuple items _ ih =>
    refine spelled_of_basic fun ls hls => ?_
    obtain ⟨i, inner, j, parts, rfl, hparts, hjoined, hmeanings⟩ :=
      exists_parts_between (fun t ht => exists_union (ih t ht)) hls
    exact ⟨_, .tuple i j hparts hjoined, by rw [meaning, hmeanings]; rfl, fun _ => rfl⟩
  | @record fields _ ih =>
    refine spelled_of_basic fun ls hls => ?_
    obtain ⟨i, inner, j, parts, rfl, hparts, hjoined, hmeanings⟩ := exists_parts_between ih hls
    exact ⟨_, .record i j hparts hjoined, by rw [meaning, hmeanings]; rfl, fun _ => rfl⟩
  | @application base arguments _ _ _ ih =>
    refine spelled_of_basic fun ls hls => ?_
    obtain ⟨⟨token, i⟩, later, rfl, rfl, hlater⟩ := List.map_eq_cons_iff.mp hls
    obtain ⟨j, inner, k, parts, rfl, hparts, hjoined, hmeanings⟩ :=
      exists_parts_between (fun t ht => exists_union (ih t ht)) hlater
    exact ⟨_, .application base true i j k hparts hjoined, by rw [meaning, hmeanings]; rfl,
      fun _ => rfl⟩
  | function _ _ _ _ ihparams ihresult ihthis ihnew =>
    exact spelled_function ihparams ihresult ihthis ihnew
  | member hkey _ ih => exact spelled_member hkey ih
  | plain _ ih =>
    intro ls hls
    obtain ⟨p, hderives, hp⟩ := exists_union ih ls hls
    exact ⟨p, .plain hderives, hp⟩
  | optional _ ih =>
    intro ls hls
    obtain ⟨inner, last, rfl, hinner, hlast⟩ := List.map_eq_append_iff.mp hls
    obtain ⟨⟨token, i⟩, rfl, rfl⟩ := List.map_eq_singleton_iff.mp hlast
    obtain ⟨p, hderives, hp⟩ := exists_union ih inner hinner
    exact ⟨.optional p, .optional i hderives, by rw [meaning, hp]; rfl⟩
  | outer _ ih =>
    intro ls hls
    obtain ⟨p, hderives, hp⟩ := ih ls hls
    exact ⟨p, .param hderives, .root hderives, isLabelled_of_value hderives, hp⟩
  | variadic _ ih => exact spelled_variadic ih

/-! ## Texts -/

theorem exists_derives_of_fits {t : TypeExpr} (h : Fits .outer t) :
    ∃ ls p, Lexes 0 (Text.trim t.spelling.toList) ls ∧ Derives .root ls p ∧ p.meaning = .ok t := by
  have hspellable := spellable_of_fits h
  obtain ⟨ls, hls, hlexes⟩ := exists_lexes hspellable 0
  obtain ⟨p, -, hderives, -, hmeaning⟩ := spelled_of_fits h ls hls
  refine ⟨ls, p, ?_, hderives, hmeaning⟩
  rwa [spelling, String.toList_ofList, trim_written hspellable.1]

/-- **The spelling of a tree is read as that tree**, for every tree that the grammar can give. -/
theorem parse_spelling {t : TypeExpr} (h : Fits .outer t) : parse t.spelling = .ok t :=
  parse_eq_ok_iff.mpr (exists_derives_of_fits h)

theorem parse_spelling_function : ∃ t : TypeExpr, Fits .outer t ∧
    t.spelling =
      "function(this:functional,(goog.A|null)=,...function()?):?[\x7b\"it's\",1.5:*=\x7d]" ∧
    parse t.spelling = .ok t := by
  have hunion : Fits .inner (.union [.name "goog.A", .null]) := by
    refine .union (List.cons_ne_nil _ _) (List.forall_mem_cons.mpr ⟨?_, ?_⟩)
    · exact .name (Token.lexeme_of_read? rfl).1 (by decide)
    · exact List.forall_mem_singleton.mpr .null
  have hfunction : Fits .inner (.function [] .absent .absent .absent) :=
    .function (fun _ h => nomatch h) (absurd rfl) (absurd rfl) (absurd rfl)
  have hrecord : Fits .inner (.record [.field "it's" .absent, .field "1.5" (.optional .all)]) := by
    refine .record (List.forall_mem_cons.mpr ⟨?_, List.forall_mem_singleton.mpr ?_⟩)
    · exact .member (by decide) (absurd rfl)
    · exact .member (by decide) fun _ => .optional .all
  have hthis : Fits .inner (.name "functional") :=
    .name (Token.lexeme_of_read? rfl).1 (by decide)
  have hfits : Fits .outer (.function
      [.optional (.union [.name "goog.A", .null]),
        .variadic (.nullable .after (.function [] .absent .absent .absent))]
      (.nullable .before
        (.tuple [.record [.field "it's" .absent, .field "1.5" (.optional .all)]]))
      (.name "functional") .absent) := by
    refine .outer (.plain (.function (List.forall_mem_cons.mpr ⟨?_, ?_⟩) (fun _ => ?_)
      (fun _ => hthis) (absurd rfl)))
    · exact .outer (.optional hunion)
    · exact List.forall_mem_singleton.mpr (.variadic fun _ => .nullable (fun _ => rfl) hfunction)
    · exact .nullable (fun h => Side.noConfusion h) (.tuple (List.forall_mem_singleton.mpr hrecord))
  exact ⟨_, hfits, rfl, parse_spelling hfits⟩

/-- **The types of the accepted texts** are the trees that fit the root. -/
theorem exists_parse_iff {t : TypeExpr} : (∃ text, parse text = .ok t) ↔ Fits .outer t := by
  refine ⟨fun ⟨_, h⟩ => fits_of_parse h, fun h => ?_⟩
  exact ⟨t.spelling, parse_eq_ok_iff.mpr (exists_derives_of_fits h)⟩

end Ambient.TypeExpr
