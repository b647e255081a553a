import Ambient.Proofs.TypeExpr.Shape
import Mathlib.Data.List.Chain

/-!
# The spelling of a type

Every tree that the grammar can give has one canonical text: unions are in parentheses, arguments
follow `.<`, the labelled types of a function come first, and a key is in quotes only where it
needs them.

* `tokens`, `spelling`: the tokens of a tree, and its text;
* `Spellable`: tokens that can be written one right after the other;
* **`exists_lexes`**: such tokens are those of the text they are written as;
* `trim_written`: that text has no blanks around it.
-/

namespace Ambient.TypeExpr

/-! ## Tokens and text -/

/-- A key in quotes, in single ones if it has none itself. -/
def quotedKey (key : String) : Token := .quoted (if '\x27' ∈ key.toList then '\x22' else '\x27') key

/-- The token of a record key: the key itself if it reads as a name without points or as a number,
and the key in quotes otherwise. -/
def keyToken (key : String) : Token :=
  match Token.read? key.toList with
  | some (.name text, []) => if text.contains '.' then quotedKey key else .name text
  | some (.number text, []) => .number text
  | _ => quotedKey key

/-- The tokens of what may be left out, given those it has if it is there. -/
def unlessAbsent {α : Type} (t : TypeExpr) (written : List α) : List α :=
  match t with
  | .absent => []
  | _ => written

mutual

/-- The tokens of the canonical text. -/
def tokens : TypeExpr → List Token
  | .absent => []
  | .name n => [.name n]
  | .all => [.star]
  | .unknown => [.question]
  | .void => [.name "void"]
  | .null => [.name "null"]
  | .undefined => [.name "undefined"]
  | .optional t => tokens t ++ [.equals]
  | .nullable .before t => .question :: tokens t
  | .nullable .after t => tokens t ++ [.question]
  | .nonNullable .before t => .bang :: tokens t
  | .nonNullable .after t => tokens t ++ [.bang]
  | .union members =>
    .openParen :: ([Token.bar].intercalate (tokensOfEach members) ++ [.closeParen])
  | .variadic t => .ellipsis :: tokens t
  | .tuple items =>
    .openBracket :: ([Token.comma].intercalate (tokensOfEach items) ++ [.closeBracket])
  | .application base arguments =>
    tokens base ++ .dotLess :: ([Token.comma].intercalate (tokensOfEach arguments) ++ [.greater])
  | .function params result thisType newType =>
    .function :: .openParen ::
      ([Token.comma].intercalate
          (unlessAbsent thisType [.name "this" :: .colon :: tokens thisType] ++
            unlessAbsent newType [.name "new" :: .colon :: tokens newType] ++
            tokensOfEach params) ++
        .closeParen :: unlessAbsent result (.colon :: tokens result))
  | .field key t => keyToken key :: unlessAbsent t (.colon :: tokens t)
  | .record fields =>
    .openBrace :: ([Token.comma].intercalate (tokensOfEach fields) ++ [.closeBrace])

/-- The tokens of several trees. -/
def tokensOfEach : List TypeExpr → List (List Token)
  | [] => []
  | t :: ts => tokens t :: tokensOfEach ts

end

/-- Tokens written one right after the other. -/
def written (ts : List Token) : List Char := ts.flatMap fun t => t.text.toList

/-- The canonical text of a type. -/
def spelling (t : TypeExpr) : String := String.ofList (written t.tokens)

theorem unlessAbsent_of_ne {α : Type} {t : TypeExpr} (h : t ≠ .absent) (written : List α) :
    unlessAbsent t written = written := by
  cases t with
  | absent => exact absurd rfl h
  | _ => rfl

/-! ## Tokens that can be written together -/

/-- A token that goes on as long as letters, digits or signs of a number follow. -/
def Token.isWord : Token → Bool
  | .name _ | .function | .number _ => true
  | _ => false

/-- A token with a text of its own that is no word. -/
def Token.isSymbol : Token → Bool
  | .name _ | .function | .number _ | .quoted _ _ => false
  | _ => true

theorem Token.of_isSymbol {t : Token} (h : t.isSymbol = true) : t.Lexeme ∧ t.isWord = false := by
  cases t with
  | name _ | function | number _ | quoted _ _ => cases h
  | _ => exact ⟨trivial, rfl⟩

/-- Tokens of which no two words stand side by side. -/
def Spellable (ts : List Token) : Prop :=
  (∀ t ∈ ts, t.Lexeme) ∧ ts.IsChain fun a b => a.isWord = true → b.isWord = false

theorem Spellable.nil : Spellable [] := ⟨fun _ ht => (nomatch ht), .nil⟩

theorem Spellable.one {t : Token} (ht : t.Lexeme) : Spellable [t] :=
  ⟨List.forall_mem_singleton.mpr ht, .singleton t⟩

/-- A symbol can be written between any other tokens. -/
theorem Spellable.append {before after : List Token} {t : Token} (hbefore : Spellable before)
    (ht : t.isSymbol = true) (hafter : Spellable after) : Spellable (before ++ t :: after) := by
  obtain ⟨hlexeme, hword⟩ := Token.of_isSymbol ht
  refine ⟨?_, List.isChain_append.mpr ⟨hbefore.2, List.isChain_cons.mpr ⟨?_, hafter.2⟩, ?_⟩⟩
  · exact List.forall_mem_append.mpr ⟨hbefore.1, List.forall_mem_cons.mpr ⟨hlexeme, hafter.1⟩⟩
  · exact fun b _ h => absurd (hword.symm.trans h) Bool.noConfusion
  · intro a _ b hb _
    cases hb
    exact hword

theorem Spellable.cons {after : List Token} {t : Token} (ht : t.isSymbol = true)
    (hafter : Spellable after) : Spellable (t :: after) :=
  Spellable.append .nil ht hafter

theorem Spellable.intercalate {sep : Token} (hsep : sep.isSymbol = true)
    {pieces : List (List Token)} (h : ∀ piece ∈ pieces, Spellable piece) :
    Spellable ([sep].intercalate pieces) := by
  induction pieces with
  | nil =>
    rw [List.intercalate_nil]
    exact .nil
  | cons piece later ih =>
    rw [List.forall_mem_cons] at h
    cases later with
    | nil =>
      rw [List.intercalate_singleton]
      exact h.1
    | cons next later =>
      rw [List.intercalate_cons_cons, List.append_assoc, List.singleton_append]
      exact h.1.append hsep (ih h.2)

/-- A token that is no word starts with a character, or with a point and one, that no word goes on
with. -/
theorem Token.exists_head {t : Token} (ht : t.Lexeme) (hword : t.isWord = false) :
    ∃ c later, t.text.toList = c :: later ∧ isNamePart c = false ∧ Text.isDigit c = false ∧
      (c = '.' → later.head?.any isNameStart = false ∧ later.head?.any Text.isDigit = false ∧
        later ≠ []) := by
  cases t with
  | name _ | function | number _ => cases hword
  | quoted mark body =>
    refine ⟨mark, body.toList ++ [mark], by simp [text], ?_⟩
    rcases ht.1 with rfl | rfl <;> exact ⟨by decide, by decide, fun h => absurd h (by decide)⟩
  | _ => exact ⟨_, _, rfl, by decide, by decide, by decide⟩

/-- A token does not go on in the next one if only one of the two is a word. -/
theorem Token.ends_of_apart {a b : Token} (hb : b.Lexeme) (h : a.isWord = true → b.isWord = false)
    (more : List Char) : a.Ends (b.text.toList ++ more) := by
  have hhead : a.isWord = true → NameEnds (b.text.toList ++ more) ∧
      ∀ s, NumberEnds s (b.text.toList ++ more) := by
    intro ha
    obtain ⟨c, later, htext, hpart, hdigit, hpoint⟩ := b.exists_head hb (h ha)
    rw [htext, List.cons_append]
    refine ⟨⟨hpart, fun hc => ?_⟩, fun s => ⟨hdigit, fun _ after hafter => ?_⟩⟩
    · obtain ⟨hname, -, hne⟩ := hpoint hc
      rwa [List.head?_append_of_ne_nil _ hne]
    · obtain ⟨hc, rfl⟩ := List.cons.inj hafter
      obtain ⟨-, hnumber, hne⟩ := hpoint hc
      rwa [List.head?_append_of_ne_nil _ hne]
  cases a with
  | name _ | function => exact (hhead rfl).1
  | number text => exact (hhead rfl).2 _
  | _ => trivial

theorem Token.ends_nil (t : Token) : t.Ends [] := by
  cases t with
  | number text => exact ⟨rfl, fun _ _ h => nomatch h⟩
  | _ => trivial

/-- Tokens that can be written together are those of their text. -/
theorem exists_lexes {ts : List Token} (h : Spellable ts) :
    ∀ n, ∃ ls, ls.map Located.token = ts ∧ Lexes n (written ts) ls := by
  induction ts with
  | nil => exact fun n => ⟨[], rfl, .nil n⟩
  | cons t ts ih =>
    intro n
    obtain ⟨hlexeme, hchain⟩ := h
    rw [List.forall_mem_cons] at hlexeme
    rw [List.isChain_cons] at hchain
    obtain ⟨ls, hls, hlexes⟩ := ih ⟨hlexeme.2, hchain.2⟩ (n + t.text.length)
    have hends : t.Ends (written ts) := by
      cases ts with
      | nil => exact t.ends_nil
      | cons next ts =>
        exact Token.ends_of_apart (hlexeme.2 next List.mem_cons_self) (hchain.1 next rfl) _
    exact ⟨⟨t, n⟩ :: ls, by rw [List.map_cons, hls], .token hlexeme.1 hends hlexes⟩

/-! ## Blanks -/

/-- The blanks above ASCII. -/
def wideBlanks : List ℕ :=
  [0x85, 0xA0, 0x1680, 0x2000, 0x2001, 0x2002, 0x2003, 0x2004, 0x2005, 0x2006, 0x2007, 0x2008,
   0x2009, 0x200A, 0x2028, 0x2029, 0x202F, 0x205F, 0x3000]

theorem mem_wideBlanks {c : Char} (h : Text.isBlank c = true) (hc : 0x80 ≤ c.toNat) :
    c.toNat ∈ wideBlanks := by
  simp only [Text.isBlank, Bool.or_eq_true, Bool.and_eq_true, decide_eq_true_eq, beq_iff_eq] at h
  simp only [wideBlanks, List.mem_cons, List.not_mem_nil, or_false]
  omega

theorem not_within_of_mem_wideBlanks : ∀ n ∈ wideBlanks,
    Text.within Text.wordRanges n = false ∧ Text.within Text.digitRanges n = false := by
  decide +kernel

/-- No blank is a part of a name or a number. -/
theorem not_word_of_isBlank {c : Char} (h : Text.isBlank c = true) :
    Token.isNamePart c = false ∧ Text.isDigit c = false := by
  by_cases hlow : c.toNat < 0x80
  · have hall : ∀ n < 0x80, Text.isBlank (Char.ofNat n) = true →
        Token.isNamePart (Char.ofNat n) = false ∧ Text.isDigit (Char.ofNat n) = false := by
      decide
    have := hall c.toNat hlow
    rw [Char.ofNat_toNat] at this
    exact this h
  · obtain ⟨hword, hdigit⟩ := not_within_of_mem_wideBlanks _ (mem_wideBlanks h (not_lt.mp hlow))
    have hdollar : c ≠ '$' := by
      rintro rfl
      exact hlow (by decide)
    refine ⟨?_, by rw [Text.isDigit, if_neg hlow, hdigit]⟩
    rw [Token.isNamePart, Text.isWord, if_neg hlow, hword, beq_eq_false_iff_ne.mpr hdollar]
    rfl

theorem not_blank_of_isNamePart {c : Char} (h : Token.isNamePart c = true) :
    Text.isBlank c = false := by
  by_contra hblank
  rw [(not_word_of_isBlank (Bool.not_eq_false _ ▸ hblank)).1] at h
  cases h

theorem not_blank_of_isDigit {c : Char} (h : Text.isDigit c = true) : Text.isBlank c = false := by
  by_contra hblank
  rw [(not_word_of_isBlank (Bool.not_eq_false _ ▸ hblank)).2] at h
  cases h

theorem Token.not_blank_ends {t : Token} (h : t.Lexeme) :
    (∀ c ∈ t.text.toList.head?, Text.isBlank c = false) ∧
      ∀ c ∈ t.text.toList.getLast?, Text.isBlank c = false := by
  cases t with
  | name word =>
    have hall := h.1.forall_mem (fun _ => not_blank_of_isNamePart) (by decide)
    exact ⟨fun c hc => hall c (List.mem_of_mem_head? hc),
      fun c hc => hall c (List.mem_of_mem_getLast? hc)⟩
  | number digits =>
    have hall := IsNumber.forall_mem h (fun _ => not_blank_of_isDigit) (by decide) (by decide)
    exact ⟨fun c hc => hall c (List.mem_of_mem_head? hc),
      fun c hc => hall c (List.mem_of_mem_getLast? hc)⟩
  | quoted mark body =>
    have hmark : Text.isBlank mark = false := by rcases h.1 with rfl | rfl <;> decide
    have htext : (Token.quoted mark body).text.toList = (mark :: body.toList) ++ [mark] := by
      simp [text]
    rw [htext, List.getLast?_concat]
    exact ⟨fun c hc => by cases hc; exact hmark, fun c hc => by cases hc; exact hmark⟩
  | _ =>
    constructor <;>
    · intro c hc
      cases hc
      decide

/-- Tokens written together have no blanks around them. -/
theorem trim_written {ts : List Token} (h : ∀ t ∈ ts, t.Lexeme) :
    Text.trim (written ts) = written ts := by
  have hedge : ∀ s : List Char, (∀ c ∈ s.head?, Text.isBlank c = false) →
      Text.trimLeft s = s := by
    intro s hs
    cases s with
    | nil => rfl
    | cons c s => exact Text.trimLeft_of_not_blank (hs c rfl)
  have hhead : ∀ c ∈ (written ts).head?, Text.isBlank c = false := by
    cases ts with
    | nil => exact fun c hc => nomatch hc
    | cons t ts =>
      have ht := h t List.mem_cons_self
      intro c hc
      rw [written, List.flatMap_cons, List.head?_append_of_ne_nil _ (Token.text_ne_nil ht)] at hc
      exact (Token.not_blank_ends ht).1 c hc
  have hlast : ∀ c ∈ (written ts).getLast?, Text.isBlank c = false := by
    rcases List.eq_nil_or_concat ts with rfl | ⟨ts, t, rfl⟩
    · exact fun c hc => nomatch hc
    · have ht := h t (by simp)
      intro c hc
      rw [written, List.concat_eq_append, List.flatMap_append, List.flatMap_singleton,
        List.getLast?_append_of_ne_nil _ (Token.text_ne_nil ht)] at hc
      exact (Token.not_blank_ends ht).2 c hc
  rw [Text.trim, hedge _ hhead, Text.trimRight]
  have hright := hedge (written ts).reverse (by rwa [List.head?_reverse])
  rw [Text.trimLeft] at hright
  rw [hright, List.reverse_reverse]

end Ambient.TypeExpr
