import Ambient.Doc.Braces
import Mathlib.Data.List.Infix
import Mathlib.Data.List.TakeWhile

/-!
# The shortest part in braces

Reading a part in braces counts how many braces are open. It ends at the first place where as many
are closed as have been opened, so what it finds is the shortest beginning that closes as many
braces as it opens, and it finds one whenever there is one.

* `Within`, `Exhausts`, `GoesOn`: how far counting goes down in a text, character by character;
* `untilClosed_eq_none_iff`, `untilClosed_eq_some_iff`: whether counting ends, and where;
* `IsEven`, `Enclosed`: the shortest beginning that is as deep at its end as at its start;
* `readBraced_eq_absent_iff`, `exists_readBraced_balanced`, `readBraced_unbalanced`: the three
  outcomes;
* **`readBraced_shortest`**: the part in braces of a text, and what is left of it.
-/

namespace Ambient.Doc

variable {depth depth' : ℕ} {c : Char} {s t inner rest : List Char}

/-! ## Counting -/

/-- No beginning of a text closes more than `depth` braces beyond those that it opens. -/
def Within (depth : ℕ) (s : List Char) : Prop :=
  ∀ p, p <+: s → p.count '\x7d' ≤ p.count '\x7b' + depth

/-- A text that closes `depth` braces beyond those that it opens, and no more before its end. -/
structure Exhausts (depth : ℕ) (s : List Char) : Prop where
  count_eq : s.count '\x7d' = s.count '\x7b' + depth
  within : Within depth s

theorem forall_prefix_cons {P : List Char → Prop} :
    (∀ p, p <+: c :: s → P p) ↔ P [] ∧ ∀ p, p <+: s → P (c :: p) := by
  constructor
  · intro h
    exact ⟨h [] List.nil_prefix, fun p hp => h (c :: p) (List.prefix_cons_inj c |>.mpr hp)⟩
  · rintro ⟨hnil, hcons⟩ p hp
    rcases List.prefix_cons_iff.mp hp with rfl | ⟨p', rfl, hp'⟩
    · exact hnil
    · exact hcons p' hp'

theorem within_nil (depth : ℕ) : Within depth [] := by
  intro p hp
  rw [List.prefix_nil.mp hp]
  exact Nat.zero_le _

/-- Behind a character the same text goes as far down as from another depth. -/
def GoesOn (c : Char) (depth depth' : ℕ) : Prop :=
  ∀ p : List Char, (c :: p).count '\x7d' + (p.count '\x7b' + depth') =
    p.count '\x7d' + ((c :: p).count '\x7b' + depth)

theorem goesOn_open (depth : ℕ) : GoesOn '\x7b' depth (depth + 1) := by
  intro p
  rw [List.count_cons_of_ne (by decide), List.count_cons_self]
  omega

theorem goesOn_close (depth : ℕ) : GoesOn '\x7d' (depth + 1) depth := by
  intro p
  rw [List.count_cons_self, List.count_cons_of_ne (by decide)]
  omega

theorem goesOn_other (hopen : c ≠ '\x7b') (hclose : c ≠ '\x7d') (depth : ℕ) :
    GoesOn c depth depth := by
  intro p
  rw [List.count_cons_of_ne hclose, List.count_cons_of_ne hopen]

theorem GoesOn.within_iff (h : GoesOn c depth depth') :
    Within depth (c :: s) ↔ Within depth' s := by
  rw [Within, forall_prefix_cons, and_iff_right (within_nil depth [] List.nil_prefix), Within]
  refine forall₂_congr fun p _ => ?_
  have hp := h p
  omega

theorem GoesOn.exhausts_iff (h : GoesOn c depth depth') :
    Exhausts depth (c :: s) ↔ Exhausts depth' s := by
  have hcount : (c :: s).count '\x7d' = (c :: s).count '\x7b' + depth ↔
      s.count '\x7d' = s.count '\x7b' + depth' := by
    have hs := h s
    omega
  exact ⟨fun hs => ⟨hcount.mp hs.count_eq, h.within_iff.mp hs.within⟩,
    fun hs => ⟨hcount.mpr hs.count_eq, h.within_iff.mpr hs.within⟩⟩

theorem not_within_close : ¬ Within 0 ('\x7d' :: s) := by
  intro h
  have hone := h ['\x7d'] (List.prefix_append ['\x7d'] s)
  exact absurd hone (by decide)

theorem exhausts_nil_iff : Exhausts depth [] ↔ depth = 0 := by
  constructor
  · intro h
    have hcount := h.count_eq
    simpa using hcount.symm
  · rintro rfl
    exact ⟨rfl, within_nil 0⟩

/-- Counting goes through a text if no beginning of it closes one brace too many. -/
theorem untilClosed_eq_none_iff : untilClosed depth s = none ↔ Within depth s := by
  fun_induction untilClosed depth s with
  | case1 depth => exact iff_of_true rfl (within_nil depth)
  | case2 depth s ih => rw [Option.map_eq_none_iff, ih, (goesOn_open depth).within_iff]
  | case3 s => exact iff_of_false (fun h => nomatch h) not_within_close
  | case4 s depth _ ih => rw [Option.map_eq_none_iff, ih, (goesOn_close depth).within_iff]
  | case5 depth c s hopen hclose ih =>
    rw [Option.map_eq_none_iff, ih, (goesOn_other hopen hclose depth).within_iff]

/-- One character more in front of what counting reads. -/
theorem GoesOn.map_eq_some_iff (h : GoesOn c depth depth')
    {read : Option (List Char × List Char)}
    (ih : ∀ inner, read = some (inner, rest) ↔ s = inner ++ '\x7d' :: rest ∧ Exhausts depth' inner)
    (hnil : c = '\x7d' → ¬ Exhausts depth []) :
    (read.map fun r => (c :: r.1, r.2)) = some (inner, rest) ↔
      c :: s = inner ++ '\x7d' :: rest ∧ Exhausts depth inner := by
  rw [Option.map_eq_some_iff]
  constructor
  · rintro ⟨⟨inner', rest'⟩, hread, hpair⟩
    obtain ⟨rfl, rfl⟩ := Prod.mk.inj hpair
    obtain ⟨hs, hinner⟩ := (ih inner').mp hread
    exact ⟨by rw [hs, List.cons_append], h.exhausts_iff.mpr hinner⟩
  · rintro ⟨hs, hinner⟩
    cases inner with
    | nil => exact absurd hinner (hnil (List.cons.inj hs).1)
    | cons c' inner' =>
      obtain ⟨rfl, hs'⟩ := List.cons.inj hs
      exact ⟨(inner', rest), (ih inner').mpr ⟨hs', h.exhausts_iff.mp hinner⟩, rfl⟩

/-- **Counting ends** at the first brace that closes one too many. -/
theorem untilClosed_eq_some_iff : untilClosed depth s = some (inner, rest) ↔
    s = inner ++ '\x7d' :: rest ∧ Exhausts depth inner := by
  fun_induction untilClosed depth s generalizing inner with
  | case1 depth => exact iff_of_false (fun h => nomatch h) (by simp)
  | case2 depth s ih =>
    exact (goesOn_open depth).map_eq_some_iff (fun _ => ih) fun h => absurd h (by decide)
  | case3 s =>
    constructor
    · intro h
      obtain ⟨rfl, rfl⟩ := Prod.mk.inj (Option.some.inj h)
      exact ⟨rfl, exhausts_nil_iff.mpr rfl⟩
    · rintro ⟨hs, hinner⟩
      cases inner with
      | nil => rw [(List.cons.inj hs).2]
      | cons c inner =>
        rw [← (List.cons.inj hs).1] at hinner
        exact absurd hinner.within not_within_close
  | case4 s depth _ ih =>
    refine (goesOn_close depth).map_eq_some_iff (fun _ => ih) fun _ hnil => ?_
    exact Nat.succ_ne_zero depth (exhausts_nil_iff.mp hnil)
  | case5 depth c s hopen hclose ih =>
    exact (goesOn_other hopen hclose depth).map_eq_some_iff (fun _ => ih)
      fun h => absurd h hclose

/-! ## Beginnings in braces -/

/-- A text that closes as many braces as it opens. -/
def IsEven (s : List Char) : Prop := s.count '\x7d' = s.count '\x7b'

/-- The shortest beginning of a text, the empty one aside, that closes as many braces as it
opens. -/
structure Enclosed (p s : List Char) : Prop where
  isPrefix : p <+: s
  ne_nil : p ≠ []
  isEven : IsEven p
  shortest : ∀ q, q <+: s → q ≠ [] → IsEven q → p.length ≤ q.length

/-- What is even behind a brace closes the brace. -/
theorem isEven_open_iff : IsEven ('\x7b' :: s) ↔ s.count '\x7d' = s.count '\x7b' + 1 := by
  rw [IsEven, List.count_cons_of_ne (by decide), List.count_cons_self]

theorem exists_open_of_prefix {q : List Char} (hq : q <+: '\x7b' :: s) (hne : q ≠ []) :
    ∃ q', q = '\x7b' :: q' ∧ q' <+: s :=
  (List.prefix_cons_iff.mp hq).resolve_left hne

/-- A text in braces that is not even before its end is the shortest beginning that is even. -/
theorem Exhausts.enclosed (h : Exhausts 0 inner) (rest : List Char) :
    Enclosed ('\x7b' :: (inner ++ ['\x7d'])) ('\x7b' :: (inner ++ '\x7d' :: rest)) where
  isPrefix := ⟨rest, by simp⟩
  ne_nil := List.cons_ne_nil _ _
  isEven := by
    rw [isEven_open_iff, List.count_append, List.count_append, h.count_eq]
    rfl
  shortest := by
    intro q hq hne heven
    obtain ⟨q', rfl, hq'⟩ := exists_open_of_prefix hq hne
    rw [isEven_open_iff] at heven
    rw [List.length_cons, List.length_cons, List.length_append, List.length_singleton]
    by_contra hlt
    -- A shorter one would lie inside, where no beginning closes a brace too many.
    have hinside : q' <+: inner :=
      List.prefix_of_prefix_length_le hq' (List.prefix_append _ _) (by omega)
    have hbound := h.within q' hinside
    omega

/-- Counting ends behind a brace if some beginning is even. -/
theorem exists_isEven_iff :
    (∃ p, p <+: '\x7b' :: s ∧ p ≠ [] ∧ IsEven p) ↔ ¬ Within 0 s := by
  constructor
  · rintro ⟨p, hp, hne, heven⟩ hwithin
    obtain ⟨p', rfl, hp'⟩ := exists_open_of_prefix hp hne
    rw [isEven_open_iff] at heven
    have hbound := hwithin p' hp'
    omega
  · intro hnot
    obtain ⟨⟨inner, rest⟩, hread⟩ :=
      Option.ne_none_iff_exists'.mp (untilClosed_eq_none_iff.not.mpr hnot)
    obtain ⟨rfl, hinner⟩ := untilClosed_eq_some_iff.mp hread
    have h := hinner.enclosed rest
    exact ⟨_, h.isPrefix, h.ne_nil, h.isEven⟩

/-! ## Reading -/

/-- The first character of a text that is not blank. -/
def firstMark? (text : List Char) : Option Char := text.find? fun c => !Text.isBlank c

/-- The inside of the part in braces, and what is left of the text. -/
def Braced.parts (text : List Char) : Braced → Option (List Char) × List Char
  | .absent => (none, text)
  | .balanced inner rest => (some inner, rest)
  | .unbalanced inner => (some inner, [])

theorem Braced.parts_eq_whole_iff {text : List Char} {b : Braced} :
    b.parts text = (none, text) ↔ b = .absent := by
  cases b <;> simp [parts]

theorem firstMark?_eq_head? (text : List Char) :
    firstMark? text = (Text.trimLeft text).head? :=
  List.find?_not_eq_head?_dropWhile Text.isBlank text

theorem firstMark?_eq_brace_iff {text : List Char} :
    firstMark? text = some '\x7b' ↔ ∃ s, Text.trimLeft text = '\x7b' :: s := by
  rw [firstMark?_eq_head?, List.head?_eq_some_iff]

theorem readBraced_of_trimLeft {text : List Char} (h : Text.trimLeft text = '\x7b' :: s) :
    readBraced text = match untilClosed 0 s with
      | some (inner, rest) => .balanced inner rest
      | none => .unbalanced s := by
  rw [readBraced, h]
  rfl

theorem readBraced_eq_absent_iff {text : List Char} :
    readBraced text = .absent ↔ firstMark? text ≠ some '\x7b' := by
  rw [Ne, firstMark?_eq_brace_iff]
  constructor
  · rintro habsent ⟨s, hs⟩
    rw [readBraced_of_trimLeft hs] at habsent
    split at habsent <;> cases habsent
  · intro hnone
    rw [readBraced]
    split
    · rename_i s hs
      exact absurd ⟨s, hs⟩ hnone
    · rfl

/-- A beginning that is even is found, the shortest one first. -/
theorem exists_readBraced_balanced {text : List Char} (h : Text.trimLeft text = '\x7b' :: s)
    (heven : ∃ p, p <+: '\x7b' :: s ∧ p ≠ [] ∧ IsEven p) :
    ∃ inner rest, readBraced text = .balanced inner rest ∧ s = inner ++ '\x7d' :: rest ∧
      Exhausts 0 inner := by
  obtain ⟨⟨inner, rest⟩, hread⟩ := Option.ne_none_iff_exists'.mp
    (untilClosed_eq_none_iff.not.mpr (exists_isEven_iff.mp heven))
  obtain ⟨hs, hinner⟩ := untilClosed_eq_some_iff.mp hread
  refine ⟨inner, rest, ?_, hs, hinner⟩
  rw [readBraced_of_trimLeft h, hread]

theorem readBraced_unbalanced {text : List Char} (h : Text.trimLeft text = '\x7b' :: s)
    (heven : ¬ ∃ p, p <+: '\x7b' :: s ∧ p ≠ [] ∧ IsEven p) :
    readBraced text = .unbalanced s := by
  rw [exists_isEven_iff, not_not] at heven
  rw [readBraced_of_trimLeft h, untilClosed_eq_none_iff.mpr heven]

/-- **The part in braces of a text.** The text is left whole exactly if its first mark is no opening
brace. Otherwise, if some beginning of the text without the blanks in front closes as many braces as
it opens, the shortest one is read: its inside is balanced, and the text behind it is left. If there
is none, all that stands behind the first brace is read, and nothing is left. -/
theorem readBraced_shortest (text : List Char) :
    let s := Text.trimLeft text
    let found := (readBraced text).parts text
    (found = (none, text) ↔ firstMark? text ≠ some '\x7b') ∧
      (firstMark? text = some '\x7b' →
        ((∃ p, p <+: s ∧ p ≠ [] ∧ IsEven p) → ∃ inner rest, found = (some inner, rest) ∧
          s = ['\x7b'] ++ inner ++ ['\x7d'] ++ rest ∧
          Enclosed (['\x7b'] ++ inner ++ ['\x7d']) s ∧ IsEven inner ∧
          ∀ p, p <+: inner → p.count '\x7d' ≤ p.count '\x7b') ∧
        ((¬ ∃ p, p <+: s ∧ p ≠ [] ∧ IsEven p) → found = (some (s.drop 1), []))) := by
  dsimp only
  refine ⟨Braced.parts_eq_whole_iff.trans readBraced_eq_absent_iff, fun hmark => ?_⟩
  obtain ⟨s, hs⟩ := firstMark?_eq_brace_iff.mp hmark
  rw [hs]
  constructor
  · intro heven
    obtain ⟨inner, rest, hread, rfl, hinner⟩ := exists_readBraced_balanced hs heven
    exact ⟨inner, rest, by rw [hread, Braced.parts], by simp, by simpa using hinner.enclosed rest,
      hinner.count_eq, hinner.within⟩
  · intro hnone
    rw [readBraced_unbalanced hs hnone, Braced.parts, List.drop_one, List.tail_cons]

/-- Braces inside braces, and one more behind them. -/
theorem readBraced_shortest_nested :
    let text := " \x7ba: \x7bb\x7d\x7d c\x7d".toList
    firstMark? text = some '\x7b' ∧ (∃ p, p <+: Text.trimLeft text ∧ p ≠ [] ∧ IsEven p) ∧
      (readBraced text).parts text = (some "a: \x7bb\x7d".toList, " c\x7d".toList) ∧
      Enclosed "\x7ba: \x7bb\x7d\x7d".toList (Text.trimLeft text) := by
  dsimp only
  have hmark : firstMark? " \x7ba: \x7bb\x7d\x7d c\x7d".toList = some '\x7b' := by decide
  have heven : ∃ p, p <+: Text.trimLeft " \x7ba: \x7bb\x7d\x7d c\x7d".toList ∧ p ≠ [] ∧ IsEven p :=
    ⟨"\x7ba: \x7bb\x7d\x7d".toList, by decide, by decide, by unfold IsEven; decide⟩
  obtain ⟨-, hfound⟩ := readBraced_shortest " \x7ba: \x7bb\x7d\x7d c\x7d".toList
  obtain ⟨inner, rest, hparts, -, henclosed, -, -⟩ := (hfound hmark).1 heven
  have hread : (readBraced " \x7ba: \x7bb\x7d\x7d c\x7d".toList).parts
      " \x7ba: \x7bb\x7d\x7d c\x7d".toList = (some "a: \x7bb\x7d".toList, " c\x7d".toList) := by
    decide
  obtain ⟨hinner, -⟩ := Prod.mk.inj (hparts.symm.trans hread)
  rw [Option.some.inj hinner] at henclosed
  exact ⟨hmark, heven, hread, henclosed⟩

end Ambient.Doc
