import Ambient.Script.Grammar.Goal
import Mathlib.Data.List.Basic
import Mathlib.Order.Basic

/-!
# Reading onward

A reader may find nothing. If it finds something, the place after it is reached by reading on, so a
reader never goes back and never jumps to another text.

* places are ordered by reading on, `Cursor.le_drop` and `Cursor.lt_drop`;
* `Gives`: what holds of whatever a computation gives, with a rule for each way to put computations
  together;
* `Onward`: a computation that gives no place before a given one;
* `Token.length_pos`: every token but the ending has a length;
* the readers of single tokens are onward.
-/

namespace Ambient.Script

/-! ## The order of places -/

namespace Cursor

theorem drop_drop (c : Cursor) (m n : ℕ) : (c.drop m).drop n = c.drop (m + n) := by
  simp only [drop, List.drop_drop, Nat.add_assoc, Nat.sub_sub]

/-- Reading on makes no way only if it reads nothing. -/
theorem drop_eq_self_iff {c : Cursor} {n : ℕ} : c.drop n = c ↔ n = 0 := by
  constructor
  · intro h
    have hoffset : c.offset + n = c.offset := congrArg offset h
    omega
  · rintro rfl
    rfl

/-- A place is not before another one if reading on leads from the other one to it. -/
instance : PartialOrder Cursor where
  le c later := ∃ n, later = c.drop n
  le_refl c := ⟨0, rfl⟩
  le_trans := by
    rintro c _ _ ⟨m, rfl⟩ ⟨n, rfl⟩
    exact ⟨m + n, drop_drop c m n⟩
  le_antisymm := by
    rintro c _ ⟨m, rfl⟩ ⟨n, hback⟩
    rw [drop_drop, eq_comm, drop_eq_self_iff] at hback
    rw [eq_comm, drop_eq_self_iff]
    omega

theorem le_iff {c later : Cursor} : c ≤ later ↔ ∃ n, later = c.drop n := Iff.rfl

theorem le_drop (c : Cursor) (n : ℕ) : c ≤ c.drop n := ⟨n, rfl⟩

theorem lt_drop {n : ℕ} (hn : 0 < n) (c : Cursor) : c < c.drop n := by
  refine lt_of_le_of_ne (le_drop c n) fun h => ?_
  have := drop_eq_self_iff.mp h.symm
  omega

theorem lt_iff {c later : Cursor} : c < later ↔ ∃ n, 0 < n ∧ later = c.drop n := by
  constructor
  · intro h
    obtain ⟨n, rfl⟩ := le_iff.mp h.le
    exact ⟨n, Nat.pos_of_ne_zero fun hn => h.ne (drop_eq_self_iff.mpr hn).symm, rfl⟩
  · rintro ⟨n, hn, rfl⟩
    exact lt_drop hn c

end Cursor

/-! ## What a computation gives -/

/-- Whatever a computation gives has a property. -/
def Gives {α : Type} (r : Option α) (P : α → Prop) : Prop := ∀ a, r = some a → P a

namespace Gives

variable {α β : Type} {r : Option α} {P P' : α → Prop} {Q : β → Prop}

theorem none : Gives none P := nofun

theorem some {a : α} (h : P a) : Gives (some a) P := by
  rintro _ ⟨⟩
  exact h

theorem mono (hr : Gives r P) (h : ∀ a, P a → P' a) : Gives r P' := fun a ha => h a (hr a ha)

theorem bind {f : α → Option β} (hr : Gives r P) (hf : ∀ a, P a → Gives (f a) Q) :
    Gives (r >>= f) Q := by
  intro b hb
  obtain ⟨a, ha, hb⟩ := Option.bind_eq_some_iff.mp hb
  exact hf a (hr a ha) b hb

theorem map {f : α → β} (hr : Gives r P) (hf : ∀ a, P a → Q (f a)) : Gives (r.map f) Q := by
  intro b hb
  obtain ⟨a, ha, rfl⟩ := Option.map_eq_some_iff.mp hb
  exact hf a (hr a ha)

theorem or {s : Option α} (hr : Gives r P) (hs : Gives s P) : Gives (r.or s) P := by
  intro a ha
  rcases Option.or_eq_some_iff.mp ha with ha | ⟨-, ha⟩
  · exact hr a ha
  · exact hs a ha

/-- Nothing is asked of what is given. -/
theorem any (r : Option α) : Gives r fun _ => True := fun _ _ => trivial

theorem getD {a : α} (hr : Gives r P) (ha : P a) : P (r.getD a) := by
  cases r with
  | none => exact ha
  | some b => exact hr b rfl

end Gives

/-- The places after what is read are not before a given place. -/
abbrev Onward {α : Type} (c : Cursor) (r : Option (α × Cursor)) : Prop := Gives r fun x => c ≤ x.2

/-- The places after what is read are behind a given place. -/
abbrev Past {α : Type} (c : Cursor) (r : Option (α × Cursor)) : Prop := Gives r fun x => c < x.2

variable {α : Type} {c d : Cursor} {r : Option (α × Cursor)}

theorem past_of_lt (hlt : c < d) (h : Onward d r) : Past c r := h.mono fun _ hx => hlt.trans_le hx

/-! ## Tokens -/

theorem length_takeWhile_pos {p : Char → Bool} {a : Char} (h : p a = true) (s : List Char) :
    0 < ((a :: s).takeWhile p).length := by
  rw [List.takeWhile_cons_of_pos h]
  exact Nat.succ_pos _

theorem numberLength_pos {a : Char} {s : List Char} (h : a.isDigit = true ∨ a = '.') :
    0 < numberLength (a :: s) := by
  have hdecimal : 0 < numberLength.decimal (a :: s) := by
    rcases h with h | rfl
    · have hwhole : 0 < ((a :: s).takeWhile isNumberChar).length :=
        length_takeWhile_pos (by rw [isNumberChar, h]; rfl) s
      unfold numberLength.decimal
      dsimp only
      split <;> omega
    · rw [numberLength.decimal]
      exact Nat.add_pos_left (Nat.add_pos_left (Nat.succ_pos _) _) _
  unfold numberLength
  split
  · split
    · omega
    · exact hdecimal
  · exact hdecimal

theorem length_mark?_pos {s : List Char} {m : String} (h : mark? s = some m) : 0 < m.length := by
  have hall : ∀ m ∈ marks, 0 < m.length := by decide
  exact hall m (List.mem_of_find?_eq_some h)

/-- Every token but the ending has a length. -/
theorem Token.length_pos {s : List Char} {t : Token} {n : ℕ} (h : Token.read? s = some (t, n))
    (ht : t ≠ .ending) : 0 < n := by
  unfold Token.read? at h
  split at h
  · cases h
    exact absurd rfl ht
  · rename_i a rest
    split at h
    · obtain ⟨m, -, ⟨⟩⟩ := Option.map_eq_some_iff.mp h
      exact Nat.succ_pos m
    split at h
    · rename_i hdigit
      cases h
      refine numberLength_pos ?_
      rw [Bool.or_eq_true, Bool.and_eq_true, beq_iff_eq] at hdigit
      exact hdigit.imp_right And.left
    split at h
    · cases h
      exact Nat.one_pos
    split at h
    · dsimp only at h
      split at h
      · cases h
      · cases h
        exact Nat.succ_pos _
    split at h
    · rename_i m hm
      cases h
      exact length_mark?_pos hm
    · dsimp only at h
      split at h
      · cases h
      · rename_i hzero
        cases h
        exact Nat.pos_of_ne_zero hzero

/-- A token stands not before a given place, and it ends behind that place unless it is the
ending. -/
structure Peek.From (c : Cursor) (p : Peek) : Prop where
  start : c ≤ p.start
  after : c ≤ p.after
  lt_after : p.token ≠ .ending → c < p.after

theorem peek?_onward (markup : Bool) (h : c ≤ d) : Gives (d.peek? markup) (Peek.From c) := by
  intro p hp
  obtain ⟨gap, -, hp⟩ := Option.bind_eq_some_iff.mp hp
  obtain ⟨⟨token, n⟩, hread, hp⟩ := Option.bind_eq_some_iff.mp hp
  cases hp
  have hstart : c ≤ d.drop gap.length := h.trans (d.le_drop gap.length)
  exact {
    start := hstart
    after := hstart.trans (Cursor.le_drop _ n)
    lt_after := fun ht => hstart.trans_lt (Cursor.lt_drop (Token.length_pos hread ht) _) }

/-! ## Readers of single tokens -/

theorem expectMark_onward (text : String) (h : c ≤ d) : Onward c (expectMark text d) := by
  refine (peek?_onward false h).bind fun p hp => ?_
  split
  · exact .some hp.after
  · exact .none

theorem expectWord_onward (text : String) (h : c ≤ d) : Onward c (expectWord text d) := by
  refine (peek?_onward false h).bind fun p hp => ?_
  split
  · exact .some hp.after
  · exact .none

theorem anyWord_onward (h : c ≤ d) : Onward c (anyWord d) := by
  refine (peek?_onward false h).bind fun p hp => ?_
  split
  · exact .some hp.after
  · exact .none

theorem afterMark?_onward (text : String) (h : c ≤ d) : Gives (afterMark? text d) (c ≤ ·) :=
  (expectMark_onward text h).map fun _ hx => hx

/-- A mark that may be missing is passed if it is there. -/
theorem getD_afterMark?_onward (text : String) (h : c ≤ d) : c ≤ (afterMark? text d).getD d :=
  (afterMark?_onward text h).getD h

theorem afterWord?_onward (text : String) (h : c ≤ d) : Gives (afterWord? text d) (c ≤ ·) :=
  (expectWord_onward text h).map fun _ hx => hx

theorem endStatement_onward (h : c ≤ d) : Onward c (endStatement d) := by
  refine (peek?_onward false h).bind fun p hp => ?_
  split_ifs
  · exact .some hp.after
  · exact .some h
  · exact .none

theorem optionalSemicolon_onward (h : c ≤ d) : c ≤ optionalSemicolon d :=
  getD_afterMark?_onward ";" h

end Ambient.Script
