import Ambient.Data.Yaml.Plain
import Ambient.Data.Yaml.Scalar

/-!
# YAML

Settings are written in a small part of YAML: tables and lists, by indentation or in brackets, with
plain and quoted scalars, comments, and marks around the one document of a text. Anchors, tags and
block scalars are no part of it.

* `block`: what stands at a column or further right, by indentation;
* `flow`: what stands inside brackets;
* `Yaml.parse`.

All readers return the place where what they read ends.
-/

namespace Ambient.Data.Yaml

/-- A list or a table can be no key. -/
def isKey : Value → Bool
  | .list _ | .table _ => false
  | _ => true

/-- The scalar here, plain or quoted. -/
def scalar? (inside : Bool) (floor : Nat) (s : Spot) : Option (Value × Spot) :=
  match quotedScalar? s with
  | some (text, after) => some (.text (String.ofList text), after)
  | none =>
    if startsPlain inside s.rest then do
      let (text, after) := plainScalar inside floor s
      some (← valueOf? text, after)
    else none

/-- The key of an entry by indentation, and the place after its colon. A key stands on one line. -/
def key? (floor : Nat) (s : Spot) : Option (Value × Spot) :=
  let colon? (t : Spot) : Option Spot :=
    match t.rest with
    | ':' :: rest => if isGap rest then some (t.advance 1) else none
    | _ => none
  match colon? s with
  | some after => some (.null, after)
  | none => do
    let (k, stop) ← scalar? false floor s
    if stop.line = s.line then some (k, ← colon? stop.skipBlanks) else none

/-! ## Inside brackets -/

mutual

/-- What stands here inside brackets. -/
def flow : Nat → Spot → Option (Value × Spot)
  | 0, _ => none
  | fuel + 1, s =>
    match s.rest with
    | '[' :: _ => (flowItems fuel (s.advance 1)).map fun r => (.list r.1, r.2)
    | '\x7b' :: _ => (flowEntries fuel (s.advance 1)).map fun r => (Value.ofPairs r.1, r.2)
    | _ => scalar? true 0 s

/-- The value after a colon inside brackets, which may be left out. -/
def flowValue : Nat → Spot → Option (Value × Spot)
  | 0, _ => none
  | fuel + 1, s =>
    match s.skip.rest with
    | ',' :: _ | ']' :: _ | '\x7d' :: _ => some (.null, s)
    | _ => flow fuel s.skip

/-- The items of a list up to its closing bracket. An item with a colon is a table by itself. -/
def flowItems : Nat → Spot → Option (List Value × Spot)
  | 0, _ => none
  | fuel + 1, s =>
    match s.skip.rest with
    | ']' :: _ => some ([], s.skip.advance 1)
    | _ => do
      let (item, after) ← flow fuel s.skip
      let (item, after) ← match after.skip.rest with
        | ':' :: _ =>
          if isKey item then do
            let (v, after) ← flowValue fuel (after.skip.advance 1)
            some (.table [(item, v)], after)
          else none
        | _ => some (item, after)
      match after.skip.rest with
      | ',' :: _ => (flowItems fuel (after.skip.advance 1)).map fun r => (item :: r.1, r.2)
      | ']' :: _ => some ([item], after.skip.advance 1)
      | _ => none

/-- The entries of a table up to its closing bracket. An entry may be a key alone. -/
def flowEntries : Nat → Spot → Option (List (Value × Value) × Spot)
  | 0, _ => none
  | fuel + 1, s =>
    match s.skip.rest with
    | '\x7d' :: _ => some ([], s.skip.advance 1)
    | _ => do
      let (k, after) ← flow fuel s.skip
      let (v, after) ← match after.skip.rest with
        | ':' :: _ => flowValue fuel (after.skip.advance 1)
        | _ => some (.null, after)
      if !isKey k then none
      else match after.skip.rest with
        | ',' :: _ => (flowEntries fuel (after.skip.advance 1)).map fun r => ((k, v) :: r.1, r.2)
        | '\x7d' :: _ => some ([(k, v)], after.skip.advance 1)
        | _ => none

end

/-! ## By indentation -/

/-- A scalar or what stands in brackets, with nothing after it on its last line. -/
def inline (fuel floor : Nat) (s : Spot) : Option (Value × Spot) := do
  let (v, after) ← match s.rest with
    | '[' :: _ | '\x7b' :: _ => flow fuel s
    | _ => scalar? false floor s
  if after.isClosed then some (v, after) else none

mutual

/-- What stands here, at the given column or further right. -/
def block : Nat → Nat → Spot → Option (Value × Spot)
  | 0, _, _ => none
  | fuel + 1, floor, s =>
    if s.isEntry then (items fuel s.column false s).map fun r => (.list r.1, r.2)
    else match key? floor s with
      | some (k, after) =>
        (entries fuel s.column k after).map fun r => (Value.ofPairs r.1, r.2)
      | none => inline fuel floor s

/-- The items of a list whose hyphens stand at a column. Under a key of the same column the list
ends where no hyphen follows. -/
def items : Nat → Nat → Bool → Spot → Option (List Value × Spot)
  | 0, _, _, _ => none
  | fuel + 1, column, underKey, s => do
    let after := s.advance 1
    let next := after.skip
    let (v, stop) ←
      if next.isOver then some (.null, after)
      else if next.line = after.line ∨ column < next.column then block fuel (column + 1) next
      else some (.null, after)
    let next := stop.skip
    if next.isOver ∨ next.column < column then some ([v], stop)
    else if next.column = column ∧ next.isEntry then
      (items fuel column underKey next).map fun r => (v :: r.1, r.2)
    else if next.column = column ∧ underKey then some ([v], stop)
    else none

/-- The entries of a table whose keys stand at a column, from the first one on, whose key has been
read. -/
def entries : Nat → Nat → Value → Spot → Option (List (Value × Value) × Spot)
  | 0, _, _, _ => none
  | fuel + 1, column, k, s => do
    let next := s.skip
    let (v, stop) ←
      if next.isOver then some (.null, s)
      else if next.line = s.line then inline fuel (column + 1) next
      else if column < next.column then block fuel (column + 1) next
      else if next.column = column ∧ next.isEntry then
        (items fuel column true next).map fun r => (.list r.1, r.2)
      else some (.null, s)
    let next := stop.skip
    if next.isOver ∨ next.column < column then some ([(k, v)], stop)
    else if next.column = column then do
      let (k', after) ← key? (column + 1) next
      (entries fuel column k' after).map fun r => ((k, v) :: r.1, r.2)
    else none

end

/-! ## Documents -/

/-- The characters a text may be made of. -/
def isAllowed (c : Char) : Bool :=
  let n := c.toNat
  n = 9 || n = 10 || n = 13 || (0x20 ≤ n && n ≤ 0x7E) || n = 0x85 ||
    (0xA0 ≤ n && n ≤ 0xD7FF) || (0xE000 ≤ n && n ≤ 0xFFFD) || 0x10000 ≤ n

/-- Whether a text ends here, a mark for the end of its document aside. -/
def isFinished (s : Spot) : Bool :=
  match s.mark? with
  | some '.' => (s.advance 3).skip.rest.isEmpty
  | some _ => false
  | none => s.rest.isEmpty

/-- The one document of a text; an empty one is null. -/
def document (fuel : Nat) (s : Spot) : Option (Value × Spot) :=
  match s.mark? with
  | some '-' =>
    let start := s.advance 3
    let next := start.skip
    if next.isOver then some (.null, start)
    else if next.line = s.line then inline fuel 0 next
    else block fuel 0 next
  | some _ => none
  | none => if s.rest.isEmpty then some (.null, s) else block fuel 0 s

/-- The value of a text. The fuel exceeds the number of steps, as every reader that calls itself
again has passed a character in between. -/
def parse (text : List Char) : Option Value :=
  if text.all isAllowed then
    let body := if text.head? = some '\ufeff' then text.drop 1 else text
    match document (4 * body.length + 4) (Spot.first body).skip with
    | some (v, stop) => if isFinished stop.skip then some v else none
    | none => none
  else none

end Ambient.Data.Yaml
