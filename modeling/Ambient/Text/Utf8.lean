/-!
# UTF-8

Bytes are read one at a time; a sequence that breaks off is given up as a whole, up to the byte
that cannot belong to it, and that byte is read afresh.

* `Break`: how a sequence breaks off; `Offence`: the first one of a text that does, and where;
* `decode`: the characters, with a `Break` for every sequence that broke off;
* `decodeLossy` puts the replacement character there, `decode?` refuses the text;
* `encode`.
-/

namespace Ambient.Text.Utf8

/-- How a sequence of bytes breaks off, with the number of its bytes. -/
inductive Break
  /-- A byte starts no character. -/
  | start
  /-- The next byte belongs to no such sequence. -/
  | stray (length : Nat)
  /-- There is no next byte. -/
  | ending (length : Nat)
  deriving DecidableEq, Repr

namespace Break

/-- The number of bytes of a sequence that broke off. -/
def length : Break → Nat
  | .start => 1
  | .stray n => n
  | .ending n => n

/-- The wording of a break. -/
def wording : Break → String
  | .start => "invalid start byte"
  | .stray _ => "invalid continuation byte"
  | .ending _ => "unexpected end of data"

end Break

/-- A sequence that breaks off: its place, its first byte and how it does. -/
structure Offence where
  position : Nat
  byte : UInt8
  cause : Break
  deriving DecidableEq, Repr

/-- The two digits of a byte in base sixteen. -/
def hex (b : UInt8) : String :=
  String.ofList [Nat.digitChar (b.toNat / 16), Nat.digitChar (b.toNat % 16)]

/-- Where an offence is: one byte, or the first and the last of several. -/
def Offence.place (o : Offence) : String :=
  let n := o.cause.length
  if n = 1 then "byte 0x" ++ hex o.byte ++ " in position " ++ toString o.position
  else "bytes in position " ++ toString o.position ++ "-" ++ toString (o.position + n - 1)

/-- The message of an offence. -/
def Offence.message (o : Offence) : String :=
  "'utf-8' codec can't decode " ++ o.place ++ ": " ++ o.cause.wording

/-- A sequence under way: how many bytes it has and still owes, the least and greatest byte that may
come next, and the number read so far. -/
structure Pending where
  length : Nat
  owed : Nat
  low : Nat
  high : Nat
  value : Nat

/-- What a first byte starts: a character by itself, a sequence, or nothing. -/
def first (b : Nat) : Option (Char ⊕ Pending) :=
  if b < 0x80 then some (.inl (Char.ofNat b))
  else if b < 0xC2 then none
  else if b < 0xE0 then some (.inr ⟨1, 1, 0x80, 0xBF, b - 0xC0⟩)
  else if b = 0xE0 then some (.inr ⟨1, 2, 0xA0, 0xBF, 0⟩)
  else if b = 0xED then some (.inr ⟨1, 2, 0x80, 0x9F, 0xD⟩)
  else if b < 0xF0 then some (.inr ⟨1, 2, 0x80, 0xBF, b - 0xE0⟩)
  else if b = 0xF0 then some (.inr ⟨1, 3, 0x90, 0xBF, 0⟩)
  else if b < 0xF4 then some (.inr ⟨1, 3, 0x80, 0xBF, b - 0xF0⟩)
  else if b = 0xF4 then some (.inr ⟨1, 3, 0x80, 0x8F, 4⟩)
  else none

/-- The characters after the bytes read so far. -/
def decodeFrom : Option Pending → List UInt8 → List (Except Break Char)
  | none, [] => []
  | some p, [] => [.error (.ending p.length)]
  | none, b :: rest => fresh b.toNat rest
  | some p, b :: rest =>
    let n := b.toNat
    if p.low ≤ n ∧ n ≤ p.high then
      let value := p.value * 64 + (n - 0x80)
      if p.owed ≤ 1 then .ok (Char.ofNat value) :: decodeFrom none rest
      else decodeFrom (some ⟨p.length + 1, p.owed - 1, 0x80, 0xBF, value⟩) rest
    else .error (.stray p.length) :: fresh n rest
where
  /-- A byte read outside any sequence. -/
  fresh (n : Nat) (rest : List UInt8) : List (Except Break Char) :=
    match first n with
    | none => .error .start :: decodeFrom none rest
    | some (.inl c) => .ok c :: decodeFrom none rest
    | some (.inr p) => decodeFrom (some p) rest

/-- The characters of a byte sequence, and the breaks between them. -/
def decode (bytes : List UInt8) : List (Except Break Char) := decodeFrom none bytes

/-- The text of a byte sequence, with the replacement character for what is not UTF-8. -/
def decodeLossy (bytes : List UInt8) : List Char :=
  (decode bytes).map fun
    | .ok c => c
    | .error _ => Char.ofNat 0xFFFD

/-- Characters without a break, or the first break with its place, which is counted in bytes. -/
def unbroken (position : Nat) : List (Except Break Char) → Except (Nat × Break) (List Char)
  | [] => .ok []
  | .error b :: _ => .error (position, b)
  | .ok c :: rest => (unbroken (position + c.utf8Size) rest).map (c :: ·)

/-- The text of a byte sequence that is UTF-8 throughout, or the first offence. -/
def decode? (bytes : List UInt8) : Except Offence (List Char) :=
  (unbroken 0 (decode bytes)).mapError fun (position, cause) =>
    ⟨position, (bytes[position]?).getD 0, cause⟩

/-- The bytes of a text. -/
def encode (s : String) : List UInt8 := s.toUTF8.toList

end Ambient.Text.Utf8
