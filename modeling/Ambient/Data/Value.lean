import Ambient.Decimal.Binary64
import Ambient.Text.Quoted

/-!
# Plain data

The values that settings files and reports are made of.

* `Value`, with its look-ups `Value.get?` and its names of kinds `Value.kind`;
* `Value.ofPairs`: a table where a later value of a key takes the place of an earlier one;
* `Value.spelling`: a value as it is shown where a text is wanted.
-/

namespace Ambient.Data

open Ambient.Decimal

/-- A piece of plain data. -/
inductive Value
  | null
  | boolean (b : Bool)
  | integer (n : Int)
  | real (x : Binary64)
  | text (s : String)
  | list (items : List Value)
  | table (entries : List (Value × Value))
  deriving Inhabited

namespace Value

/-- Whether two values are the same key of a table: scalars by their values. -/
def sameKey : Value → Value → Bool
  | .null, .null => true
  | .boolean a, .boolean b => a == b
  | .integer a, .integer b => a == b
  | .real a, .real b => decide (a = b)
  | .text a, .text b => a == b
  | _, _ => false

/-- Puts a value under a key: in the place of an earlier value, else at the end. -/
def put (key value : Value) : List (Value × Value) → List (Value × Value)
  | [] => [(key, value)]
  | (k, v) :: rest => if sameKey k key then (k, value) :: rest else (k, v) :: put key value rest

/-- A table from its pairs, read from the first to the last. -/
def ofPairs (pairs : List (Value × Value)) : Value :=
  .table (pairs.foldl (fun entries p => put p.1 p.2 entries) [])

/-- The value under a key of text. -/
def lookup (key : String) : List (Value × Value) → Option Value
  | [] => none
  | (k, v) :: rest => if sameKey k (.text key) then some v else lookup key rest

/-- The value of a field. -/
def get? (v : Value) (key : String) : Option Value :=
  match v with
  | .table entries => lookup key entries
  | _ => none

/-- The keys of a table. -/
def keys : Value → List Value
  | .table entries => entries.map (·.1)
  | _ => []

/-- The text that a value is. -/
def text? : Value → Option String
  | .text s => some s
  | _ => none

/-- Null, false, zero, and what holds nothing. -/
def isEmpty : Value → Bool
  | .null => true
  | .boolean b => !b
  | .integer n => n == 0
  | .real x => !x.isNonzero
  | .text s => s.isEmpty
  | .list items => items.isEmpty
  | .table entries => entries.isEmpty

/-- The name of the kind of a value. -/
def kind : Value → String
  | .null => "NoneType"
  | .boolean _ => "bool"
  | .integer _ => "int"
  | .real _ => "float"
  | .text _ => "str"
  | .list _ => "list"
  | .table _ => "dict"

mutual

/-- A value inside a list or a table: texts are quoted. -/
def inner : Value → String
  | .null => "None"
  | .boolean b => if b then "True" else "False"
  | .integer n => toString n
  | .real x => x.text
  | .text s => Text.quoted s
  | .list items => "[" ++ String.intercalate ", " (inners items) ++ "]"
  | .table entries => "\x7b" ++ String.intercalate ", " (innerPairs entries) ++ "\x7d"

/-- The items of a list. -/
def inners : List Value → List String
  | [] => []
  | v :: vs => inner v :: inners vs

/-- The entries of a table. -/
def innerPairs : List (Value × Value) → List String
  | [] => []
  | (k, v) :: rest => (inner k ++ ": " ++ inner v) :: innerPairs rest

end

/-- A value as a text. -/
def spelling : Value → String
  | .text s => s
  | v => inner v

end Value

end Ambient.Data
