/-!
# What cannot be declared

The reasons why a documented statement has no declaration, each with its message.

* `Refusal`, `Refusal.message`.
-/

namespace Ambient

/-- Why a declaration cannot be written. -/
inductive Refusal
  /-- A type of a kind that has no counterpart. -/
  | unsupportedType (kind : String)
  /-- A record with a member that is no field. -/
  | strayMember
  /-- An index signature from a number of types other than one or two. -/
  | objectArguments (count : Nat)
  /-- A statement of a kind that declares nothing. -/
  | unsupportedStatement (kind : String)
  /-- An expression statement that names nothing. -/
  | unsupportedExpression (kind : String)
  /-- A key of an enumeration that is neither a name nor a literal. -/
  | unsupportedKey (kind : String)
  /-- A declaration whose type is neither given nor to be had from a value. -/
  | missingType (titles : List String)
  deriving DecidableEq, Repr

/-- The wording of a refusal. -/
def Refusal.message : Refusal → String
  | .unsupportedType kind => "Unexpected type: " ++ kind
  | .strayMember => "Unexpected member of a record"
  | .objectArguments count => "Object cannot accept type application length: " ++ toString count
  | .unsupportedStatement kind => "Unexpected statement: " ++ kind
  | .unsupportedExpression kind => "Unexpected expression: " ++ kind
  | .unsupportedKey kind => "Unexpected enum key: " ++ kind
  | .missingType titles =>
    "Unsupported type annotations: " ++ String.intercalate ", " (titles.map ("@" ++ ·))

@[simp] theorem ok_bind {ε α β : Type} (a : α) (f : α → Except ε β) :
    (Except.ok a >>= f) = f a := rfl

@[simp] theorem error_bind {ε α β : Type} (e : ε) (f : α → Except ε β) :
    ((Except.error e : Except ε α) >>= f) = .error e := rfl

/-- A result made in two steps is there if both steps give one. -/
theorem bind_eq_ok {ε α β : Type} {x : Except ε α} {f : α → Except ε β} {b : β} :
    x >>= f = .ok b ↔ ∃ a, x = .ok a ∧ f a = .ok b := by
  cases x with
  | error e => simp [bind, Except.bind]
  | ok a => simp [bind, Except.bind]

/-- A result made in two steps is missing if one of them gives none. -/
theorem bind_eq_error {ε α β : Type} {x : Except ε α} {f : α → Except ε β} {e : ε} :
    x >>= f = .error e ↔ x = .error e ∨ ∃ a, x = .ok a ∧ f a = .error e := by
  cases x with
  | error e' => simp [bind, Except.bind]
  | ok a => simp [bind, Except.bind]

end Ambient
