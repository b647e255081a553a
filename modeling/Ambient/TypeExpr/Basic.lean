/-!
# Type expressions

The types written in documentation tags, as trees. What may be left out of an expression (the
result of a function, the type after a bare `...`, the value of a record key, the type of a tag
that has none) is `TypeExpr.absent`, so every place of a tree holds a tree.

* `TypeExpr`, `Side`;
* `TypeExpr.isOptional`, `TypeExpr.isVariadic`.
-/

namespace Ambient

/-- Where the mark of a wrapped type is written. -/
inductive Side
  | before
  | after
  deriving DecidableEq, Repr

/-- A type expression. -/
inductive TypeExpr
  /-- Nothing is written here. -/
  | absent
  /-- A dotted name. -/
  | name (name : String)
  /-- `*`, any value. -/
  | all
  /-- A lone `?`, a value of unknown type. -/
  | unknown
  | void
  | null
  | undefined
  /-- `T=` -/
  | optional (inner : TypeExpr)
  /-- `?T` or `T?` -/
  | nullable (side : Side) (inner : TypeExpr)
  /-- `!T` or `T!` -/
  | nonNullable (side : Side) (inner : TypeExpr)
  /-- `A|B` -/
  | union (members : List TypeExpr)
  /-- `...T` -/
  | variadic (inner : TypeExpr)
  /-- `[A, B]` -/
  | tuple (items : List TypeExpr)
  /-- `Base.<A, B>` -/
  | application (base : TypeExpr) (arguments : List TypeExpr)
  /-- `function(this:T, new:N, A, B): R`; the two labelled types are not among the parameters. -/
  | function (params : List TypeExpr) (result thisType newType : TypeExpr)
  /-- `key: T`, a member of a record. -/
  | field (key : String) (value : TypeExpr)
  /-- `{a: T, b}` -/
  | record (fields : List TypeExpr)
  deriving Inhabited

namespace TypeExpr

/-- An optional type, without looking inside. -/
def isOptional : TypeExpr → Bool
  | .optional _ => true
  | _ => false

/-- A variadic type, without looking inside. -/
def isVariadic : TypeExpr → Bool
  | .variadic _ => true
  | _ => false

/-- The type made optional, unless it is so already. -/
def toOptional : TypeExpr → TypeExpr
  | .optional inner => .optional inner
  | t => .optional t

end TypeExpr

end Ambient
