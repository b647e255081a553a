/-!
# The order of texts

Texts are ordered by the code points of their characters, the first difference deciding.

* `sorted`, and `sortedBy` for what has a text as its key. Equal keys keep their order.
-/

namespace Ambient.Text

/-- Whether a text does not come after another one. -/
def notAfter (a b : String) : Bool := !decide (b < a)

/-- Texts in order. -/
def sorted (texts : List String) : List String := texts.mergeSort notAfter

/-- A list in the order of its keys. -/
def sortedBy {α : Type} (key : α → String) (items : List α) : List α :=
  items.mergeSort fun a b => notAfter (key a) (key b)

end Ambient.Text
