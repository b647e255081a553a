import Ambient.Text.Lines

/-!
# Which names are declared

* `Filter`: the root namespaces whose names are declared, and the names left out of them;
* `Filter.standard`.
-/

namespace Ambient.Name

/-- Which names are declared. -/
structure Filter where
  roots : List String
  ignored : List String
  deriving DecidableEq, Repr

namespace Filter

/-- The filter that holds unless another one is given. -/
def standard : Filter where
  roots := ["goog", "proto2", "osapi", "svgpan"]
  ignored :=
    ["goog.debug.LogManager", "goog.net.BrowserChannel.LogSaver",
      "goog.net.cookies.MAX_COOKIE_LENGTH", "goog.ui.AbstractSpellChecker.prototype.getHandler"]

/-- Whether a name is below one of the roots. -/
def allows (f : Filter) (path : List String) : Bool := path.head?.any f.roots.contains

/-- Whether a name is left out. -/
def ignores (f : Filter) (path : List String) : Bool := f.ignored.contains (Text.dotted path)

end Filter

end Ambient.Name
