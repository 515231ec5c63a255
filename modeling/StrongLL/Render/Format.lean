import StrongLL.Json
import StrongLL.Text.Latex
import StrongLL.Text.Padding

/-!
# Formats

What can be shown is shown in three ways: as plain text, for LaTeX and as JSON. A view of a thing
holds the texts that appear in it, and has one rendering for each format. The escape of texts in LaTeX
and the writer of JSON values are parameters.
-/

namespace StrongLL

set_option autoImplicit false

inductive Format where
  | plain
  | latex
  | json
deriving DecidableEq

/-- The renderings of what is shown. The one for LaTeX takes the function that escapes texts. -/
class View (Shown : Type) where
  plain : Shown → Text
  latex : (Text → Text) → Shown → Text
  json : Shown → Json

/-- How texts are escaped for LaTeX, and how JSON values are written. -/
structure Writers where
  latex : Text → Text
  json : Json → Text

def Format.render {Shown : Type} [View Shown] (writers : Writers) (format : Format) (shown : Shown) :
    Text :=
  match format with
  | plain => View.plain shown
  | latex => View.latex writers.latex shown
  | json => writers.json (View.json shown)

def Text.join (separator : String) (texts : List Text) : Text :=
  separator.toList.intercalate texts

end StrongLL
