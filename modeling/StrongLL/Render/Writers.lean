import StrongLL.Render.Format
import StrongLL.Text.Json
import StrongLL.Text.Latex.Escape

/-!
# The writers of the program
-/

namespace StrongLL

set_option autoImplicit false

/-- The writers that are used where the program runs. -/
def Writers.standard : Writers where
  latex := Latex.escape
  json := Json.compact

end StrongLL
