import StrongLL.Grammar.Basic
import StrongLL.Render.Format

/-!
# Productions

A grammar is shown nonterminal by nonterminal, the start symbol first and the others in order, each
with its right sides. Nonterminals without rules are left out.
-/

namespace StrongLL

set_option autoImplicit false

/-- A left side with the right sides that may replace it. -/
structure ProductionView where
  left : Text
  rights : List Text
deriving DecidableEq

namespace ProductionView

/-- Plain text. The first right side stands behind an arrow and every other one behind a bar, on a
line of its own where `multiline` is set. The left side ends at the given column. -/
def plain (view : ProductionView) (width : Nat) (multiline : Bool) : Text :=
  match view.rights with
  | [] => []
  | first :: more =>
    let head := Text.alignRight width view.left ++ " -> ".toList ++ first
    if multiline then
      Text.join "\n" (head :: more.map (Text.alignRight width [] ++ "  | ".toList ++ ·))
    else Text.join "" (head :: more.map (" | ".toList ++ ·))

/-- LaTeX. In an array the arrow has a column of its own. -/
def latex (escape : Text → Text) (view : ProductionView) (inArray : Bool) : Text :=
  if view.rights.isEmpty then []
  else
    let arrow := if inArray then " & \\rightarrow &" else " \\rightarrow "
    Latex.escapeWithEpsilon escape view.left ++ arrow.toList ++
      Text.join " \\mid " (view.rights.map (Latex.escapeWithEpsilon escape))

def json (view : ProductionView) : Json :=
  .object [("left", .string view.left), ("rights", .strings view.rights)]

end ProductionView

structure ProductionsView where
  productions : List ProductionView
deriving DecidableEq

instance : View ProductionsView where
  plain view :=
    let width := Text.columnWidth (view.productions.map (·.left))
    Text.join "\n" (view.productions.map (·.plain width true))
  latex escape view :=
    Text.join "\\\\\n"
      ("\\[\\begin\x7barray\x7d\x7bcll\x7d".toList :: view.productions.map (·.latex escape true) ++
        ["\\end\x7barray\x7d\\]".toList])
  json view := .object [("productions", .array (view.productions.map (·.json)))]

namespace Grammar

/-- The nonterminals, the start symbol first. -/
def displayOrder (g : Grammar) : List NonTerminal :=
  g.start :: g.nonterminals.toList.filter (· != g.start)

def productionsView (g : Grammar) : ProductionsView where
  productions :=
    (g.displayOrder.map fun n =>
      ⟨n.display, (g.rulesOf n).map fun rule => Symbol.displayAll rule.right⟩).filter
        fun view => !view.rights.isEmpty

end Grammar

end StrongLL
