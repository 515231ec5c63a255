import StrongLL.Render.Format
import StrongLL.Table.Basic

/-!
# Parse tables

A table is shown with a row for each nonterminal and a column for each tuple that occurs in a row. A
cell shows the rule that it selects, and is empty where there is none.
-/

namespace StrongLL

set_option autoImplicit false

/-- A row: a nonterminal and its cells. -/
structure TableRowView where
  left : Text
  cells : List Text
deriving DecidableEq

/-- A table: the heads of its columns and its rows. -/
structure TableView where
  k : Nat
  lookaheads : List Text
  rows : List TableRowView
deriving DecidableEq

namespace TableView

def grid (view : TableView) : List (List Text) :=
  ([] :: view.lookaheads) :: view.rows.map fun row => row.left :: row.cells

/-- The byte width of each column of a grid. -/
def columnWidths (columns : Nat) (grid : List (List Text)) : List Nat :=
  grid.foldl (fun widths line => List.zipWith max widths (line.map Text.utf8Width))
    (List.replicate columns 0)

def latexHead (escape : Text → Text) (view : TableView) : Text :=
  let columns := (view.lookaheads.map fun _ => "|l".toList).flatten
  Text.join " & "
    (("\\[\\begin\x7barray\x7d\x7bc".toList ++ columns ++ "\x7d\n".toList) ::
      view.lookaheads.map fun tuple =>
        "\\text\x7b".toList ++ escape tuple ++ "\x7d".toList)

/-- A cell of an array: an arrow that is left in the escaped text becomes a command. -/
def latexCell (escape : Text → Text) (cell : Text) : Text :=
  Text.replaceAll "->".toList "\\rightarrow ".toList (escape cell)

def latexRow (escape : Text → Text) (row : TableRowView) : Text :=
  Text.join " & " (escape row.left :: row.cells.map (latexCell escape))

end TableView

instance : View TableView where
  plain view :=
    let grid := view.grid
    let widths := TableView.columnWidths (view.lookaheads.length + 1) grid
    Text.join "\n" (grid.map fun line =>
      Text.join " | " (List.zipWith Text.alignRight widths line))
  latex escape view :=
    view.latexHead escape ++ "\\\\\\hline\n".toList ++
      Text.join "\\\\\n" (view.rows.map (TableView.latexRow escape)) ++
      "\n\\end\x7barray\x7d\\]".toList
  json view :=
    .object
      [("k", .number view.k), ("lookaheads", .strings view.lookaheads),
        ("rows", .array (view.rows.map fun row =>
          .object [("left", .string row.left), ("cells", .strings row.cells)]))]

namespace Table

/-- The tuples that occur in rows. -/
def lookaheads (table : Table) : TupleSet := .ofList (table.rows.values.flatMap (·.keys))

def view (table : Table) : TableView :=
  let lookaheads := table.lookaheads.toList
  { k := table.k
    lookaheads := lookaheads.map Tuple.display
    rows := table.rows.toList.map fun (n, row) =>
      ⟨n.display, lookaheads.map fun tuple =>
        (((row.get? tuple).bind table.order.rule?).map Rule.display).getD []⟩ }

end Table

end StrongLL
