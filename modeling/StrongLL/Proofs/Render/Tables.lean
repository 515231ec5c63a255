import Mathlib
import StrongLL.Proofs.Table.Cells
import StrongLL.Proofs.Text.Latex
import StrongLL.Render.Table
import StrongLL.Text.Latex.Escape

/-!
# What a table shows

A table is shown with a row for each of its nonterminals and a column for each tuple that occurs in one
of them. As an array, its lines are the head and the rows, with the frame of the array around the rows.
A cell is an escaped text, in which nothing is left to be replaced. So the only separators of a line are
those between its cells, and the only row breaks those between the lines. For the same reason no arrow
of a rule becomes a command: its head has been escaped before arrows are looked for.
-/

namespace StrongLL

set_option autoImplicit false

namespace TableView

variable {escape : Text → Text} {view : TableView} {opening closing : Text} {rows : List Text}
  {columns : Nat}

/-- Rows in a frame: each begins on a new line, the first one behind the opening. -/
def framed (opening closing : Text) : List Text → List Text
  | [] => [opening ++ closing]
  | [row] => [opening ++ row ++ closing]
  | row :: next :: more => (opening ++ row) :: framed "\n".toList closing (next :: more)

/-- What stands between the row breaks of the array. -/
def latexLines (escape : Text → Text) (view : TableView) : List Text :=
  view.latexHead escape ::
    framed "\\hline\n".toList "\n\\end\x7barray\x7d\\]".toList (view.rows.map (latexRow escape))

theorem framed_ne_nil (opening closing : Text) (rows : List Text) : framed opening closing rows ≠ [] := by
  unfold framed
  split <;> exact List.cons_ne_nil _ _

theorem intercalate_framed (opening closing : Text) (rows : List Text) :
    "\\\\".toList.intercalate (framed opening closing rows) =
      opening ++ Text.join "\\\\\n" rows ++ closing := by
  fun_induction framed opening closing rows with
  | case1 opening => simp [Text.join]
  | case2 opening row => simp [Text.join]
  | case3 opening row next more induction =>
      rw [List.intercalate_cons_of_ne_nil (framed_ne_nil _ _ _), induction, Text.join, Text.join,
        List.intercalate_cons_cons]
      simp

theorem latex_eq_intercalate (escape : Text → Text) (view : TableView) :
    View.latex escape view = "\\\\".toList.intercalate (view.latexLines escape) := by
  rw [latexLines, List.intercalate_cons_of_ne_nil (framed_ne_nil _ _ _), intercalate_framed]
  simp [View.latex]

/-- The array is a rectangle if its rows are: a row without cells does for a table without rows. -/
theorem rowPart_framed (openingPart : Latex.RowPart 0 opening) (closingPart : Latex.RowPart 0 closing)
    (parts : ∀ row ∈ rows, Latex.RowPart columns row) (empty : rows = [] → columns = 0) :
    ∀ line ∈ framed opening closing rows, Latex.RowPart columns line := by
  fun_induction framed opening closing rows with
  | case1 opening =>
      rw [empty rfl, List.forall_mem_singleton]
      exact openingPart.append closingPart
  | case2 opening row =>
      have whole := (openingPart.append (parts row List.mem_cons_self)).append closingPart
      rw [List.forall_mem_singleton]
      rw [Nat.zero_add] at whole
      exact whole
  | case3 opening row next more induction =>
      obtain ⟨head, tail⟩ := List.forall_mem_cons.1 parts
      have first := openingPart.append head
      rw [Nat.zero_add] at first
      exact List.forall_mem_cons.2 ⟨first, induction (by decide) tail nofun⟩

section Escaped

variable (escapes : Latex.Escapes escape)
include escapes

theorem latexCell_eq_escape (cell : Text) : latexCell escape cell = escape cell := by
  apply Text.replaceAll_eq_self
  intro arrow
  exact escapes.greater_not_mem cell (arrow.subset (by decide))

theorem rowPart_latexHead (view : TableView) :
    Latex.RowPart view.lookaheads.length (view.latexHead escape) := by
  have begins : Latex.RowPart 0 "\\[\\begin\x7barray\x7d".toList := by decide
  have first : Latex.RowPart 0 "c".toList := by decide
  have columns : Latex.RowPart 0 (view.lookaheads.map fun _ => "|l".toList).flatten :=
    Latex.RowPart.flatten fun _ _ => by decide
  have ends : Latex.RowPart 0 "\n".toList := by decide
  have head := (begins.append (first.append columns).group).append ends
  apply Latex.RowPart.join
  · simpa using head
  · intro tuple _
    have command : Latex.RowPart 0 "\\text".toList := by decide
    have shown := command.append (escapes.rowPart tuple).group
    simpa using shown

theorem rowPart_latexRow (row : TableRowView) :
    Latex.RowPart row.cells.length (latexRow escape row) := by
  apply Latex.RowPart.join (escapes.rowPart row.left)
  intro cell _
  rw [latexCell_eq_escape escapes]
  exact escapes.rowPart cell

end Escaped

end TableView

namespace Table

variable {table : Table} {tuple : Tuple} {n : NonTerminal}

theorem get?_of_mem_rows {row : Row} (member : (n, row) ∈ table.rows.toList) (tuple : Tuple) :
    table.get? n tuple = row.get? tuple := by
  rw [Table.get?, SortedMap.get?_eq_some_iff.2 member, Option.bind_some]

/-- The columns are the tuples that have a cell. -/
theorem mem_lookaheads_iff : tuple ∈ table.lookaheads ↔ ∃ n index, table.get? n tuple = some index := by
  rw [lookaheads, SortedSet.mem_ofList, List.mem_flatMap]
  constructor
  · intro ⟨row, inRows, key⟩
    obtain ⟨⟨n, row⟩, entry, rfl⟩ := List.mem_map.1 inRows
    obtain ⟨⟨tuple, index⟩, cell, rfl⟩ := List.mem_map.1 key
    exact ⟨n, index, (get?_of_mem_rows entry tuple).trans (SortedMap.get?_eq_some_iff.2 cell)⟩
  · intro ⟨n, index, found⟩
    obtain ⟨row, entry, cell⟩ := Option.bind_eq_some_iff.1 found
    exact ⟨row, List.mem_map.2 ⟨_, SortedMap.get?_eq_some_iff.1 entry, rfl⟩,
      List.mem_map.2 ⟨_, SortedMap.get?_eq_some_iff.1 cell, rfl⟩⟩

theorem view_rows (table : Table) :
    table.view.rows = table.rows.keys.map fun n =>
      ⟨n.display, table.lookaheads.toList.map fun tuple =>
        (table.ruleFor? n tuple).elim [] Rule.display⟩ := by
  rw [SortedMap.keys, List.map_map]
  apply List.map_congr_left
  rintro ⟨n, row⟩ member
  have cell : ∀ tuple, (((row.get? tuple).bind table.order.rule?).map Rule.display).getD [] =
      (table.ruleFor? n tuple).elim [] Rule.display := by
    intro tuple
    rw [ruleFor?, get?_of_mem_rows member]
    cases (row.get? tuple).bind table.order.rule? with
    | none => rfl
    | some rule => rfl
  exact congrArg (TableRowView.mk n.display) (List.map_congr_left fun tuple _ => cell tuple)

theorem length_lookaheads_view (table : Table) :
    table.view.lookaheads.length = table.lookaheads.size := List.length_map ..

theorem length_cells_view {row : TableRowView} (member : row ∈ table.view.rows) :
    row.cells.length = table.lookaheads.size := by
  rw [view_rows] at member
  obtain ⟨n, _, rfl⟩ := List.mem_map.1 member
  exact List.length_map ..

/-- A table without rows has no columns. -/
theorem size_lookaheads_of_rows_eq_nil (empty : table.view.rows = []) : table.lookaheads.size = 0 := by
  have none : table.rows.toList = [] := List.map_eq_nil_iff.1 empty
  rw [SortedSet.size, List.length_eq_zero_iff, List.eq_nil_iff_forall_not_mem]
  intro tuple member
  obtain ⟨n, index, found⟩ := mem_lookaheads_iff.1 member
  obtain ⟨row, entry, _⟩ := Option.bind_eq_some_iff.1 found
  rw [SortedMap.get?_eq_some_iff, none] at entry
  exact absurd entry List.not_mem_nil

/-- The grid of a table. Rows are its nonterminals, columns are the tuples that have a cell, and a cell
displays its rule. As an array, its lines are what stands between the row breaks: the first one is the
head, and in the others stand the rows. The head, every row and every line have a separator for each
column, however the symbols are spelled, and braces have their partners. -/
theorem latex_keeps_the_grid {escape : Text → Text} (escapes : Latex.Escapes escape) (table : Table) :
    (table.view.lookaheads = table.lookaheads.toList.map Tuple.display ∧
        table.view.rows = table.rows.keys.map fun n =>
          ⟨n.display, table.lookaheads.toList.map fun tuple =>
            (table.ruleFor? n tuple).elim [] Rule.display⟩) ∧
      (table.rows.keys.Nodup ∧ table.lookaheads.toList.Nodup ∧
        ∀ tuple, tuple ∈ table.lookaheads ↔ ∃ n index, table.get? n tuple = some index) ∧
      (∀ (g : Grammar) (k : Nat), g.table k = .ok table →
        (∀ n, n ∈ table.rows.keys ↔ n ∈ g.nonterminals) ∧
          ∀ n tuple index, table.get? n tuple = some index →
            ∃ rule ∈ g.rules, rule.left = n ∧ table.ruleFor? n tuple = some rule) ∧
      View.latex escape table.view = "\\\\".toList.intercalate (table.view.latexLines escape) ∧
      (Latex.marks (View.latex escape table.view)).splitOn .rowBreak =
        (table.view.latexLines escape).map Latex.marks ∧
      (∀ text ∈ table.view.latexLines escape ++ table.view.rows.map (TableView.latexRow escape),
        Latex.RowPart table.lookaheads.size text ∧ ¬"\\\\".toList <:+: text) ∧
      Latex.Balanced (View.latex escape table.view) := by
  have rows : ∀ text ∈ table.view.rows.map (TableView.latexRow escape),
      Latex.RowPart table.lookaheads.size text := by
    intro text member
    obtain ⟨row, inside, rfl⟩ := List.mem_map.1 member
    rw [← length_cells_view inside]
    exact TableView.rowPart_latexRow escapes row
  have lines : ∀ line ∈ table.view.latexLines escape, Latex.RowPart table.lookaheads.size line := by
    rw [TableView.latexLines, List.forall_mem_cons]
    constructor
    · rw [← length_lookaheads_view]
      exact TableView.rowPart_latexHead escapes table.view
    · apply TableView.rowPart_framed (by decide) (by decide) rows
      intro empty
      exact size_lookaheads_of_rows_eq_nil (List.map_eq_nil_iff.1 empty)
  have ended := fun line member => (lines line member).ended
  refine ⟨⟨rfl, view_rows table⟩,
    ⟨table.rows.nodup_keys, table.lookaheads.nodup_toList, fun tuple => mem_lookaheads_iff⟩,
    fun g k built => ⟨fun n => mem_keys_rows_iff built, fun n tuple index cell => ?_⟩,
    TableView.latex_eq_intercalate _ _, ?_, fun text member => ?_, ?_⟩
  · obtain ⟨rule, known, left, _⟩ := (get?_eq_some_iff_applies built).1 cell
    refine ⟨rule, mem_rules_of_rule? built known, left, ?_⟩
    rw [ruleFor?, cell, Option.bind_some, known]
  · rw [TableView.latex_eq_intercalate, Latex.marks_intercalate ended, List.splitOn_intercalate]
    · intro read member
      obtain ⟨line, inside, rfl⟩ := List.mem_map.1 member
      exact (lines line inside).unbroken
    · exact List.cons_ne_nil _ _
  · have part := (List.mem_append.1 member).elim (lines text) (rows text)
    exact ⟨part, mt Latex.rowBreak_mem_marks_iff.2 part.unbroken⟩
  · rw [TableView.latex_eq_intercalate]
    exact Latex.balanced_intercalate ended fun line member => (lines line member).balanced

end Table

/-- The terminals are the separator of columns and the character that breaks rows. -/
def active : Grammar :=
  .ofRules (.named "S")
    [⟨.named "S", [.terminal (.char '&'), .nonterminal (.named "S")], by simp, by simp⟩,
      ⟨.named "S", [.terminal (.char '\\')], by simp, by simp⟩]

def activeTable : Table :=
  ⟨1, .ofGrammar active,
    ⟨[(.named "S", ⟨[([.char '&'], 0), ([.char '\\'], 1)], by decide⟩)], by decide⟩⟩

theorem active_table : active.table 1 = .ok activeTable := by
  cbv

/-- The table has two columns and one row, so its array has two lines with two separators. -/
theorem latex_keeps_the_grid_of_active_characters :
    Latex.Escapes Latex.escape ∧ active.table 1 = .ok activeTable ∧
      (∀ n, n ∈ activeTable.rows.keys ↔ n ∈ active.nonterminals) ∧
      View.latex Latex.escape activeTable.view =
        "\\[\\begin\x7barray\x7d\x7bc|l|l\x7d\n & \\text\x7b\\&\x7d & ".toList ++
          "\\text\x7b\\textbackslash\x7b\x7d\x7d\\\\\\hline\n".toList ++
          "S & S -\\textgreater\x7b\x7d \\&S & ".toList ++
          "S -\\textgreater\x7b\x7d \\textbackslash\x7b\x7d\n\\end\x7barray\x7d\\]".toList ∧
      ((Latex.marks (View.latex Latex.escape activeTable.view)).splitOn .rowBreak).map
        (·.count .separator) = [2, 2] ∧
      Latex.Balanced (View.latex Latex.escape activeTable.view) := by
  obtain ⟨_, _, built, _, lines, _, balanced⟩ :=
    Table.latex_keeps_the_grid Latex.escapes_escape activeTable
  refine ⟨Latex.escapes_escape, active_table, (built active 1 active_table).1, by decide +kernel, ?_,
    balanced⟩
  rw [lines]
  decide +kernel

theorem Rule.escape_display {escape : Text → Text} (escapes : Latex.Escapes escape) (rule : Rule) :
    escape rule.display =
      escape rule.left.display ++ " -\\textgreater\x7b\x7d ".toList ++
        escape (Symbol.displayAll rule.right) := by
  have blank : " -> ".toList ++ Symbol.displayAll rule.right =
      ' ' :: ("-> ".toList ++ Symbol.displayAll rule.right) := rfl
  rw [Rule.display, List.append_assoc, blank, escapes.append_cons _ (by decide), ← blank,
    escapes.arrow, List.append_assoc]

/-- The cell of a rule is its escaped left side, an arrow with an escaped head, and its escaped right
side. No cell holds the command for an arrow. -/
theorem Table.latex_escapes_arrows {escape : Text → Text} (escapes : Latex.Escapes escape)
    (table : Table) :
    (table.view.rows.map (TableView.latexRow escape) = table.rows.keys.map fun n =>
        Text.join " & " (escape n.display :: table.lookaheads.toList.map fun tuple =>
          (table.ruleFor? n tuple).elim [] fun rule =>
            escape rule.left.display ++ " -\\textgreater\x7b\x7d ".toList ++
              escape (Symbol.displayAll rule.right))) ∧
      ∀ cell, ¬"\\rightarrow".toList <:+: TableView.latexCell escape cell := by
  constructor
  · rw [view_rows, List.map_map]
    apply List.map_congr_left
    intro n _
    have cells : ∀ tuple, TableView.latexCell escape ((table.ruleFor? n tuple).elim [] Rule.display) =
        (table.ruleFor? n tuple).elim [] fun rule =>
          escape rule.left.display ++ " -\\textgreater\x7b\x7d ".toList ++
            escape (Symbol.displayAll rule.right) := by
      intro tuple
      rw [TableView.latexCell_eq_escape escapes]
      cases table.ruleFor? n tuple with
      | none => exact escapes.nil
      | some rule => exact rule.escape_display escapes
    rw [Function.comp_apply, TableView.latexRow, List.map_map]
    exact congrArg _ (congrArg _ (List.map_congr_left fun tuple _ => cells tuple))
  · intro cell arrow
    rw [TableView.latexCell_eq_escape escapes] at arrow
    have command : ['\\', 'r'] <:+: escape cell :=
      (show ['\\', 'r'] <:+: "\\rightarrow".toList by decide).trans arrow
    rcases Latex.escaped_or_broken command with taken | broken
    · exact escapes.command_not_mem_marks cell taken
    · exact (escapes.rowPart cell).unbroken broken

/-- Both cells of the row hold the escaped head of an arrow. -/
theorem latex_escapes_arrows_of_active_characters :
    Latex.Escapes Latex.escape ∧
      activeTable.view.rows.map (TableView.latexRow Latex.escape) =
        ["S & S -\\textgreater\x7b\x7d \\&S & ".toList ++
          "S -\\textgreater\x7b\x7d \\textbackslash\x7b\x7d".toList] ∧
      ¬"\\rightarrow".toList <:+: TableView.latexCell Latex.escape "S -> \\".toList := by
  obtain ⟨rows, cells⟩ := Table.latex_escapes_arrows Latex.escapes_escape activeTable
  exact ⟨Latex.escapes_escape, rows.trans (by decide +kernel), cells _⟩

/-- An array with two rules and without the command for an arrow. -/
theorem latex_can_miss_arrows :
    Latex.Escapes Latex.escape ∧ active.table 1 = .ok activeTable ∧
      (activeTable.ruleFor? (.named "S") [.char '\\']).map Rule.display = some "S -> \\".toList ∧
      TableView.latexCell Latex.escape "S -> \\".toList =
        "S -\\textgreater\x7b\x7d \\textbackslash\x7b\x7d".toList ∧
      ¬"\\rightarrow".toList <:+: View.latex Latex.escape activeTable.view :=
  ⟨Latex.escapes_escape, active_table, by decide +kernel, by decide +kernel, by decide +kernel⟩

end StrongLL
