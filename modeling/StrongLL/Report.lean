import StrongLL.Grammar.Reader
import StrongLL.Recognizer.Basic
import StrongLL.Render.Derivation
import StrongLL.Render.LookaheadSets
import StrongLL.Render.Table

/-!
# Reports

Three questions about a grammar that is given as text, answered by JSON values: its lookahead sets,
its table, and whether it derives an input. What goes wrong on the way is reported as an object with
the wording of the cause.
-/

namespace StrongLL.Report

set_option autoImplicit false

/-- How many states a search may visit for a report. -/
def stepLimit : Nat := 1000000

def failure (message : String) : Json := .object [("error", .string message.toList)]

/-- The report of an answer or of the wording of a failure. -/
def ofAnswer {Shown : Type} [View Shown] : Except String Shown → Json
  | .ok shown => View.json shown
  | .error message => failure message

def lookaheadSets (grammar : Text) (k : Nat) : Json :=
  ofAnswer (do
    let g ← (Grammar.read grammar).mapError ReadError.message
    return g.lookaheadSetsView k)

def table (grammar : Text) (k : Nat) : Json :=
  ofAnswer (do
    let g ← (Grammar.read grammar).mapError ReadError.message
    let table ← (g.table k).mapError TableError.message
    return table.view)

/-- The derivation of an input. The grammar is read before the name of the strategy. -/
def verify (grammar : Text) (k : Nat) (strategy : String) (input : Text) : Json :=
  ofAnswer (do
    let g ← (Grammar.read grammar).mapError ReadError.message
    let strategy ← (Strategy.ofName? strategy).elim (.error (Strategy.unknownMessage strategy)) .ok
    let recognizer ← (strategy.build g ⟨k, some stepLimit⟩).mapError TableError.message
    let derivation ← (recognizer.parse input).mapError ParseError.message
    (derivation.view g.start).mapError ReplayError.message)

end StrongLL.Report
