import StrongLL.Recognizer.BottomUp
import StrongLL.Recognizer.TableMachine
import StrongLL.Recognizer.TopDown

/-!
# Recognizers

A recognizer answers an input with a derivation of it or with a reason why there is none. There are
three strategies: the table machine and the two searches. Only the first needs a table, and only the
searches heed a step limit.
-/

namespace StrongLL

set_option autoImplicit false

inductive Strategy where
  | table
  | topDown
  | bottomUp
deriving DecidableEq

namespace Strategy

def name : Strategy → String
  | table => "table"
  | topDown => "top-down"
  | bottomUp => "bottom-up"

def all : List Strategy := [table, topDown, bottomUp]

def ofName? (name : String) : Option Strategy := all.find? (·.name == name)

/-- The wording when no strategy has the name. -/
def unknownMessage (name : String) : String :=
  s!"unknown strategy '{name}', expected table, top-down or bottom-up"

end Strategy

/-- What the strategies may need: a lookahead length for the table and a limit for the searches. -/
structure RecognizerConfig where
  k : Nat := 1
  stepLimit : Option Nat := none
deriving DecidableEq

/-- A strategy that is ready to run on inputs. -/
inductive Recognizer where
  | table (start : NonTerminal) (cells : Table)
  | topDown (search : TopDown)
  | bottomUp (search : BottomUp)
deriving DecidableEq

namespace Recognizer

def strategy : Recognizer → Strategy
  | table _ _ => .table
  | topDown _ => .topDown
  | bottomUp _ => .bottomUp

/-- The derivation of an input, or why there is none. -/
def parse : Recognizer → Text → Except ParseError Derivation
  | table start cells, input => cells.parseDerivation start input
  | topDown search, input => search.parse input
  | bottomUp search, input => search.parse input

def verify (recognizer : Recognizer) (input : Text) : Bool :=
  match recognizer.parse input with
  | .ok _ => true
  | .error _ => false

end Recognizer

def Strategy.build (strategy : Strategy) (g : Grammar) (config : RecognizerConfig) :
    Except TableError Recognizer :=
  match strategy with
  | .table => (g.table config.k).map (.table g.start)
  | .topDown => .ok (.topDown (.ofGrammar g config.stepLimit))
  | .bottomUp => .ok (.bottomUp (.ofGrammar g config.stepLimit))

end StrongLL
