import StrongLL.CommandLine.Arguments
import StrongLL.Grammar.Reader
import StrongLL.Render.Derivation
import StrongLL.Render.LookaheadSets
import StrongLL.Render.Table

/-!
# Running a request

A request reads one grammar and prints its outputs in turn, with given writers. The first failure ends
the run; what was printed before it stays printed.
-/

namespace StrongLL.CommandLine

set_option autoImplicit false

/-- Why the text of a grammar cannot be had. -/
inductive SourceError where
  | missing
  | isDirectory
  | notText
  | other (wording : String)
deriving DecidableEq

def SourceError.message : SourceError → String
  | missing => "No such file or directory (os error 2)"
  | isDirectory => "Is a directory (os error 21)"
  | notText => "stream did not contain valid UTF-8"
  | other wording => wording

inductive RunError where
  | source (cause : SourceError)
  | grammar (cause : ReadError)
  | table (cause : TableError)
  | rejected (cause : ParseError)
  | replay (cause : ReplayError)
  | missingInput
deriving DecidableEq

def RunError.message : RunError → String
  | source cause => s!"cannot read grammar: {cause.message}"
  | grammar cause => cause.message
  | table cause => cause.message
  | rejected cause => s!"input rejected: {cause.message}"
  | replay cause => cause.message
  | missingInput => "the parse output needs --input"

/-- What a process leaves behind. -/
structure Answer where
  exitCode : Nat
  printed : Text
  complaint : Text
deriving DecidableEq

def version : String := "llk-course-helper 0.1.0"

def outputText (writers : Writers) (g : Grammar) (settings : Settings) (output : Output) :
    Except RunError Text :=
  let k := settings.k.getD 1
  match output with
  | .productions => .ok (settings.format.render writers g.productionsView)
  | .epsilonFree => .ok (settings.format.render writers g.epsilonFree.productionsView)
  | .lookahead => .ok (settings.format.render writers (g.lookaheadSetsView k))
  | .table =>
    ((g.table k).mapError .table).map fun table => settings.format.render writers table.view
  | .derivation => do
    let input ← settings.input.elim (.error .missingInput) .ok
    let strategy := settings.strategy.getD .table
    let recognizer ← (strategy.build g settings.config).mapError .table
    let derivation ← (recognizer.parse input).mapError .rejected
    let view ← (derivation.view g.start).mapError .replay
    return settings.format.render writers view

/-- A text on a line of its own. -/
def line (text : Text) : Text := text ++ ['\n']

/-- Prints outputs until one fails. -/
def printOutputs (writers : Writers) (g : Grammar) (settings : Settings) : List Output → Answer
  | [] => ⟨0, [], []⟩
  | output :: rest =>
    match outputText writers g settings output with
    | .error cause => ⟨1, [], line cause.message.toList⟩
    | .ok text =>
      let answer := printOutputs writers g settings rest
      { answer with printed := line text ++ answer.printed }

/-- Runs settings on the text of a grammar. -/
def run (writers : Writers) (settings : Settings) (source : Except SourceError Text) : Answer :=
  match source.mapError RunError.source with
  | .error cause => ⟨1, [], line cause.message.toList⟩
  | .ok text =>
    match (Grammar.read text).mapError RunError.grammar with
    | .error cause => ⟨1, [], line cause.message.toList⟩
    | .ok g => printOutputs writers g settings settings.outputs

end StrongLL.CommandLine
