import StrongLL.Grammar.Basic

/-!
# Reading a grammar

A grammar is written with one left side a line, `A -> BcD | eps`; a line that begins with `|` goes
on with the left side before it. Blanks do not count, and lines without anything else are passed
over. Left sides are read through to the last line before any right side is. Every alternative is
`eps` or one symbol a character, and the first left side is the start symbol.
-/

namespace StrongLL

set_option autoImplicit false

/-- What is wrong with a line. -/
inductive LineFault where
  | missingArrow
  | tooManyArrows
  | emptyLeftSide
  | noPreviousLeftSide
  | emptyAlternative
  | name (cause : NameError)
  | rule (cause : RuleError)
deriving DecidableEq

/-- Why a text is no grammar. Lines are numbered from one. -/
inductive ReadError where
  | atLine (number : Nat) (fault : LineFault)
  | noProductions
deriving DecidableEq

def LineFault.message : LineFault → String
  | .missingArrow => "missing \"->\""
  | .tooManyArrows => "too many \"->\""
  | .emptyLeftSide => "empty left side"
  | .noPreviousLeftSide => "cannot find left side"
  | .emptyAlternative => "empty alternative"
  | .name cause => cause.message
  | .rule cause => cause.message

def ReadError.message : ReadError → String
  | .atLine number fault => s!"Line {number}: {fault.message}"
  | .noProductions => "the grammar has no productions"

/-- A line whose left side is known and whose right side is not read yet. -/
structure Production where
  line : Nat
  left : NonTerminal
  right : Text
deriving DecidableEq

namespace Grammar

/-- What separates the sides of a line. -/
def arrow : Text := ['-', '>']

/-- The left side of a line without blanks and the text of its right side. A line without an arrow
goes on with the `previous` left side. -/
def readLeft (previous : Option NonTerminal) (line : Text) :
    Except LineFault (NonTerminal × Text) :=
  match Text.cutAt? arrow line with
  | some (before, after) =>
    if Text.holds arrow after then .error .tooManyArrows
    else if before = [] then .error .emptyLeftSide
    else
      match NonTerminal.read before with
      | .ok left => .ok (left, after)
      | .error cause => .error (.name cause)
  | none =>
    match line with
    | '|' :: right =>
      match previous with
      | some left => .ok (left, right)
      | none => .error .noPreviousLeftSide
    | _ => .error .missingArrow

/-- The productions of the lines from the one with the given number on. -/
def readLines (number : Nat) (previous : Option NonTerminal) :
    List Text → Except ReadError (List Production)
  | [] => .ok []
  | line :: rest =>
    let line := line.filter (!isBlank ·)
    if line = [] then readLines (number + 1) previous rest
    else
      match readLeft previous line with
      | .error fault => .error (.atLine number fault)
      | .ok (left, right) =>
        (readLines (number + 1) (some left) rest).map (⟨number, left, right⟩ :: ·)

/-- The rule of one alternative. -/
def readAlternative (left : NonTerminal) (alternative : Text) : Except LineFault Rule :=
  if alternative = [] then .error .emptyAlternative
  else if alternative = Terminal.epsilonText then .ok (.epsilon left)
  else
    match alternative.mapM fun c => Symbol.read [c] with
    | .error cause => .error (.name cause)
    | .ok right => (Rule.make left right).mapError .rule

/-- The rules of a production, one for each alternative. -/
def readRules (production : Production) : Except ReadError (List Rule) :=
  ((Text.pieces '|' production.right).mapM (readAlternative production.left)).mapError
    (.atLine production.line)

def read (text : Text) : Except ReadError Grammar := do
  match ← readLines 1 none (Text.pieces '\n' text) with
  | [] => .error .noProductions
  | first :: more =>
    let rules ← (first :: more).mapM readRules
    return ofRules first.left rules.flatten

end Grammar

end StrongLL
