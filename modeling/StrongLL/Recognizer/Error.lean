import StrongLL.Lookahead.Tuple

/-!
# Rejections

Why a recognizer does not accept an input. The table machine rejects at a position, counted in
characters from zero; a search has no position to blame.
-/

namespace StrongLL

set_option autoImplicit false

/-- Why an input has no derivation, or why none was found. -/
inductive ParseError where
  | unexpectedEnd (position : Nat) (expected : Terminal)
  | mismatch (position : Nat) (expected : Terminal) (found : Char)
  | unrecognizedLookahead (position : Nat) (nonterminal : NonTerminal) (lookahead : Tuple)
  | trailingInput (position : Nat)
  | noDerivation
  | stepLimitExceeded (limit : Nat)
deriving DecidableEq

def ParseError.message : ParseError → String
  | .unexpectedEnd position expected =>
    s!"position {position}: unexpected end of input, expected {expected.display.string}"
  | .mismatch position expected found =>
    s!"position {position}: expected {expected.display.string}, found '{found}'"
  | .unrecognizedLookahead position nonterminal lookahead =>
    s!"position {position}: no rule of {nonterminal.display.string} " ++
      s!"for lookahead {(Tuple.display lookahead).string}"
  | .trailingInput position => s!"position {position}: trailing input"
  | .noDerivation => "no derivation of the input exists"
  | .stepLimitExceeded limit => s!"search stopped after {limit} steps"

end StrongLL
