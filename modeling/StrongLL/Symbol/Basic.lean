import StrongLL.Text.Basic
import StrongLL.Text.Blank
import StrongLL.Text.Letter

/-!
# Symbols

A terminal is the empty word, spelled `eps`, or one character. A nonterminal is a name that begins
with an uppercase letter and holds no blank, which every nonterminal brings along. The kinds are told
apart by the first letter of a spelling. A terminal may hold any character, so that input can be
compared with it; which spellings are terminals of a grammar is decided where they are read.
-/

namespace StrongLL

set_option autoImplicit false

/-- The empty word or one character of a text. -/
inductive Terminal where
  | epsilon
  | char (c : Char)
deriving DecidableEq, Inhabited

/-- The text begins with an uppercase letter and holds no blank. -/
def NonTerminal.isName (spelling : Text) : Bool :=
  spelling.head?.any isUppercase && !spelling.any isBlank

/-- A name that rules define. That a literal is a name is computed. -/
@[ext]
structure NonTerminal where
  named ::
  name : String
  valid : NonTerminal.isName name.toList = true := by exact Eq.refl true
deriving DecidableEq

/-- What stands on the right side of a rule. -/
inductive Symbol where
  | terminal (t : Terminal)
  | nonterminal (n : NonTerminal)
deriving DecidableEq, Inhabited

/-- Why a spelling names no symbol of the kind that was asked for. -/
inductive NameError where
  | notNonTerminal (spelling : Text)
  | notTerminal (spelling : Text)
deriving DecidableEq

def NameError.message : NameError → String
  | .notNonTerminal spelling =>
    s!"'{spelling.string}' is not a nonterminal, nonterminals start with an uppercase letter"
  | .notTerminal spelling =>
    s!"'{spelling.string}' is not a terminal, terminals are a lowercase letter, " ++
      "a non-alphabetic character or eps"

/-- A text as it is displayed: in square brackets when it is longer than one character, so that it
cannot be taken for several symbols. -/
def bracketed (text : Text) : Text :=
  if text.length > 1 then '[' :: (text ++ [']']) else text

namespace Terminal

/-- The spelling of the empty word. -/
def epsilonText : Text := ['e', 'p', 's']

def text : Terminal → Text
  | epsilon => epsilonText
  | char c => [c]

def display (t : Terminal) : Text := bracketed t.text

def isEpsilon : Terminal → Bool
  | epsilon => true
  | char _ => false

/-- The terminal stands for this character of the input; the empty word stands for none. -/
def accepts : Terminal → Char → Bool
  | epsilon, _ => false
  | char c, found => c == found

/-- The character may be a terminal of a grammar: it is lowercase or no letter at all. -/
def isSpelling (c : Char) : Bool := isLowercase c || !isAlphabetic c

/-- Reads the spelling of a terminal. -/
def read (spelling : Text) : Except NameError Terminal :=
  if spelling = epsilonText then .ok epsilon
  else
    match spelling with
    | [c] => if isSpelling c then .ok (char c) else .error (.notTerminal spelling)
    | _ => .error (.notTerminal spelling)

end Terminal

namespace NonTerminal

def text (n : NonTerminal) : Text := n.name.toList

theorem isName_text (n : NonTerminal) : isName n.text = true := n.valid

def display (n : NonTerminal) : Text := bracketed n.text

/-- The nonterminal with a given spelling. -/
def ofText (spelling : Text) (valid : isName spelling = true) : NonTerminal :=
  ⟨spelling.string, String.toList_ofList.symm ▸ valid⟩

@[simp] theorem text_ofText (spelling : Text) (valid : isName spelling = true) :
    (ofText spelling valid).text = spelling := String.toList_ofList

/-- Reads the spelling of a nonterminal. -/
def read (spelling : Text) : Except NameError NonTerminal :=
  if valid : isName spelling = true then .ok (ofText spelling valid)
  else .error (.notNonTerminal spelling)

end NonTerminal

namespace Symbol

def text : Symbol → Text
  | terminal t => t.text
  | nonterminal n => n.text

def display (s : Symbol) : Text := bracketed s.text

def displayAll (symbols : List Symbol) : Text := symbols.flatMap display

def terminal? : Symbol → Option Terminal
  | terminal t => some t
  | nonterminal _ => none

def nonterminal? : Symbol → Option NonTerminal
  | terminal _ => none
  | nonterminal n => some n

def isEpsilon : Symbol → Bool
  | terminal t => t.isEpsilon
  | nonterminal _ => false

def isNonTerminal : Symbol → Bool
  | terminal _ => false
  | nonterminal _ => true

/-- Reads a spelling as the kind of symbol that its first letter asks for. -/
def read (spelling : Text) : Except NameError Symbol :=
  if spelling.head?.any isUppercase then (NonTerminal.read spelling).map nonterminal
  else (Terminal.read spelling).map terminal

end Symbol

end StrongLL
