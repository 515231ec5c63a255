import StrongLL.Text.Basic

/-!
# Text in LaTeX

Texts are escaped before they stand in LaTeX. The function that does this is a parameter wherever LaTeX
is written; what is known about it is the table of its escapes. Active characters become commands, or
are taken by a backslash or put in a group. A dash that another dash follows gets an empty group behind
it, so that no two dashes of the result touch and form a ligature.
-/

namespace StrongLL.Latex

set_option autoImplicit false

/-- The active characters with their forms. -/
def activeForms : List (Char × Text) :=
  [('&', "\\&".toList), ('%', "\\%".toList), ('$', "\\$".toList), ('#', "\\#".toList),
    ('_', "\\_".toList), ('\x7b', "\\\x7b".toList), ('\x7d', "\\\x7d".toList),
    ('[', "\x7b[\x7d".toList), (']', "\x7b]\x7d".toList), ('~', "\\textasciitilde\x7b\x7d".toList),
    ('^', "\\textasciicircum\x7b\x7d".toList), ('<', "\\textless\x7b\x7d".toList),
    ('>', "\\textgreater\x7b\x7d".toList), ('\\', "\\textbackslash\x7b\x7d".toList)]

/-- The function escapes texts by the table: character by character, dashes aside, and each active
character as its form. A blank stands for itself alone. Any other character stands for itself too;
whether it gets an empty group behind it, as some do that form ligatures, is left open. -/
structure Escapes (escape : Text → Text) : Prop where
  nil : escape [] = []
  cons : ∀ {c : Char} (text : Text), c ≠ '-' → escape (c :: text) = escape [c] ++ escape text
  dash : ∀ text : Text, text.head? ≠ some '-' → escape ('-' :: text) = '-' :: escape text
  dashes : ∀ text : Text,
    escape ('-' :: '-' :: text) = "-\x7b\x7d".toList ++ escape ('-' :: text)
  active : ∀ {c : Char} {form : Text}, (c, form) ∈ activeForms → escape [c] = form
  blank : escape [' '] = [' ']
  other : ∀ {c : Char}, c ∉ activeForms.map Prod.fst →
    escape [c] = [c] ∨ escape [c] = c :: "\x7b\x7d".toList

/-- The LaTeX form of a text in which the displayed empty word is typeset as a Greek letter. -/
def escapeWithEpsilon (escape : Text → Text) (text : Text) : Text :=
  Text.replaceAll (escape "[eps]".toList) "\\epsilon ".toList (escape text)

end StrongLL.Latex
