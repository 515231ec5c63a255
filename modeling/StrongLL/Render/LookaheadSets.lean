import StrongLL.Grammar.Nullable
import StrongLL.Lookahead.Follow
import StrongLL.Render.Productions

/-!
# Lookahead sets

The nonterminals of a grammar are shown with what is known about them: whether they are nullable,
and their FIRST and FOLLOW sets. A set that is not known is marked, which is not the same as an
empty set.
-/

namespace StrongLL

set_option autoImplicit false

/-- What is known about a nonterminal. -/
structure LookaheadView where
  name : Text
  nullable : Bool
  first : Option (List Text)
  follow : Option (List Text)
deriving DecidableEq

namespace LookaheadView

def plain (view : LookaheadView) : Text :=
  let set (tuples : Option (List Text)) : Text :=
    match tuples with
    | some tuples => Text.join ", " tuples
    | none => "-".toList
  Text.join " | " [view.name, Text.ofBool view.nullable, set view.first, set view.follow]

def latex (escape : Text → Text) (view : LookaheadView) : Text :=
  let set (tuples : Option (List Text)) : Text :=
    match tuples with
    | some tuples => Text.join ",\\ " (tuples.map (Latex.escapeWithEpsilon escape))
    | none => "$\\emptyset$".toList
  Text.join " & "
    [Latex.escapeWithEpsilon escape view.name, Text.ofBool view.nullable, set view.first,
      set view.follow]

def json (view : LookaheadView) : Json :=
  .object
    [("name", .string view.name), ("nullable", .boolean view.nullable),
      ("first", .optional .strings view.first), ("follow", .optional .strings view.follow)]

end LookaheadView

/-- What is known about the nonterminals, for tuples of at most `k` terminals. -/
structure LookaheadSetsView where
  k : Nat
  data : List LookaheadView
deriving DecidableEq

instance : View LookaheadSetsView where
  plain view := Text.join "\n" (view.data.map (·.plain))
  latex escape view :=
    let k := Text.ofNat view.k
    "\\begin\x7btabular\x7d\x7bc|c|c|c\x7d\nSymbol & Nullable & First$_".toList ++ k ++
      "$ & Follow$_".toList ++ k ++ "$\\\\\\hline\n".toList ++
      Text.join "\\\\\n " (view.data.map (·.latex escape)) ++ "\\\\\n\\end\x7btabular\x7d".toList
  json view :=
    .object [("k", .number view.k), ("data", .array (view.data.map (·.json)))]

namespace Grammar

/-- What is known about the nonterminals, in the order in which they are shown. -/
def lookaheadSetsView (g : Grammar) (k : Nat) : LookaheadSetsView :=
  let first := g.first k
  let follow := g.followFrom first k
  let witnesses := g.witnesses
  let texts (known : KnownSets) (n : NonTerminal) : Option (List Text) :=
    (known.get? n).map fun set => set.toList.map Tuple.display
  { k
    data := g.displayOrder.map fun n =>
      ⟨n.display, witnesses.proves n, texts first n, texts follow n⟩ }

end Grammar

end StrongLL
