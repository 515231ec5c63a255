import StrongLL.Grammar.Nullable

/-!
# Removing empty rules

Each rule is replaced by its variants, in which every nullable occurrence on the right side is kept
or dropped; a variant without symbols is left out, and so is the empty rule itself. A rule with `m`
nullable occurrences has up to `2 ^ m` variants. The result derives the same words but the empty
one.
-/

namespace StrongLL

set_option autoImplicit false

/-- The sequences that keep or drop each droppable symbol and keep every other one. -/
def variants (droppable : Symbol → Bool) : List Symbol → List (List Symbol)
  | [] => [[]]
  | s :: rest =>
    let tails := variants droppable rest
    let kept := tails.map (s :: ·)
    if droppable s then kept ++ tails else kept

namespace Rule

/-- The rules that a rule leaves when symbols may be dropped. -/
def variants (droppable : Symbol → Bool) (rule : Rule) : List Rule :=
  if rule.isEpsilon then []
  else (StrongLL.variants droppable rule.right).filterMap fun right =>
    (make rule.left right).toOption

end Rule

namespace Grammar

/-- The grammar without empty rules. Its vocabulary is what the remaining rules mention. -/
def epsilonFree (g : Grammar) : Grammar :=
  let witnesses := g.witnesses
  ofRules g.start
    (g.rules.toList.flatMap (Rule.variants fun s => s.nonterminal?.any witnesses.proves))

end Grammar

end StrongLL
