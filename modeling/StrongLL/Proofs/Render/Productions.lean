import StrongLL.Proofs.Render.Displays
import StrongLL.Render.Productions

/-!
# Printed productions are read back

Without its blanks, a printed production is a line with an arrow and, for every further right side,
a line with a bar. These lines have the sides of the rules, nonterminal by nonterminal, and each of
them is read as its rule: a right side that is displayed one character a symbol spells its symbols.
The start symbol is printed first, so the reader makes it the start again, and it takes the
vocabulary from the rules as it was taken before.
-/

namespace StrongLL

set_option autoImplicit false

/-- The display of the right side takes no part in the format of a line and is not the spelling of
the empty word. -/
structure Rule.Plain (rule : Rule) : Prop where
  unblank : ∀ c ∈ Symbol.displayAll rule.right, isBlank c = false
  unbarred : '|' ∉ Symbol.displayAll rule.right
  arrowless : ¬Grammar.arrow <:+: Symbol.displayAll rule.right
  other : Symbol.displayAll rule.right ≠ Terminal.epsilonText

/-- The same, put so that it can be computed. -/
theorem Rule.plain_iff {rule : Rule} : rule.Plain ↔
    (Symbol.displayAll rule.right).any isBlank = false ∧
      '|' ∉ Symbol.displayAll rule.right ∧
      Text.holds Grammar.arrow (Symbol.displayAll rule.right) = false ∧
      Symbol.displayAll rule.right ≠ Terminal.epsilonText := by
  rw [Text.holds_eq_false_iff Grammar.arrow_ne_nil, List.any_eq_false]
  simp only [Bool.not_eq_true]
  constructor
  · intro plain
    exact ⟨plain.unblank, plain.unbarred, plain.arrowless, plain.other⟩
  · intro ⟨unblank, unbarred, arrowless, other⟩
    exact ⟨unblank, unbarred, arrowless, other⟩

instance : DecidablePred Rule.Plain := fun _ => decidable_of_iff' _ Rule.plain_iff

namespace Text

variable {left right mark : Text}

theorem newline_not_mem (unblank : ∀ c ∈ right, isBlank c = false) : '\n' ∉ right := by
  intro occurs
  have blank : isBlank '\n' = true := by decide
  exact Bool.false_ne_true ((unblank '\n' occurs).symm.trans blank)

theorem filter_unblank (unblank : ∀ c ∈ right, isBlank c = false) :
    right.filter (!isBlank ·) = right := by
  apply List.filter_eq_self.2
  intro c occurs
  rw [unblank c occurs]
  rfl

/-- A line with padding in front is one line, and the padding goes with the blanks. -/
theorem line_of_alignRight (unblankLeft : ∀ c ∈ left, isBlank c = false)
    (unblankRight : ∀ c ∈ right, isBlank c = false) (inside : '\n' ∉ mark) (width : Nat) :
    '\n' ∉ alignRight width left ++ mark ++ right ∧
      (alignRight width left ++ mark ++ right).filter (!isBlank ·) =
        left ++ mark.filter (!isBlank ·) ++ right := by
  have space : isBlank ' ' = true := by decide
  constructor
  · simp [alignRight, filler, newline_not_mem unblankLeft, newline_not_mem unblankRight, inside]
  · rw [alignRight, List.filter_append, List.filter_append, List.filter_append,
      filter_unblank unblankLeft, filter_unblank unblankRight, filler, List.filter_replicate, space]
    rfl

end Text

namespace Grammar

variable {n : NonTerminal} {previous : Option NonTerminal} {lines : List Text} {left right : Text}
  {rights : List Text} {sides : List (NonTerminal × Text)} {g : Grammar} {rule : Rule}

/-- The lines of a production without their blanks. -/
def productionLines (left : Text) : List Text → List Text
  | [] => []
  | first :: more => (left ++ arrow ++ first) :: more.map ('|' :: ·)

theorem ne_nil_of_mem_productionLines {line : Text} (member : line ∈ productionLines left rights) :
    line ≠ [] := by
  cases rights with
  | nil => exact nomatch member
  | cons first more =>
      rcases List.mem_cons.1 member with same | later
      · simp [same, arrow]
      · rcases List.mem_map.1 later with ⟨right, _, same⟩
        rw [← same]
        exact List.cons_ne_nil '|' right

theorem written_flatMap {Item : Type} (items : List Item) (f : Item → List Text) :
    written (items.flatMap f) = items.flatMap fun item => written (f item) := by
  unfold written
  rw [List.map_flatMap, List.filter_flatMap]

theorem written_eq {raw : List Text} (same : raw.map (·.filter (!isBlank ·)) = lines)
    (filled : ∀ line ∈ lines, line ≠ []) : written raw = lines := by
  rw [written, same]
  apply List.filter_eq_self.2
  intro line member
  exact decide_eq_true (filled line member)

end Grammar

namespace ProductionView

variable {view : ProductionView}

/-- A production is printed on its lines. -/
theorem written_pieces_plain (unblankLeft : ∀ c ∈ view.left, isBlank c = false)
    (unblank : ∀ right ∈ view.rights, ∀ c ∈ right, isBlank c = false) (filled : view.rights ≠ [])
    (width : Nat) : Grammar.written (Text.pieces '\n' (view.plain width true)) =
      Grammar.productionLines view.left view.rights := by
  rcases view with ⟨left, rights⟩
  cases rights with
  | nil => exact absurd rfl filled
  | cons first more =>
      rcases List.forall_mem_cons.1 unblank with ⟨unblankFirst, unblankMore⟩
      let head := Text.alignRight width left ++ " -> ".toList ++ first
      let tail := more.map (Text.alignRight width [] ++ "  | ".toList ++ ·)
      have headLine := Text.line_of_alignRight unblankLeft unblankFirst
        (show '\n' ∉ " -> ".toList by decide) width
      have tailLine := fun right member => Text.line_of_alignRight
        (show ∀ c ∈ ([] : Text), isBlank c = false from nofun) (unblankMore right member)
        (show '\n' ∉ "  | ".toList by decide) width
      have oneLine : ∀ line ∈ head :: tail, '\n' ∉ line := List.forall_mem_cons.2
        ⟨headLine.1, List.forall_mem_map.2 fun right member => (tailLine right member).1⟩
      have shown : (head :: tail).map (·.filter (!isBlank ·)) =
          Grammar.productionLines left (first :: more) := by
        have others : tail.map (·.filter (!isBlank ·)) = more.map ('|' :: ·) := by
          rw [List.map_map]
          exact List.map_congr_left fun right member => (tailLine right member).2
        rw [List.map_cons, others, headLine.2]
        rfl
      have printed : plain ⟨left, first :: more⟩ width true =
          ['\n'].intercalate (head :: tail) := rfl
      rw [printed, Text.pieces_intercalate oneLine (List.cons_ne_nil head tail)]
      exact Grammar.written_eq shown fun _ => Grammar.ne_nil_of_mem_productionLines

end ProductionView

namespace Symbol

variable {symbols : List Symbol}

/-- Symbols of one character are spelled by their display. -/
theorem spells_displayAll (valid : ∀ s ∈ symbols, s.Valid) (short : ∀ s ∈ symbols, ¬s.Long)
    (other : displayAll symbols ≠ Terminal.epsilonText) :
    Grammar.Spells (displayAll symbols) symbols := by
  rw [Grammar.Spells, if_neg other]
  clear other
  induction symbols with
  | nil => exact .nil
  | cons s symbols induction =>
      rcases List.forall_mem_cons.1 valid with ⟨validHead, validTail⟩
      rcases List.forall_mem_cons.1 short with ⟨shortHead, shortTail⟩
      rcases validHead.exists_char shortHead with ⟨c, text, shown⟩
      rw [displayAll_cons, shown]
      have read : Symbol.read [c] = .ok s := text ▸ validHead
      exact .cons read (induction validTail shortTail)

end Symbol

namespace Grammar

variable {n : NonTerminal} {previous : Option NonTerminal} {lines : List Text} {left right : Text}
  {rights : List Text} {sides : List (NonTerminal × Text)} {g : Grammar} {rule : Rule}

theorem opens_of_short (short : n.text.length = 1) (arrowless : ¬arrow <:+: right) :
    Opens (n.text ++ arrow ++ right) n right := by
  rcases List.length_eq_one_iff.1 short with ⟨c, single⟩
  have head : c ≠ '-' := by
    intro same
    have name := n.isName_text
    rw [single, same] at name
    exact absurd name (by decide)
  have found : Text.cutAt? arrow (n.text ++ arrow ++ right) = some (n.text, right) := by
    rw [single]
    simp [Text.cutAt?, arrow, head.symm]
  exact opens_iff.2 ⟨found, (Text.holds_eq_false_iff arrow_ne_nil).2 arrowless⟩

theorem continues_of_arrowless (arrowless : ¬arrow <:+: right) :
    Continues ('|' :: right) right where
  bar := rfl
  plain := by
    intro inside
    rcases List.infix_cons_iff.1 inside with begins | behind
    · exact absurd (List.cons_prefix_cons.1 begins).1 (by decide)
    · exact arrowless behind

/-- The lines of a production have its sides, whatever left side holds before them. -/
theorem sides_productionLines (short : n.text.length = 1)
    (arrowless : ∀ right ∈ rights, ¬arrow <:+: right)
    (later : ∀ previous, Sides previous lines sides) (previous : Option NonTerminal) :
    Sides previous (productionLines n.text rights ++ lines) (rights.map (n, ·) ++ sides) := by
  cases rights with
  | nil => exact later previous
  | cons first more =>
      rcases List.forall_mem_cons.1 arrowless with ⟨arrowlessFirst, arrowlessMore⟩
      apply Sides.opens (opens_of_short short arrowlessFirst)
      clear arrowless
      induction more with
      | nil => exact later (some n)
      | cons second more induction =>
          rcases List.forall_mem_cons.1 arrowlessMore with ⟨arrowlessSecond, arrowlessRest⟩
          exact .continues (continues_of_arrowless arrowlessSecond) (induction arrowlessRest)

/-- A text is read as the rules that its sides are read as, where every side has one alternative. -/
theorem read_of_sides {text : Text} {listed : List Rule}
    (given : Sides none (writtenLines text) sides) (begins : sides.head?.map Prod.fst = some n)
    (unbarred : ∀ side ∈ sides, '|' ∉ side.2)
    (reads : ∀ side ∈ sides, ∃ rule, readAlternative side.1 side.2 = .ok rule)
    (covers : ∀ rule, rule ∈ listed ↔ ∃ side ∈ sides, readAlternative side.1 side.2 = .ok rule) :
    read text = .ok (ofRules n listed) := by
  rcases readLines_iff.2 given with ⟨productions, found, same⟩
  rw [← same] at begins unbarred reads covers
  rw [List.forall_mem_map] at unbarred reads
  simp only [List.mem_map, exists_exists_and_eq_and] at covers
  have single : ∀ production ∈ productions,
      Text.pieces '|' production.right = [production.right] := fun production member =>
    Text.pieces_of_not_mem '|' production.right (unbarred production member)
  have each : ∀ production ∈ productions, ∃ rules, readRules production = .ok rules := by
    intro production member
    rcases reads production member with ⟨rule, read⟩
    refine ⟨[rule], readRules_eq_ok_iff.2 ?_⟩
    rw [single production member]
    exact mapM_cons_eq_ok_iff.2 ⟨rule, read, [], rfl, rfl⟩
  rcases exists_mapM_iff.2 each with ⟨rules, mapped⟩
  have listing : ∀ rule, rule ∈ rules.flatten ↔ rule ∈ listed := by
    intro rule
    rw [mem_flatten_of_readRules mapped, covers]
    apply exists_congr
    intro production
    apply and_congr_right
    intro member
    rw [single production member]
    simp [Production.sides]
  cases productions with
  | nil => exact nomatch begins
  | cons first more =>
      have start : first.left = n := Option.some.inj begins
      rw [← start, ← ofRules_congr listing]
      exact read_eq_ok_iff.2 ⟨first, more, rules, found, mapped, rfl⟩

/-- Each terminal of the rules is what is read from its spelling, and the vocabulary is what the rules
and the start mention. -/
structure Spelled (g : Grammar) : Prop where
  terminals : ∀ rule ∈ g.rules, ∀ t, .terminal t ∈ rule.right → t.Valid
  own : ofRules g.start g.rules.toList = g

theorem spelled_ofRules {start : NonTerminal} {listed : List Rule}
    (terminals : ∀ rule ∈ listed, ∀ t, .terminal t ∈ rule.right → t.Valid) :
    (ofRules start listed).Spelled where
  terminals := fun rule member => terminals rule (mem_rules_ofRules.1 member)
  own := ofRules_congr fun _ => SortedSet.mem_toList.trans mem_rules_ofRules

theorem valid_of_spells {alternative : Text} {symbols : List Symbol}
    (spells : Spells alternative symbols) : ∀ s ∈ symbols, s.Valid := by
  rw [Spells] at spells
  split at spells
  · rw [spells]
    decide
  · intro s member
    rcases (mem_of_mapM_eq_ok (mapM_eq_ok_iff.2 spells)).1 member with ⟨c, _, read⟩
    rw [Symbol.Valid, Symbol.text_of_read read]
    exact read

theorem spelled_of_read {text : Text} (result : read text = .ok g) : g.Spelled := by
  rcases read_eq_ok_iff.1 result with ⟨first, more, rules, _, _, same⟩
  rw [← same]
  apply spelled_ofRules
  intro rule member t occurs
  rw [← mem_rules_ofRules, same] at member
  rcases exists_spells_of_mem_rules result member with ⟨alternative, spells⟩
  exact valid_of_spells spells (.terminal t) occurs

/-- The displays of the right sides of a nonterminal. -/
def rightsOf (g : Grammar) (n : NonTerminal) : List Text :=
  (g.rulesOf n).map fun rule => Symbol.displayAll rule.right

/-- What it takes to read the lines of all productions. -/
structure Printable (g : Grammar) : Prop where
  short : ∀ n ∈ g.nonterminals, n.text.length = 1
  plain : ∀ rule ∈ g.rules, rule.Plain
  spells : ∀ rule ∈ g.rules, Spells (Symbol.displayAll rule.right) rule.right
  starts : g.rulesOf g.start ≠ []

theorem mem_displayOrder : n ∈ g.displayOrder ↔ n ∈ g.nonterminals := by
  rw [displayOrder, List.mem_cons, List.mem_filter, SortedSet.mem_toList, bne_iff_ne]
  constructor
  · intro listed
    rcases listed with same | ⟨declared, _⟩
    · exact same ▸ g.start_declared
    · exact declared
  · intro declared
    by_cases same : n = g.start
    · exact .inl same
    · exact .inr ⟨declared, same⟩

theorem mem_rightsOf : right ∈ g.rightsOf n ↔
    ∃ rule ∈ g.rules, rule.left = n ∧ Symbol.displayAll rule.right = right := by
  simp only [rightsOf, List.mem_map, mem_rulesOf, and_assoc]

theorem mem_productions_iff {view : ProductionView} : view ∈ g.productionsView.productions ↔
    ∃ n ∈ g.nonterminals, g.rightsOf n ≠ [] ∧ ⟨n.display, g.rightsOf n⟩ = view := by
  have listed : view ∈ g.productionsView.productions ↔
      (∃ n ∈ g.displayOrder, ⟨n.display, g.rightsOf n⟩ = view) ∧ (!view.rights.isEmpty) = true :=
    List.mem_filter.trans (and_congr_left' List.mem_map)
  rw [listed]
  simp only [mem_displayOrder, Bool.not_eq_true', List.isEmpty_eq_false_iff]
  constructor
  · intro ⟨⟨n, declared, same⟩, filled⟩
    rw [← same] at filled
    exact ⟨n, declared, filled, same⟩
  · intro ⟨n, declared, filled, same⟩
    rw [← same]
    exact ⟨⟨n, declared, rfl⟩, filled⟩

/-- Productions without right sides are left out, which makes no difference to what they add up
to. -/
theorem flatMap_productions {Image : Type} {f : ProductionView → List Image}
    (empty : ∀ left, f ⟨left, []⟩ = []) : g.productionsView.productions.flatMap f =
      g.displayOrder.flatMap fun n => f ⟨n.display, g.rightsOf n⟩ := by
  have listed : g.productionsView.productions =
      (g.displayOrder.map fun n => ProductionView.mk n.display (g.rightsOf n)).filter
        fun view => !view.rights.isEmpty := rfl
  rw [listed]
  generalize g.displayOrder = order
  induction order with
  | nil => rfl
  | cons n order induction =>
      rw [List.map_cons, List.flatMap_cons, ← induction]
      cases rights : g.rightsOf n with
      | nil => rw [empty, List.nil_append, List.filter_cons_of_neg (by simp)]
      | cons first more => rw [List.filter_cons_of_pos (by simp), List.flatMap_cons]

theorem mem_sides_iff {side : NonTerminal × Text} :
    side ∈ (g.displayOrder.flatMap fun n => (g.rightsOf n).map (n, ·)) ↔
      ∃ rule ∈ g.rules, (rule.left, Symbol.displayAll rule.right) = side := by
  simp only [List.mem_flatMap, List.mem_map, mem_rightsOf, mem_displayOrder]
  constructor
  · intro ⟨n, _, right, ⟨rule, member, left, shown⟩, same⟩
    rw [← left, ← shown] at same
    exact ⟨rule, member, same⟩
  · intro ⟨rule, member, same⟩
    have declared := g.rules_declared rule member (.nonterminal rule.left) List.mem_cons_self
    exact ⟨rule.left, declared, _, ⟨rule, member, rfl, rfl⟩, same⟩

namespace Printable

variable (printable : g.Printable)
include printable

theorem rightsOf_start_ne_nil : g.rightsOf g.start ≠ [] := by
  intro empty
  exact printable.starts (List.map_eq_nil_iff.1 empty)

theorem display_eq_text (declared : n ∈ g.nonterminals) : n.display = n.text := by
  apply bracketed_of_short
  rw [printable.short n declared]
  exact Nat.lt_irrefl 1

/-- Only blanks of the print are lost on the reader. -/
theorem writtenLines_plain : writtenLines (View.plain g.productionsView) =
    g.displayOrder.flatMap fun n => productionLines n.text (g.rightsOf n) := by
  let width := Text.columnWidth (g.productionsView.productions.map (·.left))
  have printed : View.plain g.productionsView =
      ['\n'].intercalate (g.productionsView.productions.map (·.plain width true)) := rfl
  have nonempty : g.productionsView.productions.map (·.plain width true) ≠ [] := by
    have first := mem_productions_iff.2
      ⟨g.start, g.start_declared, printable.rightsOf_start_ne_nil, rfl⟩
    exact List.ne_nil_of_mem (List.mem_map_of_mem first)
  have lines : ∀ view ∈ g.productionsView.productions,
      written (Text.pieces '\n' (view.plain width true)) =
        productionLines view.left view.rights := by
    intro view listed
    rcases mem_productions_iff.1 listed with ⟨n, declared, filled, same⟩
    rw [← same]
    apply ProductionView.written_pieces_plain _ _ filled
    · rw [printable.display_eq_text declared]
      exact n.unblank
    · intro right member
      rcases mem_rightsOf.1 member with ⟨rule, inRules, _, shown⟩
      rw [← shown]
      exact (printable.plain rule inRules).unblank
  calc written (Text.pieces '\n' (View.plain g.productionsView))
    _ = g.productionsView.productions.flatMap fun view =>
          written (Text.pieces '\n' (view.plain width true)) := by
        rw [printed, Text.pieces_intercalate_eq_flatMap nonempty, List.flatMap_map, written_flatMap]
    _ = g.productionsView.productions.flatMap fun view =>
          productionLines view.left view.rights := List.flatMap_congr lines
    _ = g.displayOrder.flatMap fun n => productionLines n.display (g.rightsOf n) :=
        flatMap_productions fun _ => rfl
    _ = g.displayOrder.flatMap fun n => productionLines n.text (g.rightsOf n) := by
        apply List.flatMap_congr
        intro n listed
        rw [printable.display_eq_text (mem_displayOrder.1 listed)]

/-- The lines that are printed have the sides of the rules. -/
theorem sides_displayOrder (previous : Option NonTerminal) :
    Sides previous (g.displayOrder.flatMap fun n => productionLines n.text (g.rightsOf n))
      (g.displayOrder.flatMap fun n => (g.rightsOf n).map (n, ·)) := by
  have declared : ∀ n ∈ g.displayOrder, n ∈ g.nonterminals := fun n => mem_displayOrder.1
  generalize g.displayOrder = order at declared
  induction order generalizing previous with
  | nil => exact .nil
  | cons n order induction =>
      rcases List.forall_mem_cons.1 declared with ⟨head, tail⟩
      have arrowless : ∀ right ∈ g.rightsOf n, ¬arrow <:+: right := by
        intro right member
        rcases mem_rightsOf.1 member with ⟨rule, inRules, _, same⟩
        rw [← same]
        exact (printable.plain rule inRules).arrowless
      exact sides_productionLines (printable.short n head) arrowless
        (fun previous => induction previous tail) previous

theorem readAlternative_eq (member : rule ∈ g.rules) :
    readAlternative rule.left (Symbol.displayAll rule.right) = .ok rule := by
  have spells := printable.spells rule member
  exact readAlternative_eq_ok_iff.2 ⟨spells.ne_nil, rfl, spells⟩

theorem read_plain :
    read (View.plain g.productionsView) = .ok (ofRules g.start g.rules.toList) := by
  have given := printable.sides_displayOrder none
  rw [← printable.writtenLines_plain] at given
  apply read_of_sides given
  · rcases List.exists_cons_of_ne_nil printable.rightsOf_start_ne_nil with ⟨first, more, rights⟩
    rw [displayOrder, List.flatMap_cons, rights]
    rfl
  · intro side member
    rcases mem_sides_iff.1 member with ⟨rule, inRules, same⟩
    rw [← same]
    exact (printable.plain rule inRules).unbarred
  · intro side member
    rcases mem_sides_iff.1 member with ⟨rule, inRules, same⟩
    rw [← same]
    exact ⟨rule, printable.readAlternative_eq inRules⟩
  · intro rule
    constructor
    · intro member
      exact ⟨_, mem_sides_iff.2 ⟨rule, member, rfl⟩, printable.readAlternative_eq member⟩
    · intro ⟨side, member, read⟩
      rcases mem_sides_iff.1 member with ⟨other, inRules, same⟩
      rw [← same, printable.readAlternative_eq inRules] at read
      exact Except.ok.inj read ▸ inRules

end Printable

/-- Where no nonterminal is longer than one character, only the empty word is. -/
theorem not_long_of_mem_right (short : ∀ n ∈ g.nonterminals, n.text.length = 1)
    (member : rule ∈ g.rules) (filled : rule.isEpsilon = false) :
    ∀ s ∈ rule.right, ¬s.Long := by
  intro s occurs long
  cases s with
  | terminal t =>
      cases t with
      | epsilon =>
          rw [← Rule.body_of_filled filled] at occurs
          exact rule.epsilon_not_mem_body occurs
      | char c => exact Nat.lt_irrefl 1 long
  | nonterminal n =>
      have declared := g.rules_declared rule member (.nonterminal n) (List.mem_cons_of_mem _ occurs)
      have one := short n declared
      rw [Symbol.Long, Symbol.text, one] at long
      exact Nat.lt_irrefl 1 long

/-- A grammar that was read, or made of rules whose terminals are read from their spellings, is read
back from the plain text of its productions, if the start has a rule, every nonterminal is one
character long, no rule is empty and no right side can be taken for a part of the format. -/
theorem printed_productions_are_read_back (g : Grammar)
    (built : (∃ start rules, (∀ rule ∈ rules, ∀ t, .terminal t ∈ rule.right → t.Valid) ∧
      g = ofRules start rules) ∨ ∃ text, read text = .ok g)
    (starts : g.rulesOf g.start ≠ []) (short : ∀ n ∈ g.nonterminals, n.text.length = 1)
    (filled : ∀ rule ∈ g.rules, rule.isEpsilon = false) (plain : ∀ rule ∈ g.rules, rule.Plain) :
    read (View.plain g.productionsView) = .ok g := by
  have spelled : g.Spelled := by
    rcases built with ⟨start, rules, terminals, same⟩ | ⟨text, result⟩
    · rw [same]
      exact spelled_ofRules terminals
    · exact spelled_of_read result
  have spells : ∀ rule ∈ g.rules, Spells (Symbol.displayAll rule.right) rule.right := by
    intro rule member
    have valid : ∀ s ∈ rule.right, s.Valid := fun s occurs =>
      Symbol.valid_of_terminal fun t same => spelled.terminals rule member t (same ▸ occurs)
    exact Symbol.spells_displayAll valid (not_long_of_mem_right short member (filled rule member))
      (plain rule member).other
  have printable : g.Printable :=
    { short := short
      plain := plain
      spells := spells
      starts := starts }
  rw [printable.read_plain, spelled.own]

/-- The column of left sides is wider than its texts, and the terminals are parts of marks. -/
def padded : Grammar :=
  ofRules (.named "É")
    [⟨.named "A", [.terminal (.char '['), .terminal (.char 'a'), .terminal (.char ']')], by simp,
        by simp⟩,
      ⟨.named "É", [.terminal (.char '-'), .nonterminal (.named "A")], by simp, by simp⟩,
      ⟨.named "É", [.terminal (.char '>')], by simp, by simp⟩]

theorem padded_is_read_back :
    View.plain padded.productionsView = " É -> -A\n    | >\n A -> [a]".toList ∧
      read (View.plain padded.productionsView) = .ok padded := by
  have valid : ∀ rule ∈ padded.rules.toList, ∀ s ∈ rule.right, s.Valid := by decide +kernel
  have filled : ∀ rule ∈ padded.rules.toList, rule.isEpsilon = false := by decide +kernel
  have plain : ∀ rule ∈ padded.rules.toList, rule.Plain := by decide +kernel
  have short : ∀ n ∈ padded.nonterminals.toList, n.text.length = 1 := by decide +kernel
  have starts : padded.rulesOf padded.start ≠ [] := by decide +kernel
  have built : padded = ofRules padded.start padded.rules.toList := by decide +kernel
  exact ⟨by decide +kernel, printed_productions_are_read_back padded
    (.inl ⟨_, _, fun rule member t => valid rule member (.terminal t), built⟩)
    starts short filled plain⟩

end Grammar

end StrongLL
