import Mathlib.Data.Finset.Card
import Mathlib.Logic.Relation
import StrongLL.Proofs.Table.Cells

/-!
# Left corners

Before one tuple, a nonterminal has another one as a left corner when the rule that the table
selects puts the other one behind symbols that derive the empty word. Expanding leads from left
corner to left corner without reading a character, so a cycle of left corners is all that could keep
the machine from halting.

There is none. A nonterminal of the cycle derives some word by a rule with a shorter rest. If that
rule is the one selected, the next left corner derives a word in fewer steps and the argument
repeats. If it is not, both rules apply before the same word: the selected one leads back around the
cycle and can then do whatever the other one does. The table would not have been built.
-/

namespace StrongLL

set_option autoImplicit false

open Relation

/-- The rule selected for `n` puts `corner` behind symbols that derive the empty word. -/
def LeftCorner (g : Grammar) (table : Table) (lookahead : Tuple) (n corner : NonTerminal) : Prop :=
  ∃ selected before behind, table.select? n lookahead = some selected ∧
    selected.rule.body = before ++ .nonterminal corner :: behind ∧ g.DerivesWord before []

section

variable {g : Grammar} {k : Nat} {table : Table} {lookahead : Tuple} {n corner : NonTerminal}

theorem derives_behind_empty {before behind : List Symbol} {rule : Rule}
    (split : rule.body = before ++ .nonterminal corner :: behind)
    (empty : g.DerivesWord before []) :
    g.Derives rule.body (.nonterminal corner :: behind) := by
  have plain : withoutEpsilon before = before := by
    apply Grammar.withoutEpsilon_eq_self
    intro occurs
    apply rule.epsilon_not_mem_body
    rw [split]
    exact List.mem_append_left _ occurs
  rw [Grammar.DerivesWord, plain] at empty
  rw [split]
  exact empty.append (.refl _)

theorem LeftCorner.derives (built : g.table k = .ok table)
    (isCorner : LeftCorner g table lookahead n corner) :
    ∃ behind word, g.Derives [.nonterminal n] (.nonterminal corner :: behind) ∧
      g.DerivesWord behind word := by
  obtain ⟨selected, before, behind, found, split, empty⟩ := isCorner
  obtain ⟨known, left, outer, whole, _, derives, _⟩ := (Table.select?_eq_some_iff built).1 found
  have replaced := Grammar.Derives.of_rule (Table.mem_rules_of_rule? built known) [] []
  rw [left, List.nil_append, List.append_nil] at replaced
  obtain ⟨body, _, _, derivesBody, _⟩ := derives.split
  rw [split] at derivesBody
  obtain ⟨_, later, _, _, derivesLater⟩ := derivesBody.split
  obtain ⟨_, word, _, _, derivesBehind⟩ := derivesLater.of_cons
  exact ⟨behind, word, replaced.trans (derives_behind_empty split empty), derivesBehind⟩

theorem derives_of_leftCorners (built : g.table k = .ok table)
    (path : ReflTransGen (LeftCorner g table lookahead) n corner) :
    ∃ behind word, g.Derives [.nonterminal n] (.nonterminal corner :: behind) ∧
      g.DerivesWord behind word := by
  induction path with
  | refl => exact ⟨[], [], .refl _, .refl []⟩
  | tail _ last induction =>
      obtain ⟨outer, outerWord, derives, derivesOuter⟩ := induction
      obtain ⟨inner, innerWord, derivesCorner, derivesInner⟩ := last.derives built
      have inside := derivesCorner.within [] outer
      simp only [List.nil_append, List.cons_append] at inside
      exact ⟨inner ++ outer, innerWord ++ outerWord, derives.trans inside,
        derivesInner.append derivesOuter⟩

/-- On a cycle of left corners, no other rule than the selected one derives a word. -/
theorem selected_of_cycle (built : g.table k = .ok table) {selected : AppliedRule}
    {before behind : List Symbol} (found : table.select? n lookahead = some selected)
    (split : selected.rule.body = before ++ .nonterminal corner :: behind)
    (empty : g.DerivesWord before []) (back : ReflTransGen (LeftCorner g table lookahead) corner n)
    {rule : Rule} (member : rule ∈ g.rules) (left : rule.left = n) {word : Text}
    (derives : g.DerivesWord rule.body word) : rule = selected.rule := by
  obtain ⟨known, selectedLeft, outer, whole, context, derivesWhole, _⟩ :=
    (Table.select?_eq_some_iff built).1 found
  have selectedMember := Table.mem_rules_of_rule? built known
  obtain ⟨body, outerWord, _, derivesBody, derivesOuter⟩ := derivesWhole.split
  rw [split] at derivesBody
  obtain ⟨_, later, _, _, derivesLater⟩ := derivesBody.split
  obtain ⟨_, behindWord, _, _, derivesBehind⟩ := derivesLater.of_cons
  obtain ⟨around, aroundWord, derivesCorner, derivesAround⟩ := derives_of_leftCorners built back
  -- Behind the second occurrence of `n` stands `trailing`, and then what was behind the first.
  let trailing := around ++ behind
  let trailingWord := aroundWord ++ behindWord
  have derivesTrailing : g.DerivesWord trailing trailingWord := derivesAround.append derivesBehind
  have cycle : g.Derives selected.rule.body (.nonterminal n :: trailing) := by
    have inside := derivesCorner.within [] behind
    simp only [List.nil_append, List.cons_append] at inside
    exact (derives_behind_empty split empty).trans inside
  have ruleDerives : g.DerivesWord [.nonterminal n] word := left ▸ .of_rule member derives
  have selectedApplies : g.Applies k selected.rule
      (Tuple.cut k (word ++ trailingWord ++ outerWord)) := by
    refine ⟨outer, _, context, ?_, rfl⟩
    have derivesFirst := Grammar.DerivesWord.append ruleDerives derivesTrailing
    exact (Grammar.DerivesWord.of_derives cycle derivesFirst).append derivesOuter
  have ruleApplies : g.Applies k rule (Tuple.cut k (word ++ trailingWord ++ outerWord)) := by
    obtain ⟨front, reached⟩ := context
    refine ⟨trailing ++ outer, _, ⟨front, ?_⟩, ?_, rfl⟩
    · have replaced := Grammar.Derives.of_rule selectedMember front outer
      have around := cycle.within front outer
      rw [left]
      simpa only [List.append_assoc, List.cons_append] using (reached.trans replaced).trans around
    · rw [List.append_assoc word]
      exact derives.append (derivesTrailing.append derivesOuter)
  exact Table.rule_unique built member selectedMember (left.trans selectedLeft.symm) ruleApplies
    selectedApplies

/-- No nonterminal is its own left corner, however far around. -/
theorem leftCorner_acyclic (built : g.table k = .ok table) (n : NonTerminal) :
    ¬TransGen (LeftCorner g table lookahead) n n := by
  have shorter : ∀ length n word rules, rules.length = length →
      g.Yields [.nonterminal n] word rules → ¬TransGen (LeftCorner g table lookahead) n n := by
    intro length
    induction length using Nat.strong_induction_on with
    | _ length induction =>
        intro n word rules count yields cycle
        obtain ⟨corner, first, back⟩ := TransGen.head'_iff.1 cycle
        have around : TransGen (LeftCorner g table lookahead) corner corner := .tail' back first
        obtain ⟨selected, before, behind, found, split, empty⟩ := first
        obtain ⟨rule, member, left, inner, rfl, body⟩ := yields.of_nonterminal
        have same := selected_of_cycle built found split empty back member left
          (Grammar.derivesWord_iff_yields.2 ⟨inner, body⟩)
        rw [same, split] at body
        obtain ⟨_, _, _, laterRules, _, rfl, _, later⟩ := body.split
        obtain ⟨_, _, cornerRules, _, _, rfl, cornerYields, _⟩ := later.of_cons
        apply induction cornerRules.length _ corner _ cornerRules rfl cornerYields around
        simp only [List.length_cons, List.length_append] at count
        omega
  intro cycle
  obtain ⟨corner, first, _⟩ := TransGen.head'_iff.1 cycle
  obtain ⟨selected, _, _, found, _, _⟩ := first
  obtain ⟨known, left, _, _, _, derives, _⟩ := (Table.select?_eq_some_iff built).1 found
  obtain ⟨_, _, _, derivesBody, _⟩ := derives.split
  have derivesLeft := Grammar.DerivesWord.of_rule (Table.mem_rules_of_rule? built known) derivesBody
  obtain ⟨rules, yields⟩ := Grammar.derivesWord_iff_yields.1 derivesLeft
  rw [left] at yields
  exact shorter rules.length n _ rules rfl yields cycle

theorem LeftCorner.declared (built : g.table k = .ok table)
    (isCorner : LeftCorner g table lookahead n corner) : corner ∈ g.nonterminals := by
  obtain ⟨selected, before, behind, found, split, _⟩ := isCorner
  have member := Table.mem_rules_of_rule? built ((Table.select?_eq_some_iff built).1 found).1
  have inBody : Symbol.nonterminal corner ∈ selected.rule.body := by
    rw [split]
    simp
  have inRight : Symbol.nonterminal corner ∈ selected.rule.right := by
    unfold Rule.body at inBody
    split at inBody
    · exact absurd inBody List.not_mem_nil
    · exact inBody
  exact g.rules_declared _ member _ (List.mem_cons_of_mem _ inRight)

open scoped Classical

/-- How many nonterminals are left corners of a nonterminal, however far around. -/
noncomputable def cornerCount (g : Grammar) (table : Table) (lookahead : Tuple) (n : NonTerminal) :
    Nat :=
  (g.nonterminals.toList.toFinset.filter fun m =>
    TransGen (LeftCorner g table lookahead) n m).card

theorem cornerCount_le (n : NonTerminal) :
    cornerCount g table lookahead n ≤ g.nonterminals.size := by
  unfold cornerCount
  exact (Finset.card_filter_le _ _).trans (List.toFinset_card_le _)

theorem cornerCount_lt (built : g.table k = .ok table)
    (isCorner : LeftCorner g table lookahead n corner) :
    cornerCount g table lookahead corner < cornerCount g table lookahead n := by
  apply Finset.card_lt_card
  rw [Finset.ssubset_iff_of_subset]
  · refine ⟨corner, ?_, ?_⟩
    · rw [Finset.mem_filter, List.mem_toFinset]
      exact ⟨isCorner.declared built, .single isCorner⟩
    · rw [Finset.mem_filter]
      exact fun found => leftCorner_acyclic built corner found.2
  · intro m found
    rw [Finset.mem_filter] at found ⊢
    exact ⟨found.1, .head isCorner found.2⟩

end

end StrongLL
