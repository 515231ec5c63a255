import StrongLL.Grammar.EpsilonFree
import StrongLL.Proofs.Grammar.Nullable

/-!
# Nothing is lost with the empty rules

A variant of a rule leaves out nonterminals that derive the empty word, so what it yields the rule
yields too. In the other direction every nonterminal of a derivation derives a part of the word. The
nonterminals whose part is empty are nullable, and the variant without them is a rule unless the
whole part is empty: the grammar without empty rules yields all words but the empty one. Nothing is
nullable in it, so every rule is its own only variant, and nothing is left to remove.
-/

namespace StrongLL

set_option autoImplicit false

theorem Rule.make_eq_ok {left : NonTerminal} {right : List Symbol} {rule : Rule}
    (made : make left right = .ok rule) : rule.left = left ∧ rule.right = right := by
  unfold make at made
  split at made
  · cases made
  · split at made
    · cases made
    · cases made
      exact ⟨rfl, rfl⟩

theorem Rule.body_of_filled {rule : Rule} (filled : rule.isEpsilon = false) :
    rule.body = rule.right := by
  rw [body, if_neg (Bool.eq_false_iff.1 filled)]

theorem Rule.body_eq_right {rule : Rule} (plain : Symbol.terminal .epsilon ∉ rule.right) :
    rule.body = rule.right := by
  apply if_neg
  intro empty
  apply plain
  rw [beq_iff_eq.1 empty]
  exact List.mem_cons_self

theorem variants_subset {droppable : Symbol → Bool} {symbols variant : List Symbol}
    (member : variant ∈ variants droppable symbols) : variant ⊆ symbols := by
  induction symbols generalizing variant with
  | nil =>
      rw [List.mem_singleton.1 member]
      exact List.Subset.refl _
  | cons s symbols induction =>
      have keeps : ∀ kept ∈ (variants droppable symbols).map (s :: ·), kept ⊆ s :: symbols := by
        intro kept listed
        obtain ⟨tail, inside, rfl⟩ := List.mem_map.1 listed
        exact List.cons_subset_cons s (induction inside)
      simp only [variants] at member
      split at member
      · rcases List.mem_append.1 member with kept | dropped
        · exact keeps variant kept
        · exact List.subset_cons_of_subset s (induction dropped)
      · exact keeps variant member

theorem variants_eq_singleton {droppable : Symbol → Bool} {symbols : List Symbol}
    (kept : ∀ s ∈ symbols, droppable s = false) : variants droppable symbols = [symbols] := by
  induction symbols with
  | nil => rfl
  | cons s symbols induction =>
      obtain ⟨head, tail⟩ := List.forall_mem_cons.1 kept
      simp only [variants, induction tail, head, Bool.false_eq_true, if_false, List.map_cons,
        List.map_nil]

namespace Grammar

/-- The symbol is a nullable nonterminal. -/
def isDroppable (g : Grammar) (s : Symbol) : Bool := s.nonterminal?.any g.isNullable

/-- No rule produces the empty word directly. -/
def EpsilonFree (g : Grammar) : Prop :=
  ∀ rule ∈ g.rules, Symbol.terminal .epsilon ∉ rule.right

variable {g : Grammar} {symbols variant : List Symbol} {word : Text} {rules : List Rule}
    {rule : Rule}

theorem mem_rules_ofRules {start : NonTerminal} {listed : List Rule} :
    rule ∈ (ofRules start listed).rules ↔ rule ∈ listed :=
  SortedSet.mem_ofList

theorem mem_rules_epsilonFree_iff : rule ∈ g.epsilonFree.rules ↔
    ∃ whole ∈ g.rules, whole.isEpsilon = false ∧ whole.left = rule.left ∧
      rule.right ∈ variants g.isDroppable whole.right := by
  have listed : rule ∈ g.epsilonFree.rules ↔
      ∃ whole ∈ g.rules, rule ∈ Rule.variants g.isDroppable whole :=
    mem_rules_ofRules.trans List.mem_flatMap
  rw [listed]
  apply exists_congr
  intro whole
  apply and_congr_right
  intro _
  unfold Rule.variants
  cases whole.isEpsilon with
  | true =>
      constructor
      · exact fun member => absurd member List.not_mem_nil
      · exact fun parts => nomatch parts.1
  | false =>
      rw [if_neg Bool.false_ne_true, List.mem_filterMap]
      constructor
      · intro ⟨right, member, made⟩
        cases built : Rule.make whole.left right with
        | error cause => rw [built] at made; exact nomatch made
        | ok other =>
            rw [built] at made
            cases made
            obtain ⟨left, same⟩ := Rule.make_eq_ok built
            exact ⟨rfl, left.symm, same ▸ member⟩
      · intro ⟨_, left, member⟩
        refine ⟨rule.right, member, ?_⟩
        rw [left, Rule.make_left_right]
        rfl

theorem epsilonFree_epsilonFree (g : Grammar) : g.epsilonFree.EpsilonFree := by
  intro rule member occurs
  obtain ⟨whole, _, filled, _, variant⟩ := mem_rules_epsilonFree_iff.1 member
  apply whole.epsilon_not_mem_body
  rw [Rule.body_of_filled filled]
  exact variants_subset variant occurs

theorem yields_nil_of_isDroppable {s : Symbol} (droppable : g.isDroppable s = true) :
    ∃ rules, g.Yields [s] [] rules := by
  cases s with
  | terminal t => exact nomatch droppable
  | nonterminal n => exact derivesWord_iff_yields.1 (isNullable_iff.1 droppable)

theorem Yields.of_variant (member : variant ∈ variants g.isDroppable symbols)
    (yields : g.Yields variant word rules) : ∃ more, g.Yields symbols word more := by
  induction symbols generalizing variant word rules with
  | nil =>
      rw [List.mem_singleton.1 member] at yields
      exact ⟨rules, yields⟩
  | cons s symbols induction =>
      have keeps : variant ∈ (variants g.isDroppable symbols).map (s :: ·) →
          ∃ more, g.Yields (s :: symbols) word more := by
        intro listed
        obtain ⟨tail, inside, rfl⟩ := List.mem_map.1 listed
        obtain ⟨_, _, headRules, _, rfl, rfl, yieldsHead, yieldsTail⟩ := yields.of_cons
        obtain ⟨more, yieldsMore⟩ := induction inside yieldsTail
        exact ⟨headRules ++ more, yieldsHead.append yieldsMore⟩
      simp only [variants] at member
      split at member
      · next droppable =>
          rcases List.mem_append.1 member with kept | dropped
          · exact keeps kept
          · obtain ⟨none, yieldsNone⟩ := yields_nil_of_isDroppable droppable
            obtain ⟨more, yieldsMore⟩ := induction dropped yields
            exact ⟨none ++ more, yieldsNone.append yieldsMore⟩
      · exact keeps member

theorem Yields.of_epsilonFree (yields : g.epsilonFree.Yields symbols word rules) :
    ∃ more, g.Yields symbols word more := by
  induction yields with
  | nil => exact ⟨[], .nil⟩
  | skip _ induction =>
      obtain ⟨more, yields⟩ := induction
      exact ⟨more, .skip yields⟩
  | scan c _ induction =>
      obtain ⟨more, yields⟩ := induction
      exact ⟨more, .scan c yields⟩
  | @expand rule member _ _ _ _ _ _ _ body behind =>
      obtain ⟨inner, yieldsBody⟩ := body
      obtain ⟨outer, yieldsBehind⟩ := behind
      obtain ⟨whole, wholeMember, filled, left, isVariant⟩ := mem_rules_epsilonFree_iff.1 member
      rw [Rule.body_eq_right (g.epsilonFree_epsilonFree rule member)] at yieldsBody
      obtain ⟨more, yieldsWhole⟩ := yieldsBody.of_variant isVariant
      rw [← Rule.body_of_filled filled] at yieldsWhole
      rw [← left]
      exact ⟨_, .expand wholeMember yieldsWhole yieldsBehind⟩

theorem nil_mem_variants_nil {droppable : Symbol → Bool} : [] ∈ variants droppable [] :=
  List.mem_cons_self

theorem cons_mem_variants {droppable : Symbol → Bool} {s : Symbol}
    (member : variant ∈ variants droppable symbols) :
    s :: variant ∈ variants droppable (s :: symbols) := by
  have kept := List.mem_map_of_mem (f := (s :: ·)) member
  simp only [variants]
  split
  · exact List.mem_append_left _ kept
  · exact kept

theorem dropped_mem_variants {droppable : Symbol → Bool} {s : Symbol} (drops : droppable s = true)
    (member : variant ∈ variants droppable symbols) :
    variant ∈ variants droppable (s :: symbols) := by
  simp only [variants, drops, if_true]
  exact List.mem_append_right _ member

/-- A word is yielded by the variant without the symbols whose part of the word is empty. -/
theorem Yields.exists_variant (yields : g.Yields symbols word rules) :
    ∃ variant ∈ variants g.isDroppable symbols, ∃ fewer, g.epsilonFree.Yields variant word fewer := by
  induction yields with
  | nil => exact ⟨[], nil_mem_variants_nil, [], .nil⟩
  | skip _ induction =>
      obtain ⟨variant, member, fewer, yields⟩ := induction
      exact ⟨_, cons_mem_variants member, fewer, .skip yields⟩
  | scan c _ induction =>
      obtain ⟨variant, member, fewer, yields⟩ := induction
      exact ⟨_, cons_mem_variants member, fewer, .scan c yields⟩
  | @expand rule member symbols inner word _ _ body _ bodyInduction induction =>
      obtain ⟨variant, isVariant, fewer, yields⟩ := induction
      by_cases empty : inner = []
      · subst empty
        have nullable : g.isDroppable (.nonterminal rule.left) = true :=
          isNullable_of_yields (.of_rule member body)
        exact ⟨variant, dropped_mem_variants nullable isVariant, fewer, yields⟩
      · obtain ⟨right, isRight, innerFewer, yieldsRight⟩ := bodyInduction
        have filled : rule.isEpsilon = false := by
          cases producesNothing : rule.isEpsilon with
          | false => rfl
          | true =>
              rw [Rule.body, if_pos producesNothing] at body
              exact absurd body.of_nil.1 empty
        have whole : rule.body = rule.right := Rule.body_of_filled filled
        have plain : Symbol.terminal .epsilon ∉ right := fun occurs =>
          rule.epsilon_not_mem_body (variants_subset isRight occurs)
        have nonempty : right ≠ [] := by
          intro none
          rw [none] at yieldsRight
          exact empty yieldsRight.of_nil.1
        obtain ⟨shorter, left, same⟩ :
            ∃ shorter : Rule, shorter.left = rule.left ∧ shorter.right = right :=
          ⟨⟨rule.left, right, nonempty, fun _ => plain⟩, rfl, rfl⟩
        rw [whole, ← same] at isRight
        have shorterMember : shorter ∈ g.epsilonFree.rules :=
          mem_rules_epsilonFree_iff.2 ⟨rule, member, filled, left.symm, isRight⟩
        have bodySame : shorter.body = right := by
          rw [← same] at plain ⊢
          exact Rule.body_eq_right plain
        rw [← bodySame] at yieldsRight
        refine ⟨_, cons_mem_variants isVariant, shorter :: (innerFewer ++ fewer), ?_⟩
        rw [← left]
        exact .expand shorterMember yieldsRight yields

theorem EpsilonFree.body_eq_right (free : g.EpsilonFree) (member : rule ∈ g.rules) :
    rule.body = rule.right :=
  Rule.body_eq_right (free rule member)

theorem EpsilonFree.length_le (free : g.EpsilonFree) (yields : g.Yields symbols word rules)
    (plain : Symbol.terminal .epsilon ∉ symbols) : symbols.length ≤ word.length := by
  induction yields with
  | nil => exact Nat.le_refl _
  | skip => exact absurd List.mem_cons_self plain
  | scan c _ induction =>
      exact Nat.succ_le_succ (induction fun occurs => plain (List.mem_cons_of_mem _ occurs))
  | @expand rule member _ _ _ _ _ _ _ body behind =>
      have inner := body rule.epsilon_not_mem_body
      have outer := behind fun occurs => plain (List.mem_cons_of_mem _ occurs)
      rw [free.body_eq_right member] at inner
      have filled := List.length_pos_iff.2 rule.right_ne_nil
      rw [List.length_cons, List.length_append]
      omega

/-- Without its empty rules a grammar derives from a nonterminal the same words, less the empty
one. -/
theorem derivesWord_epsilonFree_iff {n : NonTerminal} :
    g.epsilonFree.DerivesWord [.nonterminal n] word ↔
      word ≠ [] ∧ g.DerivesWord [.nonterminal n] word := by
  rw [derivesWord_iff_yields, derivesWord_iff_yields]
  constructor
  · intro ⟨rules, yields⟩
    refine ⟨fun empty => ?_, yields.of_epsilonFree⟩
    have short := g.epsilonFree_epsilonFree.length_le yields (by simp)
    rw [empty] at short
    exact Nat.not_succ_le_zero _ short
  · intro ⟨nonempty, rules, yields⟩
    obtain ⟨variant, isVariant, fewer, yieldsVariant⟩ := yields.exists_variant
    have single : variant = [.nonterminal n] ∨ variant = [] := by
      simp only [variants] at isVariant
      split at isVariant
      · simpa using isVariant
      · exact .inl (by simpa using isVariant)
    rcases single with same | none
    · rw [same] at yieldsVariant
      exact ⟨fewer, yieldsVariant⟩
    · rw [none] at yieldsVariant
      exact absurd yieldsVariant.of_nil.1 nonempty

/-- Without its empty rules a grammar has the same words but the empty one. -/
theorem language_epsilonFree_iff : g.epsilonFree.Language word ↔ word ≠ [] ∧ g.Language word :=
  derivesWord_epsilonFree_iff

theorem EpsilonFree.isEpsilon_eq_false (free : g.EpsilonFree) (member : rule ∈ g.rules) :
    rule.isEpsilon = false := by
  apply beq_eq_false_iff_ne.2
  intro empty
  apply free rule member
  rw [empty]
  exact List.mem_cons_self

theorem EpsilonFree.isNullable_eq_false (free : g.EpsilonFree) (n : NonTerminal) :
    g.isNullable n = false := by
  apply Bool.eq_false_iff.2
  intro nullable
  obtain ⟨rules, yields⟩ := derivesWord_iff_yields.1 (isNullable_iff.1 nullable)
  exact Nat.not_succ_le_zero _ (free.length_le yields (by simp))

theorem mem_nullable_iff {n : NonTerminal} : n ∈ g.nullable ↔ g.isNullable n = true := by
  rw [nullable, SortedSet.mem_ofList, isNullable, Witnesses.proves_iff]

theorem EpsilonFree.nullable_eq_empty (free : g.EpsilonFree) : g.nullable = ∅ := by
  apply SortedSet.ext_of_mem
  intro n
  rw [mem_nullable_iff, free.isNullable_eq_false]
  simp

theorem EpsilonFree.variants_eq_singleton (free : g.EpsilonFree) (member : rule ∈ g.rules) :
    Rule.variants g.isDroppable rule = [rule] := by
  have kept : ∀ s ∈ rule.right, g.isDroppable s = false := by
    intro s _
    cases s with
    | terminal t => rfl
    | nonterminal n => exact free.isNullable_eq_false n
  have filled := free.isEpsilon_eq_false member
  rw [Rule.variants, if_neg (Bool.eq_false_iff.1 filled), StrongLL.variants_eq_singleton kept]
  simp [Rule.make_left_right, Except.toOption]

/-- A grammar over what is mentioned depends on its rules as a set. -/
theorem ofRules_congr {start : NonTerminal} {first second : List Rule}
    (same : ∀ rule, rule ∈ first ↔ rule ∈ second) : ofRules start first = ofRules start second := by
  have mentioned : ∀ s, s ∈ first.flatMap Rule.symbols ↔ s ∈ second.flatMap Rule.symbols := by
    intro s
    simp only [List.mem_flatMap, same]
  rw [ofRules, ofRules, Grammar.mk.injEq]
  refine ⟨SortedSet.ext_of_mem fun n => ?_, SortedSet.ext_of_mem fun t => ?_,
    SortedSet.ext_of_mem fun rule => ?_, rfl⟩
  · simp only [SortedSet.mem_ofList, List.mem_cons, List.mem_filterMap, mentioned]
  · simp only [SortedSet.mem_ofList, List.mem_filterMap, mentioned]
  · rw [SortedSet.mem_ofList, SortedSet.mem_ofList, same]

/-- Where no rule is empty, removing the empty rules leaves the rules as they are. -/
theorem EpsilonFree.epsilonFree_eq (free : g.EpsilonFree) :
    g.epsilonFree = ofRules g.start g.rules.toList := by
  have own : g.rules.toList.flatMap (Rule.variants g.isDroppable) = g.rules.toList := by
    rw [List.flatMap_congr fun rule member => free.variants_eq_singleton member]
    exact List.flatMap_singleton' _
  exact congrArg (ofRules g.start) own

/-- Removing the empty rules keeps, for every nonterminal, exactly the words that are not empty. The
start stays, no empty rule and no nullable nonterminal is left, and removing the empty rules once
more changes nothing. -/
theorem epsilonFree_loses_only_the_empty_word (g : Grammar) :
    (∀ n word, g.epsilonFree.DerivesWord [.nonterminal n] word ↔
        word ≠ [] ∧ g.DerivesWord [.nonterminal n] word) ∧
      g.epsilonFree.start = g.start ∧ (¬∃ rule ∈ g.epsilonFree.rules, rule.isEpsilon = true) ∧
      g.epsilonFree.nullable = ∅ ∧ g.epsilonFree.epsilonFree = g.epsilonFree := by
  have free := g.epsilonFree_epsilonFree
  refine ⟨fun n word => derivesWord_epsilonFree_iff, rfl, ?_, free.nullable_eq_empty, ?_⟩
  · rintro ⟨rule, member, empty⟩
    rw [free.isEpsilon_eq_false member] at empty
    exact nomatch empty
  · calc g.epsilonFree.epsilonFree
      _ = ofRules g.epsilonFree.start g.epsilonFree.rules.toList := free.epsilonFree_eq
      _ = g.epsilonFree := ofRules_congr fun _ => mem_rules_ofRules

end Grammar

end StrongLL
