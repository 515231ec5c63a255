import Mathlib
import StrongLL.Proofs.Grammar.EpsilonFree
import StrongLL.Proofs.Lookahead.Follow

/-!
# FOLLOW sets and what can be reached

A nonterminal is reachable if it occurs in a sentential form. Reachability passes from the left side
of a rule to all nonterminals of its right side. FOLLOW sets pass only to those behind which the
rule has symbols that derive a word, so a nonterminal without a FOLLOW set need not be unreachable:
it may stand before symbols from which no word can be derived, wherever it occurs. Both ways of
passing on are one definition, with what is asked of the symbols behind as a parameter.
-/

namespace StrongLL

set_option autoImplicit false

namespace Grammar

/-- The nonterminal occurs in a sentential form. -/
def Reachable (g : Grammar) (n : NonTerminal) : Prop :=
  ∃ before behind, g.Derives [.nonterminal g.start] (before ++ .nonterminal n :: behind)

/-- Something is known to follow the nonterminal. -/
def HasFollow (g : Grammar) (k : Nat) (n : NonTerminal) : Prop :=
  ∃ set, (g.follow k).get? n = some set

/-- The symbols derive a word. -/
def Productive (g : Grammar) (symbols : List Symbol) : Prop := ∃ word, g.DerivesWord symbols word

/-- Occurrences lead from the start to the nonterminal, each in a rule of the one before it and with
symbols behind it that let pass. -/
inductive Linked (g : Grammar) (passes : List Symbol → Prop) : NonTerminal → Prop where
  | start : Linked g passes g.start
  | occurs {rule : Rule} (member : rule ∈ g.rules) (linked : Linked g passes rule.left)
      {n : NonTerminal} {behind : List Symbol} (occurs : (n, behind) ∈ occurrences rule.right)
      (passed : passes behind) : Linked g passes n

/-- Symbols let pass side by side what each of them lets pass, and a left side lets pass what the
body of one of its rules does. -/
structure Passable (g : Grammar) (passes : List Symbol → Prop) : Prop where
  nil : passes []
  append : ∀ first second, passes (first ++ second) ↔ passes first ∧ passes second
  rule : ∀ rule ∈ g.rules, passes rule.body → passes [.nonterminal rule.left]

variable {g : Grammar} {passes other : List Symbol → Prop} {n : NonTerminal} {k : Nat}

theorem Linked.mono (weaker : ∀ behind, passes behind → other behind)
    (linked : g.Linked passes n) : g.Linked other n := by
  induction linked with
  | start => exact .start
  | occurs member _ occurs passed induction =>
      exact .occurs member induction occurs (weaker _ passed)

theorem passable_productive (g : Grammar) : g.Passable g.Productive where
  nil := ⟨[], .refl []⟩
  append := by
    intro first second
    constructor
    · intro ⟨word, derives⟩
      rcases derives.split with ⟨front, back, _, derivesFirst, derivesSecond⟩
      exact ⟨⟨front, derivesFirst⟩, back, derivesSecond⟩
    · intro ⟨⟨front, derivesFirst⟩, back, derivesSecond⟩
      exact ⟨front ++ back, derivesFirst.append derivesSecond⟩
  rule := fun _ member ⟨word, derives⟩ => ⟨word, .of_rule member derives⟩

theorem passable_true (g : Grammar) : g.Passable fun _ => True where
  nil := trivial
  append := fun _ _ => (and_self_iff).symm
  rule := fun _ _ _ => trivial

/-- Every nonterminal of the form is linked, if the symbols behind it let pass. -/
def LinksThrough (g : Grammar) (passes : List Symbol → Prop) (form : SententialForm) : Prop :=
  ∀ before n behind, form = before ++ .nonterminal n :: behind → passes behind → g.Linked passes n

theorem linksThrough_start : g.LinksThrough passes [.nonterminal g.start] := by
  intro before n behind same _
  cases (eq_of_append_cons_eq_singleton same.symm).2.1
  exact .start

theorem Passable.linksThrough_step (passable : g.Passable passes) {form next : SententialForm}
    (links : g.LinksThrough passes form) (step : g.Step form next) :
    g.LinksThrough passes next := by
  intro before n behind same passed
  rcases step.occurrence_cases same with ⟨front, stays⟩ |
    ⟨rule, member, front, back, inner, rest, place, body, split⟩ |
    ⟨rule, member, middle, back, place, split⟩
  · exact links front n behind stays passed
  · -- The occurrence is in the new body, and its left side was linked.
    rw [split, passable.append] at passed
    have linked := links front rule.left back place passed.2
    have occurs : (n, rest) ∈ occurrences rule.right :=
      mem_occurrences_iff.2 ⟨inner, right_of_occurrence body⟩
    exact .occurs member linked occurs passed.1
  · -- The occurrence is before the body, for which the left side stood.
    rw [split, passable.append, passable.append] at passed
    rcases passed with ⟨inside, body, outside⟩
    apply links before n _ place
    rw [← List.singleton_append, passable.append, passable.append]
    exact ⟨inside, passable.rule rule member body, outside⟩

/-- A nonterminal is linked exactly if it occurs in some sentential form before symbols that let
pass. -/
theorem Passable.linked_iff (passable : g.Passable passes) :
    g.Linked passes n ↔ ∃ behind, g.Context n behind ∧ passes behind := by
  constructor
  · intro linked
    induction linked with
    | start => exact ⟨[], ⟨[], .refl _⟩, passable.nil⟩
    | occurs member _ occurs passed induction =>
        rcases induction with ⟨outer, context, outside⟩
        rcases mem_occurrences_iff.1 occurs with ⟨before, split⟩
        have body := (body_of_occurrence split).trans split
        exact ⟨_, context.of_rule member body, (passable.append _ _).2 ⟨passed, outside⟩⟩
  · intro ⟨behind, ⟨before, derives⟩, passed⟩
    have links := derives.step_induction (g.LinksThrough passes) linksThrough_start
      fun _ _ links step => passable.linksThrough_step links step
    exact links before n behind rfl passed

theorem hasFollow_iff_linked : g.HasFollow k n ↔ g.Linked g.Productive n := by
  rw [HasFollow, follow_known_iff, (passable_productive g).linked_iff]
  constructor
  · intro ⟨behind, word, context, derives⟩
    exact ⟨behind, context, word, derives⟩
  · intro ⟨behind, context, word, derives⟩
    exact ⟨behind, word, context, derives⟩

theorem reachable_iff_linked : g.Reachable n ↔ g.Linked (fun _ => True) n := by
  rw [(passable_true g).linked_iff]
  constructor
  · intro ⟨before, behind, derives⟩
    exact ⟨behind, ⟨before, derives⟩, trivial⟩
  · intro ⟨behind, ⟨before, derives⟩, _⟩
    exact ⟨before, behind, derives⟩

theorem HasFollow.reachable (known : g.HasFollow k n) : g.Reachable n :=
  reachable_iff_linked.2 ((hasFollow_iff_linked.1 known).mono fun _ _ => trivial)

theorem exists_occurrence {symbols : List Symbol} (occurs : .nonterminal n ∈ symbols) :
    ∃ behind, (n, behind) ∈ occurrences symbols := by
  rcases List.append_of_mem occurs with ⟨before, behind, split⟩
  exact ⟨behind, mem_occurrences_iff.2 ⟨before, split⟩⟩

theorem mem_of_occurrence {symbols behind : List Symbol}
    (occurs : (n, behind) ∈ occurrences symbols) : .nonterminal n ∈ symbols := by
  rcases mem_occurrences_iff.1 occurs with ⟨before, split⟩
  rw [split]
  exact List.mem_append_right before List.mem_cons_self

theorem Reachable.of_rule {rule : Rule} (member : rule ∈ g.rules) (reached : g.Reachable rule.left)
    (occurs : .nonterminal n ∈ rule.right) : g.Reachable n := by
  rcases exists_occurrence occurs with ⟨behind, place⟩
  exact reachable_iff_linked.2 (.occurs member (reachable_iff_linked.1 reached) place trivial)

/-- All that is reachable has a FOLLOW set exactly if every right side passes it on to all of its
nonterminals. -/
theorem hasFollow_iff_reachable_iff : (∀ n, g.HasFollow k n ↔ g.Reachable n) ↔
    ∀ rule ∈ g.rules, g.HasFollow k rule.left →
      ∀ n, .nonterminal n ∈ rule.right → g.HasFollow k n := by
  constructor
  · intro same rule member known n occurs
    exact (same n).2 (known.reachable.of_rule member occurs)
  · intro passes n
    refine ⟨HasFollow.reachable, fun reached => ?_⟩
    induction reachable_iff_linked.1 reached with
    | start => exact hasFollow_iff_linked.2 .start
    | occurs member linked occurs _ induction =>
        have known := induction (reachable_iff_linked.2 linked)
        exact passes _ member known _ (mem_of_occurrence occurs)

/-- A FOLLOW set is known exactly of what is linked to the start by occurrences with productive
symbols behind them, and what is reachable is linked to it by any occurrences. So only reachable
nonterminals have FOLLOW sets. All of them have one exactly if every rule whose left side has one
passes it on to all nonterminals of its right side, and so they do if in no rule of a reachable left
side a nonterminal stands before symbols that derive no word. -/
theorem follow_sets_and_reachability (g : Grammar) (k : Nat) :
    (∀ n, g.HasFollow k n ↔ g.Linked g.Productive n) ∧
      (∀ n, g.Reachable n ↔ g.Linked (fun _ => True) n) ∧
      (∀ n, g.HasFollow k n → g.Reachable n) ∧
      ((∀ n, g.HasFollow k n ↔ g.Reachable n) ↔ ∀ rule ∈ g.rules, g.HasFollow k rule.left →
        ∀ n, .nonterminal n ∈ rule.right → g.HasFollow k n) ∧
      ((∀ rule ∈ g.rules, g.Reachable rule.left → ∀ n behind,
          (n, behind) ∈ occurrences rule.right → g.Productive behind) →
        ∀ n, g.HasFollow k n ↔ g.Reachable n) := by
  refine ⟨fun _ => hasFollow_iff_linked, fun _ => reachable_iff_linked,
    fun _ => HasFollow.reachable, hasFollow_iff_reachable_iff, fun productive => ?_⟩
  apply hasFollow_iff_reachable_iff.2
  intro rule member known n occurs
  rcases exists_occurrence occurs with ⟨behind, place⟩
  have passed := productive rule member known.reachable n behind place
  exact hasFollow_iff_linked.2 (.occurs member (hasFollow_iff_linked.1 known) place passed)

/-- `X` derives no word but can be reached, and `Y` derives one but cannot. -/
def looping : Grammar :=
  ofRules (.named "S")
    [⟨.named "S", [.terminal (.char 'p')], by simp, by simp⟩,
      ⟨.named "S", [.nonterminal (.named "X")], by simp, by simp⟩,
      ⟨.named "X", [.terminal (.char 'p'), .nonterminal (.named "X")], by simp, by simp⟩,
      ⟨.named "Y", [.terminal (.char 'q')], by simp, by simp⟩]

/-- No nonterminal stands before anything, so the FOLLOW sets tell that `X` is reachable and that
`Y` is not. -/
theorem looping_follow_tells_what_is_reachable :
    (∀ rule ∈ looping.rules, looping.Reachable rule.left → ∀ n behind,
        (n, behind) ∈ occurrences rule.right → looping.Productive behind) ∧
      looping.Reachable (.named "X") ∧ ¬looping.Reachable (.named "Y") := by
  have last : ∀ rule ∈ looping.rules.toList, ∀ occurrence ∈ occurrences rule.right,
      occurrence.2 = [] := by
    decide +kernel
  have productive : ∀ rule ∈ looping.rules, looping.Reachable rule.left → ∀ n behind,
      (n, behind) ∈ occurrences rule.right → looping.Productive behind := by
    intro rule member _ n behind occurs
    rw [show behind = [] from last rule member (n, behind) occurs]
    exact (passable_productive looping).nil
  have tells := (follow_sets_and_reachability looping 1).2.2.2.2 productive
  have known : (looping.follow 1).get? (.named "X") = some .epsilon := by
    cbv
  have unknown : (looping.follow 1).get? (.named "Y") = none := by
    cbv
  refine ⟨productive, (tells (.named "X")).1 ⟨_, known⟩, fun reached => ?_⟩
  rcases (tells (.named "Y")).2 reached with ⟨set, found⟩
  rw [unknown] at found
  cases found

/-- `A` is reachable, but only before `X`, which derives no word. -/
def trailed : Grammar :=
  ofRules (.named "S")
    [⟨.named "S", [.nonterminal (.named "A"), .nonterminal (.named "X")], by simp, by simp⟩,
      ⟨.named "S", [.terminal (.char 'p')], by simp, by simp⟩,
      ⟨.named "A", [.terminal (.char 'q')], by simp, by simp⟩,
      ⟨.named "X", [.nonterminal (.named "X"), .terminal (.char 'r')], by simp, by simp⟩]

theorem follow_can_miss_a_reachable_nonterminal :
    ¬(trailed.HasFollow 1 (.named "A") ↔ trailed.Reachable (.named "A")) := by
  intro same
  let rule : Rule :=
    ⟨.named "S", [.nonterminal (.named "A"), .nonterminal (.named "X")], by simp, by simp⟩
  have member : rule ∈ trailed.rules := mem_rules_ofRules.2 List.mem_cons_self
  have start : trailed.Reachable rule.left := ⟨[], [], .refl _⟩
  have unknown : (trailed.follow 1).get? (.named "A") = none := by
    cbv
  rcases same.2 (start.of_rule member List.mem_cons_self) with ⟨set, found⟩
  rw [unknown] at found
  cases found

end Grammar

end StrongLL
