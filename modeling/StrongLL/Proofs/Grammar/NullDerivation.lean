import StrongLL.Proofs.Derivation.Replay
import StrongLL.Proofs.Grammar.EpsilonFree
import StrongLL.Proofs.Lookahead.Growth

/-!
# Reading off a derivation of the empty word

`Witnesses.derivation?` recurses on the list of witnesses, so it uses the order in which they were
found. Here the derivation is read off by a loop that looks witnesses up by their left sides alone
and keeps the nonterminals that are still to be replaced on a stack. Nothing bounds it, and two
witnesses may belong to rules that lead into each other. It ends nevertheless: a nonterminal in the
body of a witness has its own witness further down the list, which the loop finds because left sides
do not repeat. The main statement is that the loop answers what the recursion answers, and that this
is a leftmost derivation of the empty word wherever there is one.
-/

namespace StrongLL

set_option autoImplicit false

theorem Rule.nonterminals_right (rule : Rule) :
    rule.right.filterMap Symbol.nonterminal? = rule.body.filterMap Symbol.nonterminal? := by
  unfold body
  split
  · next empty =>
      rw [beq_iff_eq.1 empty]
      rfl
  · rfl

namespace Witnesses

/-- The witness that is looked up for a nonterminal. -/
def witness? (witnesses : Witnesses) (n : NonTerminal) : Option Rule :=
  witnesses.find? (·.left == n)

/-- The loop over the pending nonterminals, the next one first. Each is replaced by the nonterminals
of its witness. There is no answer when the turns do not suffice, and the answer is none when a
nonterminal has no witness. -/
def unwind (witnesses : Witnesses) :
    Nat → List NonTerminal → List Rule → Option (Option (List Rule))
  | _, [], applied => some (some applied)
  | 0, _ :: _, _ => none
  | turns + 1, n :: pending, applied =>
      match witnesses.witness? n with
      | none => some none
      | some rule =>
          witnesses.unwind turns (rule.right.filterMap Symbol.nonterminal? ++ pending)
            (applied ++ [rule])

variable {g : Grammar} {witnesses earlier all : Witnesses} {rules : List Rule} {n : NonTerminal}

theorem unwind_of_witness {rule : Rule} (found : witnesses.witness? n = some rule) (turns : Nat)
    (pending : List NonTerminal) (applied : List Rule) :
    witnesses.unwind (turns + 1) (n :: pending) applied =
      witnesses.unwind turns (rule.body.filterMap Symbol.nonterminal? ++ pending)
        (applied ++ [rule]) := by
  rw [unwind, found, ← rule.nonterminals_right]

/-- The loop turns the nonterminal into nothing by these rules, whatever is pending behind it. -/
def Unwinds (witnesses : Witnesses) (n : NonTerminal) (rules : List Rule) : Prop :=
  ∀ turns pending applied, witnesses.unwind (turns + rules.length) (n :: pending) applied =
    witnesses.unwind turns pending (applied ++ rules)

theorem unwind_parts {f : NonTerminal → Option (List Rule)} {symbols : List NonTerminal}
    {parts : List (List Rule)} (mapped : symbols.mapM f = some parts)
    (each : ∀ n rules, f n = some rules → witnesses.Unwinds n rules) (turns : Nat)
    (pending : List NonTerminal) (applied : List Rule) :
    witnesses.unwind (turns + parts.flatten.length) (symbols ++ pending) applied =
      witnesses.unwind turns pending (applied ++ parts.flatten) := by
  induction symbols generalizing parts applied with
  | nil =>
      cases mapped
      simp
  | cons n symbols induction =>
      simp only [List.mapM_cons, Option.bind_eq_bind, Option.pure_def, Option.bind_eq_some_iff,
        Option.some.injEq] at mapped
      obtain ⟨first, known, rest, mappedRest, rfl⟩ := mapped
      have total : turns + (first :: rest).flatten.length =
          turns + rest.flatten.length + first.length := by
        rw [List.flatten_cons, List.length_append]
        omega
      rw [total, List.cons_append, each n first known, induction mappedRest, List.flatten_cons,
        List.append_assoc]

/-- Among all witnesses, each of the earlier ones is the one that is looked up. -/
def Visible (earlier all : Witnesses) : Prop :=
  ∀ n, earlier.proves n = true → all.witness? n = earlier.witness? n

theorem Visible.tail {rule : Rule} (visible : Visible (rule :: earlier) all)
    (new : earlier.proves rule.left = false) : Visible earlier all := by
  intro n proved
  have other : rule.left ≠ n := by
    intro same
    rw [same, proved] at new
    exact nomatch new
  have skipped : witness? (rule :: earlier) n = earlier.witness? n :=
    List.find?_cons_of_neg (by simpa using other)
  rw [← skipped]
  apply visible
  rw [proves_iff] at proved ⊢
  exact List.mem_cons_of_mem _ proved

/-- The loop follows the recursion. The induction is on the witnesses that the recursion has left,
while the loop looks all of them up. -/
theorem Grounded.unwinds (grounded : earlier.Grounded g) (visible : Visible earlier all)
    (found : earlier.derivation? n = some rules) : all.Unwinds n rules := by
  induction earlier generalizing n rules with
  | nil => exact nomatch found
  | cons rule earlier induction =>
      obtain ⟨_, _, new, below⟩ := grounded
      have later : ∀ m parts, derivation? earlier m = some parts → all.Unwinds m parts :=
        fun m parts known => induction below (visible.tail new) known
      rw [derivation?] at found
      by_cases same : rule.left = n
      · rw [if_pos same] at found
        obtain ⟨parts, mapped, rfl⟩ := Option.map_eq_some_iff.1 found
        have proved : proves (rule :: earlier) n = true := by
          rw [proves_iff, ← same]
          exact List.mem_cons_self
        have known : all.witness? n = some rule := by
          rw [visible n proved]
          exact List.find?_cons_of_pos (by simpa using same)
        intro turns pending applied
        calc all.unwind (turns + (rule :: parts.flatten).length) (n :: pending) applied
          _ = all.unwind (turns + parts.flatten.length)
                (rule.body.filterMap Symbol.nonterminal? ++ pending) (applied ++ [rule]) :=
              unwind_of_witness known _ pending applied
          _ = all.unwind turns pending (applied ++ [rule] ++ parts.flatten) :=
              unwind_parts mapped later turns pending _
          _ = all.unwind turns pending (applied ++ rule :: parts.flatten) := by
              rw [List.append_assoc, List.singleton_append]
      · rw [if_neg same] at found
        exact later n rules found

theorem Grounded.exists_unwind (grounded : witnesses.Grounded g) (n : NonTerminal) :
    ∃ turns, witnesses.unwind turns [n] [] = some (witnesses.derivation? n) := by
  cases found : witnesses.derivation? n with
  | some rules =>
      refine ⟨0 + rules.length, ?_⟩
      rw [grounded.unwinds (fun _ _ => rfl) found, List.nil_append, unwind]
  | none =>
      have absent : witnesses.witness? n = none := by
        apply List.find?_eq_none.2
        intro rule member same
        obtain ⟨rules, other, _⟩ := grounded.exists_derivation (n := n)
          (proves_iff.2 (List.mem_map.2 ⟨rule, member, beq_iff_eq.1 same⟩))
        rw [found] at other
        exact nomatch other
      exact ⟨1, by rw [unwind, absent]⟩

theorem consider_eq_of_length {rule : Rule}
    (same : (witnesses.consider rule).length = witnesses.length) :
    witnesses.consider rule = witnesses := by
  unfold consider at same ⊢
  split at same
  · simp at same
  · next refused => rw [if_neg refused]

theorem foldl_consider_eq_of_length
    (same : (rules.foldl consider witnesses).length = witnesses.length) :
    rules.foldl consider witnesses = witnesses := by
  induction rules with
  | nil => rfl
  | cons rule rules induction =>
      rw [List.foldl_cons] at same ⊢
      have grows := length_consider_le witnesses rule
      have later := length_foldl_le rules (witnesses.consider rule)
      have kept : witnesses.consider rule = witnesses := consider_eq_of_length (by omega)
      rw [kept] at same ⊢
      exact induction same

/-- Sweeps that go on for as long as they prove something new end with the witnesses. -/
theorem Grounded.stabilizes (grounded : witnesses.Grounded g) {sweeps : Nat}
    (enough : g.rules.size ≤ witnesses.length + sweeps) :
    Stabilizes (fun known => g.rules.toList.foldl Witnesses.consider known) witnesses
      (Witnesses.complete g.rules.toList sweeps witnesses) := by
  have swept := grounded.foldl fun rule (member : rule ∈ g.rules.toList) => member
  have grows := length_foldl_le g.rules.toList witnesses
  induction sweeps generalizing witnesses with
  | zero =>
      have limit := swept.length_le
      exact .still (foldl_consider_eq_of_length (by omega))
  | succ sweeps induction =>
      rw [Witnesses.complete]
      by_cases same : (g.rules.toList.foldl Witnesses.consider witnesses).length = witnesses.length
      · simp only [same, if_true]
        exact .still (foldl_consider_eq_of_length same)
      · simp only [same, if_false]
        refine .again (fun equal => same (congrArg List.length equal)) ?_
        exact induction swept (by omega) (swept.foldl fun rule member => member)
          (length_foldl_le _ _)

end Witnesses

namespace Grammar

/-- The nullable nonterminals are those that derive the empty word, among all names and not only
those of the grammar. The sweeps for them end, and so does the loop that reads a derivation off the
witnesses: it finds none exactly for a nonterminal that is not nullable, and otherwise rules of the
grammar that replay leftmost to the empty word. -/
theorem nullability_is_exact (g : Grammar) (n : NonTerminal) :
    (n ∈ g.nullable ↔ g.Derives [.nonterminal n] []) ∧
      Stabilizes (fun known => g.rules.toList.foldl Witnesses.consider known) [] g.witnesses ∧
      (∃ turns, g.witnesses.unwind turns [n] [] = some (g.nullDerivation n)) ∧
      (g.nullDerivation n = none ↔ n ∉ g.nullable) ∧
      ∀ rules, g.nullDerivation n = some rules →
        (∀ rule ∈ rules, rule ∈ g.rules) ∧ (Derivation.mk .leftmost rules).replay n = .ok [] := by
  have nullable_iff : n ∈ g.nullable ↔ g.DerivesWord [.nonterminal n] [] :=
    mem_nullable_iff.trans isNullable_iff
  refine ⟨nullable_iff, Witnesses.Grounded.stabilizes Witnesses.grounded_nil (Nat.le_add_left ..),
    g.grounded_witnesses.exists_unwind n, ?_, fun rules found => ?_⟩
  · rw [nullable_iff, ← exists_nullDerivation_iff, ← Option.ne_none_iff_exists', not_ne_iff]
  · have leftmost := yields_iff_leftmost.1 (yields_of_nullDerivation found)
    exact ⟨leftmost.mem_rules, leftmost.replays⟩

end Grammar

/-- Two nonterminals that lead into each other, one of them with an empty rule. -/
def entangled : Grammar :=
  .ofRules (.named "S")
    [⟨.named "S", [.nonterminal (.named "B"), .nonterminal (.named "A")], by simp, by simp⟩,
      ⟨.named "A", [.nonterminal (.named "B")], by simp, by simp⟩,
      ⟨.named "B", [.nonterminal (.named "A")], by simp, by simp⟩, .epsilon (.named "B")]

/-- The witness of `A` leads to `B`, whose own witness is the empty rule and not the way back. -/
theorem entangled_nullDerivation :
    entangled.Derives [.nonterminal (.named "S")] [] ∧
      ∃ rules, entangled.nullDerivation (.named "S") = some rules ∧
        rules.map (·.left) = [.named "S", .named "B", .named "A", .named "B"] ∧
        (∀ rule ∈ rules, rule ∈ entangled.rules) ∧
        (Derivation.mk .leftmost rules).replay (.named "S") = .ok [] := by
  obtain ⟨derives_iff, _, _, _, replays⟩ := entangled.nullability_is_exact (.named "S")
  refine ⟨derives_iff.1 (by decide), _, rfl, by decide, ?_⟩
  exact replays _ rfl

end StrongLL
