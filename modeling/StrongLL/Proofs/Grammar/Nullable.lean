import Mathlib.Data.List.Nodup
import StrongLL.Grammar.Nullable
import StrongLL.Proofs.Derivation.Yields

/-!
# Witnesses are complete

A witness has a body of nonterminals with earlier witnesses, so a derivation of the empty word is
read off the list. In the other direction a derivation of the empty word is a tree whose leaves are
empty rules, and witnesses that no sweep adds to prove everything on the way from the leaves to the
root. A sweep that adds something adds a left side that was not there before: after as many sweeps
as there are rules nothing is left to add.
-/

namespace StrongLL

set_option autoImplicit false

namespace Witnesses

/-- Every witness stands on earlier ones and proves something new. -/
def Grounded (g : Grammar) : Witnesses → Prop
  | [] => True
  | rule :: earlier =>
      rule ∈ g.rules ∧ supports earlier rule = true ∧ proves earlier rule.left = false ∧
        Grounded g earlier

/-- No rule is left to take. -/
def Closed (g : Grammar) (witnesses : Witnesses) : Prop :=
  ∀ rule ∈ g.rules, witnesses.supports rule = true → witnesses.proves rule.left = true

variable {g : Grammar} {witnesses : Witnesses} {rules : List Rule}

theorem proves_iff {n : NonTerminal} : witnesses.proves n = true ↔ n ∈ witnesses.map Rule.left := by
  simp [proves]

theorem supports_iff {rule : Rule} : witnesses.supports rule = true ↔
    ∀ s ∈ rule.body, ∃ n, s = .nonterminal n ∧ witnesses.proves n = true := by
  simp only [supports, List.all_eq_true]
  constructor
  · intro all s occurs
    have proved := all s occurs
    cases s with
    | terminal t => exact nomatch proved
    | nonterminal n => exact ⟨n, rfl, proved⟩
  · intro all s occurs
    obtain ⟨n, rfl, proved⟩ := all s occurs
    exact proved

theorem grounded_nil : Grounded g [] := trivial

theorem Grounded.consider {rule : Rule} (grounded : witnesses.Grounded g)
    (member : rule ∈ g.rules) :
    (witnesses.consider rule).Grounded g := by
  unfold Witnesses.consider
  by_cases taken : (!witnesses.proves rule.left && witnesses.supports rule) = true
  · rw [if_pos taken]
    rw [Bool.and_eq_true, Bool.not_eq_true'] at taken
    exact ⟨member, taken.2, taken.1, grounded⟩
  · rw [if_neg taken]
    exact grounded

theorem Grounded.foldl (grounded : witnesses.Grounded g)
    (members : ∀ rule ∈ rules, rule ∈ g.rules) :
    Grounded g (rules.foldl Witnesses.consider witnesses) := by
  induction rules generalizing witnesses with
  | nil => exact grounded
  | cons rule rules induction =>
      obtain ⟨first, later⟩ := List.forall_mem_cons.1 members
      exact induction (grounded.consider first) later

theorem Grounded.complete (grounded : witnesses.Grounded g) (sweeps : Nat) :
    (Witnesses.complete g.rules.toList sweeps witnesses).Grounded g := by
  induction sweeps generalizing witnesses with
  | zero => exact grounded
  | succ sweeps induction =>
      rw [Witnesses.complete]
      by_cases same : (g.rules.toList.foldl Witnesses.consider witnesses).length = witnesses.length
      · simp only [same, if_true]
        exact grounded
      · simp only [same, if_false]
        exact induction (grounded.foldl fun rule member => member)

theorem Grounded.nodup (grounded : witnesses.Grounded g) : (witnesses.map Rule.left).Nodup := by
  induction witnesses with
  | nil => exact List.nodup_nil
  | cons rule earlier induction =>
      obtain ⟨_, _, new, below⟩ := grounded
      apply List.nodup_cons.2
      refine ⟨fun found => ?_, induction below⟩
      rw [proves_iff.2 found] at new
      exact nomatch new

theorem Grounded.subset (grounded : witnesses.Grounded g) : ∀ rule ∈ witnesses, rule ∈ g.rules := by
  induction witnesses with
  | nil => exact fun _ member => absurd member List.not_mem_nil
  | cons rule earlier induction =>
      exact List.forall_mem_cons.2 ⟨grounded.1, induction grounded.2.2.2⟩

theorem Grounded.length_le (grounded : witnesses.Grounded g) : witnesses.length ≤ g.rules.size :=
  (List.Nodup.of_map Rule.left grounded.nodup).length_le_of_subset grounded.subset

theorem length_consider_le (witnesses : Witnesses) (rule : Rule) : 
    witnesses.length ≤ (witnesses.consider rule).length := by
  unfold consider
  split <;> simp

theorem length_foldl_le (rules : List Rule) (witnesses : Witnesses) :
    witnesses.length ≤ (rules.foldl consider witnesses).length := by
  induction rules generalizing witnesses with
  | nil => exact Nat.le_refl _
  | cons rule rules induction =>
      exact Nat.le_trans (length_consider_le witnesses rule) (induction _)

theorem not_taken_of_length {rule : Rule}
    (same : (witnesses.consider rule).length = witnesses.length) :
    witnesses.supports rule = true → witnesses.proves rule.left = true := by
  intro supported
  unfold consider at same
  cases proved : witnesses.proves rule.left with
  | true => rfl
  | false => simp [proved, supported] at same

theorem closed_of_length (same : (rules.foldl consider witnesses).length = witnesses.length) :
    ∀ rule ∈ rules, witnesses.supports rule = true → witnesses.proves rule.left = true := by
  induction rules with
  | nil => exact fun _ member => absurd member List.not_mem_nil
  | cons rule rules induction =>
      rw [List.foldl_cons] at same
      have grows := length_consider_le witnesses rule
      have later := length_foldl_le rules (witnesses.consider rule)
      have kept : (witnesses.consider rule).length = witnesses.length := by omega
      have unchanged : witnesses.consider rule = witnesses := by
        unfold consider at kept ⊢
        split at kept
        · simp at kept
        · next refused => rw [if_neg refused]
      rw [unchanged] at same
      exact List.forall_mem_cons.2 ⟨not_taken_of_length kept, induction same⟩

theorem closed_complete (grounded : witnesses.Grounded g) {sweeps : Nat}
    (enough : g.rules.size ≤ witnesses.length + sweeps) :
    (complete g.rules.toList sweeps witnesses).Closed g := by
  induction sweeps generalizing witnesses with
  | zero =>
      have swept : (g.rules.toList.foldl consider witnesses).length ≤ g.rules.size :=
        (grounded.foldl fun rule member => member).length_le
      have grows := length_foldl_le g.rules.toList witnesses
      rw [complete]
      exact closed_of_length (by omega)
  | succ sweeps induction =>
      rw [complete]
      by_cases same : (g.rules.toList.foldl consider witnesses).length = witnesses.length
      · simp only [same, if_true]
        exact closed_of_length same
      · simp only [same, if_false]
        have grows := length_foldl_le g.rules.toList witnesses
        exact induction (grounded.foldl fun rule member => member) (by omega)

theorem exists_parts {earlier : Witnesses} {symbols : List Symbol}
    (each : ∀ n, earlier.proves n = true →
      ∃ rules, earlier.derivation? n = some rules ∧ g.Yields [.nonterminal n] [] rules)
    (all : ∀ s ∈ symbols, ∃ n, s = .nonterminal n ∧ earlier.proves n = true) :
    ∃ parts, (symbols.filterMap Symbol.nonterminal?).mapM earlier.derivation? = some parts ∧
      g.Yields symbols [] parts.flatten := by
  induction symbols with
  | nil => exact ⟨[], rfl, .nil⟩
  | cons s symbols induction =>
      obtain ⟨head, tail⟩ := List.forall_mem_cons.1 all
      obtain ⟨n, rfl, proved⟩ := head
      obtain ⟨rules, found, yields⟩ := each n proved
      obtain ⟨parts, listed, yieldsTail⟩ := induction tail
      refine ⟨rules :: parts, ?_, ?_⟩
      · rw [List.filterMap_cons_some (f := Symbol.nonterminal?) rfl, List.mapM_cons, found, listed]
        rfl
      · exact yields.append yieldsTail

theorem Grounded.exists_derivation (grounded : witnesses.Grounded g) {n : NonTerminal}
    (proved : witnesses.proves n = true) :
    ∃ rules, witnesses.derivation? n = some rules ∧ g.Yields [.nonterminal n] [] rules := by
  induction witnesses generalizing n with
  | nil => exact nomatch proved
  | cons rule earlier induction =>
      obtain ⟨member, supported, _, below⟩ := grounded
      by_cases same : rule.left = n
      · obtain ⟨parts, listed, yields⟩ :=
          exists_parts (fun _ => induction below) (supports_iff.1 supported)
        refine ⟨rule :: parts.flatten, ?_, ?_⟩
        · rw [derivation?, if_pos same, listed]
          rfl
        · rw [← same]
          exact .of_rule member yields
      · rw [derivation?, if_neg same]
        apply induction below
        rw [proves_iff] at proved ⊢
        exact (List.mem_cons.1 proved).resolve_left fun equal => same equal.symm

theorem proves_of_derivation {n : NonTerminal} (found : witnesses.derivation? n = some rules) :
    witnesses.proves n = true := by
  induction witnesses generalizing rules with
  | nil => exact nomatch found
  | cons rule earlier induction =>
      rw [proves_iff, List.map_cons]
      rw [derivation?] at found
      by_cases same : rule.left = n
      · rw [same]
        exact List.mem_cons_self
      · rw [if_neg same] at found
        exact List.mem_cons_of_mem _ (proves_iff.1 (induction found))

/-- Symbols that yield the empty word are proved, if no rule is left to take. -/
theorem Closed.proves_of_yields (closed : witnesses.Closed g) {symbols : List Symbol} {word : Text}
    (yields : g.Yields symbols word rules) (empty : word = []) :
    ∀ s ∈ symbols, s ≠ .terminal .epsilon → ∃ n, s = .nonterminal n ∧ witnesses.proves n = true := by
  induction yields with
  | nil => exact fun _ member => absurd member List.not_mem_nil
  | skip _ induction =>
      exact List.forall_mem_cons.2 ⟨fun plain => absurd rfl plain, induction empty⟩
  | scan c _ _ => exact nomatch empty
  | @expand rule member _ _ _ _ _ _ _ body behind =>
      obtain ⟨emptyInner, emptyWord⟩ := List.append_eq_nil_iff.1 empty
      refine List.forall_mem_cons.2 ⟨fun _ => ⟨rule.left, rfl, ?_⟩, behind emptyWord⟩
      apply closed rule member
      apply supports_iff.2
      intro s occurs
      exact body emptyInner s occurs fun same => rule.epsilon_not_mem_body (same ▸ occurs)

end Witnesses

namespace Grammar

variable {g : Grammar} {n : NonTerminal} {rules : List Rule}

theorem grounded_witnesses (g : Grammar) : g.witnesses.Grounded g :=
  Witnesses.grounded_nil.complete g.rules.size

theorem closed_witnesses (g : Grammar) : g.witnesses.Closed g :=
  Witnesses.closed_complete Witnesses.grounded_nil (Nat.le_add_left ..)

theorem isNullable_of_yields (yields : g.Yields [.nonterminal n] [] rules) :
    g.isNullable n = true := by
  obtain ⟨m, same, proved⟩ :=
    g.closed_witnesses.proves_of_yields yields rfl (.nonterminal n) List.mem_cons_self nofun
  cases same
  exact proved

/-- The nullable nonterminals are those that derive the empty word. -/
theorem isNullable_iff : g.isNullable n = true ↔ g.DerivesWord [.nonterminal n] [] := by
  rw [derivesWord_iff_yields]
  constructor
  · intro proved
    obtain ⟨rules, _, yields⟩ := g.grounded_witnesses.exists_derivation proved
    exact ⟨rules, yields⟩
  · exact fun ⟨_, yields⟩ => isNullable_of_yields yields

theorem yields_of_nullDerivation (found : g.nullDerivation n = some rules) :
    g.Yields [.nonterminal n] [] rules := by
  obtain ⟨others, foundOthers, yields⟩ :=
    g.grounded_witnesses.exists_derivation (Witnesses.proves_of_derivation found)
  rw [nullDerivation, foundOthers] at found
  cases found
  exact yields

theorem exists_nullDerivation_iff :
    (∃ rules, g.nullDerivation n = some rules) ↔ g.DerivesWord [.nonterminal n] [] := by
  rw [← isNullable_iff]
  constructor
  · exact fun ⟨_, found⟩ => Witnesses.proves_of_derivation found
  · intro proved
    obtain ⟨rules, found, _⟩ := g.grounded_witnesses.exists_derivation proved
    exact ⟨rules, found⟩

end Grammar

end StrongLL
