import Mathlib.Data.List.Perm.Subperm
import StrongLL.Grammar.Basic

/-!
# Unit rules

A unit rule puts one nonterminal in the place of another, so it changes neither how many symbols
there are nor how many of them are terminals. Every other rule adds to one of the two. A run of
different unit rules is no longer than there are unit rules.
-/

namespace StrongLL

set_option autoImplicit false

/-- The number of terminals among the symbols. -/
def terminalCount (symbols : List Symbol) : Nat := symbols.countP fun s => !s.isNonTerminal

theorem terminalCount_append (first second : List Symbol) :
    terminalCount (first ++ second) = terminalCount first + terminalCount second :=
  List.countP_append

theorem terminalCount_terminal (t : Terminal) (symbols : List Symbol) :
    terminalCount (.terminal t :: symbols) = terminalCount symbols + 1 :=
  List.countP_cons_of_pos rfl

theorem terminalCount_nonterminal (n : NonTerminal) (symbols : List Symbol) :
    terminalCount (.nonterminal n :: symbols) = terminalCount symbols :=
  List.countP_cons_of_neg (by simp [Symbol.isNonTerminal])

theorem terminalCount_le_length (symbols : List Symbol) : terminalCount symbols ≤ symbols.length :=
  List.countP_le_length

/-- What is left of a path that may take `limit` unit rules after every move that lowers the rank. -/
def rankLeft (limit rank units : Nat) : Nat := rank * (limit + 1) + (limit - units)

theorem rankLeft_lt_of_rank {limit rank lower : Nat} (less : lower < rank) (units later : Nat) :
    rankLeft limit lower later < rankLeft limit rank units := by
  have steps := Nat.mul_le_mul_right (limit + 1) (Nat.succ_le_of_lt less)
  rw [Nat.succ_mul] at steps
  unfold rankLeft
  omega

theorem rankLeft_lt_of_unit {limit rank units : Nat} (short : units < limit) :
    rankLeft limit rank (units + 1) < rankLeft limit rank units := by
  unfold rankLeft
  omega

namespace Rule

variable {rule : Rule}

theorem exists_right_of_isUnit (unit : rule.isUnit = true) :
    ∃ n, rule.right = [.nonterminal n] := by
  unfold isUnit at unit
  split at unit
  · next n same => exact ⟨n, same⟩
  · exact nomatch unit

theorem two_le_of_not_isUnit (wide : rule.isUnit = false) :
    2 ≤ rule.right.length + terminalCount rule.right := by
  unfold isUnit at wide
  match same : rule.right with
  | [] => exact absurd same rule.right_ne_nil
  | [.nonterminal n] => simp [same] at wide
  | [.terminal t] =>
      rw [terminalCount_terminal, List.length_singleton]
      omega
  | first :: second :: rest =>
      rw [List.length_cons, List.length_cons]
      omega

theorem length_of_isUnit (unit : rule.isUnit = true) :
    rule.right.length = 1 ∧ terminalCount rule.right = 0 := by
  obtain ⟨n, same⟩ := exists_right_of_isUnit unit
  rw [same]
  exact ⟨rfl, terminalCount_nonterminal n []⟩

theorem uncut_iff {limit units : Nat} :
    (rule.isUnit && decide (limit ≤ units)) = false ↔ (rule.isUnit = true → units < limit) := by
  cases rule.isUnit with
  | false => simp
  | true => simp

theorem count_le {limit units : Nat} (room : rule.isUnit = true → units < limit) :
    (if rule.isUnit then units + 1 else 0) ≤ limit := by
  cases unit : rule.isUnit with
  | false => exact Nat.zero_le limit
  | true => exact room unit

end Rule

namespace Grammar

theorem length_le_unitCount {g : Grammar} {run : List Rule} (distinct : run.Nodup)
    (units : ∀ rule ∈ run, rule ∈ g.rules ∧ rule.isUnit = true) : run.length ≤ g.unitCount := by
  rw [unitCount, List.countP_eq_length_filter]
  apply distinct.length_le_of_subset
  intro rule occurs
  exact List.mem_filter.2 (units rule occurs)

/-- Different unit rules that were used one after another. To use any of them again would cost more
than what is still to come. -/
structure UnitRun (g : Grammar) (costs : Rule → Nat → Prop) (count : Nat) (run : List Rule) :
    Prop where
  distinct : run.Nodup
  units : ∀ rule ∈ run, rule ∈ g.rules ∧ rule.isUnit = true
  dearer : ∀ rule ∈ run, ∀ cost, costs rule cost → count < cost

theorem unitRun_nil {g : Grammar} {costs : Rule → Nat → Prop} {count : Nat} :
    g.UnitRun costs count [] :=
  ⟨List.nodup_nil, nofun, nofun⟩

/-- A unit rule that is used where it is cheapest was not used in the run before, so there was room
for it. -/
theorem UnitRun.extend {g : Grammar} {costs : Rule → Nat → Prop} {count : Nat} {run : List Rule}
    {rule : Rule} (before : g.UnitRun costs (count + 1) run) (member : rule ∈ g.rules)
    (unit : rule.isUnit = true) (cost : costs rule (count + 1))
    (cheapest : ∀ other, costs rule other → count + 1 ≤ other) :
    run.length < g.unitCount ∧ g.UnitRun costs count (rule :: run) := by
  have unused : rule ∉ run := fun used => Nat.lt_irrefl _ (before.dearer rule used _ cost)
  have after : g.UnitRun costs count (rule :: run) :=
    { distinct := List.nodup_cons.2 ⟨unused, before.distinct⟩
      units := List.forall_mem_cons.2 ⟨⟨member, unit⟩, before.units⟩
      dearer := by
        intro other occurs cost known
        rcases List.mem_cons.1 occurs with same | used
        · exact cheapest cost (same ▸ known)
        · exact Nat.lt_of_succ_lt (before.dearer other used cost known) }
  exact ⟨length_le_unitCount after.distinct after.units, after⟩

theorem length_rulesOf_le (g : Grammar) (n : NonTerminal) : (g.rulesOf n).length ≤ g.rules.size :=
  List.length_filter_le ..

end Grammar

end StrongLL
