import StrongLL.Symbol.Basic

/-!
# The order of symbols

Spellings are compared character by character, by code point, and every terminal stands before every
nonterminal. The empty word keeps the place of its three letters: right after `e`.
-/

namespace StrongLL

set_option autoImplicit false

open Std

/-- The place of a terminal among the terminals. Characters take the even places, which leaves one
between `e` and `f` for the empty word. -/
def Terminal.rank : Terminal → Nat
  | epsilon => 2 * 'e'.toNat + 1
  | char c => 2 * c.toNat

theorem Terminal.rank_injective {left right : Terminal} (same : left.rank = right.rank) :
    left = right := by
  cases left with
  | epsilon =>
    cases right with
    | epsilon => rfl
    | char d => simp only [rank] at same; omega
  | char c =>
    cases right with
    | epsilon => simp only [rank] at same; omega
    | char d =>
      have points : c.toNat = d.toNat := by simp only [rank] at same; omega
      exact congrArg char (Char.toNat_inj.1 points)

instance : Ord Terminal := ⟨compareOn Terminal.rank⟩

instance : TransOrd Terminal := inferInstanceAs (TransCmp (compareOn Terminal.rank))

instance : LawfulEqOrd Terminal where
  eq_of_compare equal := Terminal.rank_injective (LawfulEqOrd.eq_of_compare (α := Nat) equal)

instance : Ord NonTerminal := ⟨compareOn NonTerminal.name⟩

instance : TransOrd NonTerminal := inferInstanceAs (TransCmp (compareOn NonTerminal.name))

instance : LawfulEqOrd NonTerminal where
  eq_of_compare equal := NonTerminal.ext (LawfulEqOrd.eq_of_compare (α := String) equal)

def Symbol.compare : Symbol → Symbol → Ordering
  | terminal s, terminal t => Ord.compare s t
  | terminal _, nonterminal _ => .lt
  | nonterminal _, terminal _ => .gt
  | nonterminal m, nonterminal n => Ord.compare m n

instance : Ord Symbol := ⟨Symbol.compare⟩

instance : TransOrd Symbol where
  eq_swap {left right} := by
    cases left <;> cases right
    · exact OrientedOrd.eq_swap (α := Terminal)
    · rfl
    · rfl
    · exact OrientedOrd.eq_swap (α := NonTerminal)
  isLE_trans {left middle right} first second := by
    cases left <;> cases middle <;> cases right <;> simp_all [Ord.compare, Symbol.compare]
    · exact TransCmp.isLE_trans first second
    · exact TransCmp.isLE_trans first second

instance : LawfulEqOrd Symbol where
  eq_of_compare {left right} equal := by
    cases left <;> cases right
    · exact congrArg Symbol.terminal (LawfulEqOrd.eq_of_compare (α := Terminal) equal)
    · exact nomatch equal
    · exact nomatch equal
    · exact congrArg Symbol.nonterminal (LawfulEqOrd.eq_of_compare (α := NonTerminal) equal)

end StrongLL
