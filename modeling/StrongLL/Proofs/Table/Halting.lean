import Mathlib
import StrongLL.Proofs.Table.LeftCorners
import StrongLL.Proofs.Table.Turns

/-!
# The table machine halts

Expanding a nonterminal puts the body of a rule on the stack, and the next nonterminal to be
expanded is one of its left corners for as long as nothing is read. Left corners lead on to fewer
left corners, so the expansions before one character are the inner nodes of a tree that is no
deeper than there are nonterminals and no wider than the widest body. The patience of a run is the
number of nodes of such a tree: it does not run out on a table that was built, so the loop halts.
-/

namespace StrongLL

set_option autoImplicit false

namespace Table

/-- The expansion ends within the steps. -/
def Settles (table : Table) (position : Nat) (lookahead : Tuple) (steps : Nat)
    (stack : List Symbol) : Prop :=
  table.expand position lookahead steps stack ≠ .error .noDerivation

variable {g : Grammar} {k : Nat} {table : Table} {position steps : Nat} {lookahead : Tuple}
  {stack : List Symbol} {n : NonTerminal}

theorem settles_nil : table.Settles position lookahead steps [] := by
  rw [Settles, expand]
  exact nofun

theorem settles_char {c : Char} :
    table.Settles position lookahead steps (.terminal (.char c) :: stack) := by
  rw [Settles, expand]
  exact nofun

theorem settles_epsilon (settles : table.Settles position lookahead steps stack) :
    table.Settles position lookahead (steps + 1) (.terminal .epsilon :: stack) := by
  rw [Settles, expand]
  exact settles

theorem settles_nonterminal
    (settles : ∀ selected, table.select? n lookahead = some selected →
      table.Settles position lookahead steps (selected.rule.body ++ stack)) :
    table.Settles position lookahead (steps + 1) (.nonterminal n :: stack) := by
  cases found : table.select? n lookahead with
  | none => simp [Settles, expand, found]
  | some selected =>
      have inner := settles selected found
      rw [Settles] at inner ⊢
      simp only [expand, found]
      cases expanded : table.expand position lookahead steps (selected.rule.body ++ stack) with
      | ok pause => simp [Except.map]
      | error cause =>
          rw [expanded] at inner
          exact inner

theorem Settles.mono {more : Nat} (settles : table.Settles position lookahead steps stack)
    (enough : steps ≤ more) : table.Settles position lookahead more stack := by
  induction steps generalizing more stack with
  | zero =>
      match stack with
      | [] => exact settles_nil
      | .terminal (.char c) :: stack => exact settles_char
      | .terminal .epsilon :: stack => simp [Settles, expand] at settles
      | .nonterminal n :: stack => simp [Settles, expand] at settles
  | succ steps induction =>
      obtain ⟨more, rfl⟩ : ∃ fewer, more = fewer + 1 := ⟨more - 1, by omega⟩
      match stack with
      | [] => exact settles_nil
      | .terminal (.char c) :: stack => exact settles_char
      | .terminal .epsilon :: stack =>
          rw [Settles, expand] at settles
          exact settles_epsilon (induction settles (by omega))
      | .nonterminal n :: stack =>
          apply settles_nonterminal
          intro selected found
          apply induction _ (by omega)
          intro given
          apply settles
          simp only [expand, found, given]
          rfl

theorem le_foldl_max (items : List Nat) (start : Nat) :
    start ≤ items.foldl max start ∧ ∀ item ∈ items, item ≤ items.foldl max start := by
  induction items generalizing start with
  | nil => exact ⟨Nat.le_refl _, fun _ member => absurd member List.not_mem_nil⟩
  | cons item items induction =>
      obtain ⟨first, rest⟩ := induction (max start item)
      rw [List.foldl_cons]
      refine ⟨by omega, fun other member => ?_⟩
      rcases List.mem_cons.1 member with same | later
      · omega
      · exact rest other later

theorem length_body_le_widest {selected : AppliedRule}
    (found : table.order.rule? selected.index = some selected.rule) :
    selected.rule.body.length ≤ table.widest := by
  have member : selected.rule ∈ table.order.rules.toList := List.mem_of_getElem? found
  exact (le_foldl_max _ 0).2 _ (List.mem_map.2 ⟨_, member, rfl⟩)

/-- A block settles within a fixed cost for each symbol, if that is enough for the nonterminals that
come to the top before anything is read. -/
theorem settles_append {cost : Nat} (positive : 0 < cost) (block : List Symbol)
    (each : ∀ before n behind, block = before ++ .nonterminal n :: behind →
      g.DerivesWord before [] →
      ∀ steps stack, (g.DerivesWord [.nonterminal n] [] →
        table.Settles position lookahead steps stack) →
      table.Settles position lookahead (steps + cost) (.nonterminal n :: stack))
    (settles : g.DerivesWord block [] → table.Settles position lookahead steps stack) :
    table.Settles position lookahead (steps + block.length * cost) (block ++ stack) := by
  induction block with
  | nil => exact (settles (.refl [])).mono (Nat.le_add_right ..)
  | cons s block induction =>
      have later : g.DerivesWord [s] [] →
          table.Settles position lookahead (steps + block.length * cost) (block ++ stack) := by
        intro empty
        apply induction
        · intro before n behind split emptyBefore
          exact each (s :: before) n behind (by rw [split]; rfl) (empty.append emptyBefore)
        · exact fun emptyBlock => settles (empty.append emptyBlock)
      have total : steps + (s :: block).length * cost = steps + block.length * cost + cost := by
        rw [List.length_cons, Nat.succ_mul, Nat.add_assoc]
      rw [total, List.cons_append]
      match s with
      | .terminal (.char c) => exact settles_char
      | .terminal .epsilon => exact (settles_epsilon (later (.refl []))).mono (by omega)
      | .nonterminal n => exact each [] n block rfl (.refl []) _ _ later

/-- A nonterminal with few left corners settles within the nodes of a tree of that depth. -/
theorem settles_of_cornerCount (built : g.table k = .ok table) (depth : Nat) {n : NonTerminal}
    (low : cornerCount g table lookahead n < depth) (steps : Nat) (stack : List Symbol)
    (settles : g.DerivesWord [.nonterminal n] [] → table.Settles position lookahead steps stack) :
    table.Settles position lookahead (steps + (table.widest + 1) ^ depth)
      (.nonterminal n :: stack) := by
  induction depth generalizing n steps stack with
  | zero => exact absurd low (Nat.not_lt_zero _)
  | succ depth induction =>
      have positive : 0 < (table.widest + 1) ^ depth := Nat.pow_pos (Nat.succ_pos _)
      obtain ⟨cost, costSame⟩ : ∃ cost, cost = (table.widest + 1) ^ depth := ⟨_, rfl⟩
      have inner : table.Settles position lookahead (steps + table.widest * cost + 1)
          (.nonterminal n :: stack) := by
        apply settles_nonterminal
        intro selected found
        obtain ⟨known, left, _⟩ := (select?_eq_some_iff built).1 found
        have member := mem_rules_of_rule? built known
        have body : table.Settles position lookahead (steps + selected.rule.body.length * cost)
            (selected.rule.body ++ stack) := by
          apply settles_append (g := g) (by omega)
          · intro before corner behind split empty
            have isCorner : LeftCorner g table lookahead n corner :=
              ⟨selected, before, behind, found, split, empty⟩
            have fewer := cornerCount_lt built isCorner
            rw [costSame]
            exact induction (by omega)
          · intro empty
            apply settles
            rw [← left]
            exact .of_rule member empty
        apply body.mono
        have width := Nat.mul_le_mul_right cost (length_body_le_widest known)
        omega
      apply inner.mono
      rw [Nat.pow_succ, ← costSame, Nat.mul_succ, Nat.mul_comm cost]
      omega

theorem cornerCount_lt_of_built (built : g.table k = .ok table) (n : NonTerminal) :
    cornerCount g table lookahead n < table.rows.keys.length + 1 := by
  obtain ⟨_, _, _, present, _⟩ := parts_of_built built
  have listed : g.nonterminals.size ≤ table.rows.keys.length := by
    apply g.nonterminals.nodup_toList.length_le_of_subset
    intro m declared
    exact SortedMap.mem_keys_iff.2 (present m declared)
  exact Nat.lt_succ_of_le ((cornerCount_le n).trans listed)

theorem settles_patience (built : g.table k = .ok table) (position : Nat) (lookahead : Tuple)
    (stack : List Symbol) : table.Settles position lookahead (table.patience stack) stack := by
  have whole : table.Settles position lookahead
      (0 + stack.length * (table.widest + 1) ^ (table.rows.keys.length + 1)) (stack ++ []) := by
    apply settles_append (g := g) (Nat.pow_pos (Nat.succ_pos _))
    · intro _ n _ _ _
      exact settles_of_cornerCount built _ (cornerCount_lt_of_built built n)
    · exact fun _ => settles_nil
  rw [List.append_nil] at whole
  apply whole.mono
  rw [patience, Nat.pow_eq]
  omega

theorem run_ne_noDerivation (built : g.table k = .ok table) (position : Nat) (stack : List Symbol)
    (input : Text) : table.run position stack input ≠ .error .noDerivation := by
  induction input generalizing position stack with
  | nil =>
      have settles := settles_patience built position (table.upcoming []) stack
      simp only [run]
      cases settled : table.settle position stack [] with
      | error cause =>
          intro given
          cases given
          exact settles settled
      | ok pause =>
          obtain ⟨applied, expected⟩ := pause
          cases expected with
          | none => simp
          | some found => simp
  | cons found rest induction =>
      have settles := settles_patience built position (table.upcoming (found :: rest)) stack
      simp only [run]
      cases settled : table.settle position stack (found :: rest) with
      | error cause =>
          intro given
          cases given
          exact settles settled
      | ok pause =>
          obtain ⟨applied, expected⟩ := pause
          cases expected with
          | none => simp
          | some top =>
              obtain ⟨c, below⟩ := top
              by_cases same : c = found
              · simp only [same, if_true]
                have later := induction (position + 1) below
                cases answered : table.run (position + 1) below rest with
                | ok more => simp [Except.map]
                | error cause =>
                    rw [answered] at later
                    exact later
              · simp [same]

theorem Step.position_add_length {machine next : Machine} (step : table.Step machine next) :
    next.position + next.rest.length = machine.position + machine.rest.length ∧
      machine.position ≤ next.position := by
  cases step with
  | drop => exact ⟨rfl, Nat.le_refl _⟩
  | read =>
      simp only [List.length_cons]
      omega
  | expand _ => exact ⟨rfl, Nat.le_refl _⟩

theorem Halts.position_of_error {machine : Machine} {cause : ParseError}
    (rejected : table.Halts machine (.error cause)) :
    ∃ position, cause.position? = some position ∧ machine.position ≤ position ∧
      position ≤ machine.position + machine.rest.length := by
  obtain ⟨last, ⟨after, same⟩, halted⟩ := Halts.exists_last
    (fun next => machine.position ≤ next.position ∧
      next.position + next.rest.length = machine.position + machine.rest.length)
    (fun _ _ ⟨after, same⟩ step =>
      ⟨after.trans step.position_add_length.2, step.position_add_length.1.trans same⟩)
    ⟨Nat.le_refl _, rfl⟩ rejected
  exact ⟨last.position, (rejects_of_turn halted).position_eq, after, by omega⟩

/-- From any position and any stack, the loop halts on any input. -/
theorem exists_halts (built : g.table k = .ok table) (machine : Machine) :
    ∃ answer, table.Halts machine answer :=
  ⟨_, halts_of_run (run_ne_noDerivation built machine.position machine.stack machine.rest)
    machine.applied⟩

theorem halts_parse (built : g.table k = .ok table) (start : NonTerminal) (input : Text) :
    table.Halts (.initial start input) (table.parse start input) := by
  have halts := halts_of_run (run_ne_noDerivation built 0 [.nonterminal start] input) []
  have same : (table.run 0 [.nonterminal start] input).map ([] ++ ·) = table.parse start input := by
    rw [parse]
    cases table.run 0 [.nonterminal start] input <;> rfl
  rw [same] at halts
  exact halts

/-- On a table that was built the machine halts from any start and on any input: the loop ends after
finitely many turns, with a derivation or with a rejection at a position of the input. No nonterminal
comes back to the top of the stack before the same unread input. -/
theorem halts_on_every_input (built : g.table k = .ok table) (start : NonTerminal) (input : Text) :
    (∃ turns, table.loop turns (.initial start input) = some (table.parse start input)) ∧
      (∀ cause, table.parse start input = .error cause →
        ∃ position, cause.position? = some position ∧ position ≤ input.length) ∧
      ∀ lookahead n, ¬Relation.TransGen (LeftCorner g table lookahead) n n := by
  have halts := halts_parse built start input
  refine ⟨halts, fun cause rejected => ?_, fun lookahead => leftCorner_acyclic built⟩
  rw [rejected] at halts
  obtain ⟨position, blamed, _, before⟩ := halts.position_of_error
  refine ⟨position, blamed, before.trans ?_⟩
  rw [Machine.initial, Nat.zero_add]

end Table

/-- Words of nested parentheses. -/
def nested : Grammar :=
  .ofRules (.named "S")
    [⟨.named "S",
        [.terminal (.char '('), .nonterminal (.named "S"), .terminal (.char ')'),
          .nonterminal (.named "S")], by simp, by simp⟩,
      .epsilon (.named "S")]

/-- The table for nested parentheses with one character of lookahead. -/
def nestedTable : Table :=
  ⟨1, .ofGrammar nested,
    ⟨[(.named "S", ⟨[([.char '('], 0), ([.char ')'], 1), ([.epsilon], 1)], by decide⟩)], by decide⟩⟩

theorem nested_table : nested.table 1 = .ok nestedTable := by
  cbv

/-- An input with a parenthesis left open is rejected at its end. -/
theorem nested_halts :
    nested.table 1 = .ok nestedTable ∧
      (∃ turns, nestedTable.loop turns (.initial (.named "S") ['(', '(', ')']) =
        some (.error (.unexpectedEnd 3 (.char ')')))) ∧
      ¬Relation.TransGen (LeftCorner nested nestedTable [.char '(']) (.named "S") (.named "S") := by
  have rejected : nestedTable.parse (.named "S") ['(', '(', ')'] =
      .error (.unexpectedEnd 3 (.char ')')) := by
    cbv
  obtain ⟨halts, _, acyclic⟩ := Table.halts_on_every_input nested_table (.named "S") ['(', '(', ')']
  rw [rejected] at halts
  exact ⟨nested_table, halts, acyclic [.char '('] (.named "S")⟩

end StrongLL
