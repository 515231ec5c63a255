import StrongLL.Proofs.Derivation.Yields
import StrongLL.Proofs.Lookahead.Cut
import StrongLL.Proofs.Lookahead.Growth

/-!
# What FIRST sets hold

A sequence has a FIRST set exactly if it derives some word, and then the set holds the cuts of the
words that it derives. Soundness is an invariant of the sweeps; completeness is an induction on the
number of rules of a derivation, with the fixed point as the step. No set is ever empty, so the
special case of joining with an empty set does not arise. Any two sound maps that no sweep changes
are equal, so the sweeps may as well start from what the rules without nonterminals say at once.
-/

namespace StrongLL

set_option autoImplicit false

/-- Every set holds cuts of words that its nonterminal derives, and at least one of them. -/
def SoundFirst (g : Grammar) (k : Nat) (known : KnownSets) : Prop :=
  ∀ n set, known.get? n = some set → set.isEmpty = false ∧
    ∀ tuple ∈ set, ∃ word, g.DerivesWord [.nonterminal n] word ∧ Tuple.cut k word = tuple

section Sequences

variable {g : Grammar} {k : Nat} {known : KnownSets}

theorem firstOfSequence_concat (k : Nat) (known : KnownSets) (symbols : List Symbol) (s : Symbol) :
    firstOfSequence k known (symbols ++ [s]) =
      (firstOfSequence k known symbols).bind fun front =>
        (firstOfSymbol known s).map (TupleSet.concat k front) := by
  unfold firstOfSequence
  rw [List.mapM_append]
  cases symbols.mapM (firstOfSymbol known) with
  | none => rfl
  | some sets =>
      cases single : firstOfSymbol known s with
      | none => simp [single]
      | some last => simp [single, TupleSet.concatAll]

theorem TupleSet.nonempty_concat {first second : TupleSet} (left : first.isEmpty = false)
    (right : second.isEmpty = false) : (TupleSet.concat k first second).isEmpty = false := by
  obtain ⟨front, frontMember⟩ := SortedSet.nonempty_iff.1 left
  obtain ⟨back, backMember⟩ := SortedSet.nonempty_iff.1 right
  apply SortedSet.nonempty_iff.2
  exact ⟨_, (TupleSet.mem_concat left right).2 ⟨front, frontMember, back, backMember, rfl⟩⟩

theorem sound_firstOfSymbol (sound : SoundFirst g k known) {s : Symbol} {set : TupleSet}
    (found : firstOfSymbol known s = some set) : set.isEmpty = false ∧
      ∀ tuple ∈ set, ∃ word, g.DerivesWord [s] word ∧ Tuple.Begins k tuple word := by
  match s with
  | .terminal t =>
      cases found
      refine ⟨rfl, fun tuple member => ?_⟩
      rw [SortedSet.mem_singleton.1 member]
      cases t with
      | epsilon => exact ⟨[], .refl [], Tuple.begins_epsilon k⟩
      | char c => exact ⟨[c], .refl [.terminal (.char c)], Tuple.begins_char k c⟩
  | .nonterminal n =>
      obtain ⟨filled, members⟩ := sound n set found
      refine ⟨filled, fun tuple member => ?_⟩
      obtain ⟨word, derives, rfl⟩ := members tuple member
      exact ⟨word, derives, Tuple.begins_cut k word⟩

theorem sound_firstOfSequence (sound : SoundFirst g k known) {symbols : List Symbol}
    {set : TupleSet} (found : firstOfSequence k known symbols = some set) : set.isEmpty = false ∧
      ∀ tuple ∈ set, ∃ word, g.DerivesWord symbols word ∧ Tuple.cut k word = tuple := by
  induction symbols using List.reverseRecOn generalizing set with
  | nil =>
      cases found
      refine ⟨rfl, fun tuple member => ⟨[], .refl [], ?_⟩⟩
      rw [SortedSet.mem_singleton.1 member, Tuple.cut_nil]
  | append_singleton symbols s induction =>
      rw [firstOfSequence_concat] at found
      obtain ⟨front, foundFront, foundBoth⟩ := Option.bind_eq_some_iff.1 found
      obtain ⟨last, foundLast, rfl⟩ := Option.map_eq_some_iff.1 foundBoth
      obtain ⟨frontFilled, frontMembers⟩ := induction foundFront
      obtain ⟨lastFilled, lastMembers⟩ := sound_firstOfSymbol sound foundLast
      refine ⟨TupleSet.nonempty_concat frontFilled lastFilled, fun tuple member => ?_⟩
      obtain ⟨before, inFront, behind, inLast, rfl⟩ :=
        (TupleSet.mem_concat frontFilled lastFilled).1 member
      obtain ⟨first, derivesFirst, rfl⟩ := frontMembers before inFront
      obtain ⟨second, derivesSecond, begins⟩ := lastMembers behind inLast
      refine ⟨first ++ second, derivesFirst.append derivesSecond, ?_⟩
      rw [Tuple.concat_eq_cut (Tuple.begins_cut k first) begins]

theorem sound_relaxFirst (sound : SoundFirst g k known) {rule : Rule} (member : rule ∈ g.rules) :
    SoundFirst g k (relaxFirst k known rule) := by
  unfold relaxFirst
  split
  · next set found =>
      obtain ⟨filled, members⟩ := sound_firstOfSequence sound found
      apply KnownSets.Only.relax sound filled
      intro tuple inSet
      obtain ⟨word, derives, cut⟩ := members tuple inSet
      exact ⟨word, .of_rule member (Grammar.derivesWord_right_iff.1 derives), cut⟩
  · exact sound

theorem sound_sweepFirst (sound : SoundFirst g k known) :
    SoundFirst g k (sweepFirst k g.rules.toList known) := by
  apply List.foldlRecOn _ _ sound
  intro known sound rule member
  exact sound_relaxFirst sound member

theorem below_relaxFirst (k : Nat) (known : KnownSets) (rule : Rule) :
    known.Below (relaxFirst k known rule) := by
  unfold relaxFirst
  split
  · exact known.below_relax _ _
  · exact .refl known

/-- Relaxing by any rule changes nothing. -/
def ClosedFirst (g : Grammar) (k : Nat) (known : KnownSets) : Prop :=
  ∀ rule ∈ g.rules, relaxFirst k known rule = known

/-- A sequence that derives a word is known to begin with it, if each of its nonterminals is. The
derivations are counted so that the statement can be used below a nonterminal. -/
theorem mem_firstOfSequence_of_short {bound : Nat}
    (shorter : ∀ n word rules, rules.length < bound → g.Yields [.nonterminal n] word rules →
      ∃ set, known.get? n = some set ∧ Tuple.cut k word ∈ set)
    {symbols : List Symbol} {word : Text} {rules : List Rule} (short : rules.length < bound)
    (yields : g.Yields symbols word rules) :
    ∃ set, firstOfSequence k known symbols = some set ∧ Tuple.cut k word ∈ set := by
  induction symbols using List.reverseRecOn generalizing word rules with
  | nil =>
      obtain ⟨rfl, rfl⟩ := yields.of_nil
      refine ⟨.epsilon, rfl, ?_⟩
      rw [Tuple.cut_nil]
      exact SortedSet.mem_singleton.2 rfl
  | append_singleton symbols s induction =>
      obtain ⟨first, second, firstRules, secondRules, rfl, rfl, before, behind⟩ := yields.split
      rw [List.length_append] at short
      obtain ⟨front, foundFront, inFront⟩ := induction (by omega) before
      obtain ⟨last, foundLast, tuple, inLast, begins⟩ : ∃ last, firstOfSymbol known s = some last ∧
          ∃ tuple ∈ last, Tuple.Begins k tuple second := by
        match s with
        | .terminal t =>
            refine ⟨_, rfl, [t], SortedSet.mem_singleton.2 rfl, ?_⟩
            cases behind with
            | skip rest => rw [rest.of_nil.1]; exact Tuple.begins_epsilon k
            | scan c rest => rw [rest.of_nil.1]; exact Tuple.begins_char k c
        | .nonterminal n =>
            obtain ⟨set, found, member⟩ := shorter n second secondRules (by omega) behind
            exact ⟨set, found, _, member, Tuple.begins_cut k second⟩
      have frontFilled := SortedSet.nonempty_iff.2 ⟨_, inFront⟩
      have lastFilled := SortedSet.nonempty_iff.2 ⟨_, inLast⟩
      refine ⟨front.concat k last, ?_, ?_⟩
      · rw [firstOfSequence_concat, foundFront, foundLast]
        rfl
      · rw [← Tuple.concat_eq_cut (Tuple.begins_cut k first) begins,
          TupleSet.mem_concat frontFilled lastFilled]
        exact ⟨_, inFront, tuple, inLast, rfl⟩

theorem mem_first_of_yields (closed : ClosedFirst g k known) (bound : Nat) (n : NonTerminal)
    (word : Text) (rules : List Rule) (short : rules.length < bound)
    (yields : g.Yields [.nonterminal n] word rules) :
    ∃ set, known.get? n = some set ∧ Tuple.cut k word ∈ set := by
  induction bound generalizing n word rules with
  | zero => exact absurd short (Nat.not_lt_zero _)
  | succ bound induction =>
      obtain ⟨rule, member, rfl, inner, rfl, body⟩ := yields.of_nonterminal
      rw [← Grammar.yields_withoutEpsilon_iff, Grammar.withoutEpsilon_body,
        ← Grammar.withoutEpsilon_right, Grammar.yields_withoutEpsilon_iff] at body
      obtain ⟨set, found, inSet⟩ :=
        mem_firstOfSequence_of_short induction (Nat.lt_of_succ_lt_succ short) body
      have fixed := closed rule member
      rw [relaxFirst, found] at fixed
      obtain ⟨larger, foundLarger, subset⟩ := KnownSets.known_of_relax_eq fixed
      exact ⟨larger, foundLarger, subset _ inSet⟩

theorem ClosedFirst.all (closed : ClosedFirst g k known) : known.All fun n tuple =>
    ∃ word, g.DerivesWord [.nonterminal n] word ∧ Tuple.cut k word = tuple := by
  rintro n _ ⟨word, derives, rfl⟩
  obtain ⟨rules, yields⟩ := Grammar.derivesWord_iff_yields.1 derives
  exact mem_first_of_yields closed (rules.length + 1) n word rules (Nat.lt_succ_self _) yields

theorem closedFirst_of_settled
    (settled : (sweepFirst k g.rules.toList known).weight ≤ known.weight) : ClosedFirst g k known :=
  KnownSets.fixed_of_weight_foldl_le (below_relaxFirst k) settled

end Sequences

section Seeds

variable {g : Grammar} {k : Nat} {known : KnownSets}

/-- Learns from a rule without nonterminals what its left side begins with. -/
def seedRule (k : Nat) (known : KnownSets) (rule : Rule) : KnownSets :=
  match rule.right.mapM Symbol.terminal? with
  | some terminals => known.relax rule.left (.singleton (Tuple.concat k terminals []))
  | none => known

/-- What the rules without nonterminals say before any sweep. -/
def seedFirst (k : Nat) (rules : List Rule) : KnownSets := rules.foldl (seedRule k) ∅

theorem eq_map_of_mapM_terminal? {symbols : List Symbol} {terminals : List Terminal}
    (mapped : symbols.mapM Symbol.terminal? = some terminals) :
    symbols = terminals.map .terminal := by
  induction symbols generalizing terminals with
  | nil =>
      cases mapped
      rfl
  | cons s symbols induction =>
      simp only [List.mapM_cons, Option.bind_eq_bind, Option.pure_def, Option.bind_eq_some_iff,
        Option.some.injEq] at mapped
      obtain ⟨t, head, rest, tail, rfl⟩ := mapped
      cases s with
      | nonterminal n => exact nomatch head
      | terminal found =>
          cases head
          rw [List.map_cons, ← induction tail]

/-- A right side without nonterminals derives the word that it spells. -/
theorem exists_word_of_terminals {rule : Rule} {terminals : List Terminal}
    (right : rule.right = terminals.map .terminal) :
    ∃ word, g.DerivesWord rule.right word ∧ Tuple.Begins k terminals word := by
  by_cases empty : rule.isEpsilon = true
  · have same : rule.right = [.terminal .epsilon] := beq_iff_eq.1 empty
    have single : terminals = [.epsilon] := by
      rw [same] at right
      simpa [List.map_eq_cons_iff] using right.symm
    refine ⟨[], ?_, ?_⟩
    · rw [same]
      exact .refl []
    · rw [single]
      exact Tuple.begins_epsilon k
  · have chars : terminals ∈ Set.range (List.map Terminal.char) := by
      rw [Set.range_list_map]
      intro t occurs
      cases t with
      | char c => exact ⟨c, rfl⟩
      | epsilon =>
          have inBody : Symbol.terminal .epsilon ∈ rule.body := by
            rw [Rule.body, if_neg empty, right]
            exact List.mem_map_of_mem occurs
          exact absurd inBody rule.epsilon_not_mem_body
    obtain ⟨word, rfl⟩ := chars
    refine ⟨word, Grammar.derivesWord_iff_yields.2 ⟨[], ?_⟩, Tuple.begins_chars k word⟩
    rw [right, List.map_map]
    exact Grammar.yields_spelled word

theorem sound_seedRule (sound : SoundFirst g k known) {rule : Rule} (member : rule ∈ g.rules) :
    SoundFirst g k (seedRule k known rule) := by
  unfold seedRule
  split
  · next terminals mapped =>
      apply KnownSets.Only.relax sound rfl
      intro tuple inside
      obtain ⟨word, derives, begins⟩ :=
        exists_word_of_terminals (g := g) (k := k) (eq_map_of_mapM_terminal? mapped)
      refine ⟨word, .of_rule member (Grammar.derivesWord_right_iff.1 derives), ?_⟩
      rw [SortedSet.mem_singleton.1 inside,
        Tuple.concat_eq_cut begins (Tuple.begins_nil k), List.append_nil]
  · exact sound

theorem sound_seedFirst (g : Grammar) (k : Nat) : SoundFirst g k (seedFirst k g.rules.toList) := by
  apply List.foldlRecOn _ _ KnownSets.only_empty
  intro known sound rule member
  exact sound_seedRule sound member

end Seeds

namespace Grammar

variable {g : Grammar} {k : Nat} {symbols : List Symbol} {set : TupleSet}

theorem sound_first (g : Grammar) (k : Nat) : SoundFirst g k (g.first k) := by
  apply climb_induction _ _ _ _ _ (SoundFirst g k)
  · exact fun _ sound => sound_sweepFirst sound
  · exact KnownSets.only_empty

theorem closed_first (g : Grammar) (k : Nat) : ClosedFirst g k (g.first k) :=
  closedFirst_of_settled
    (size_step_climb_le KnownSets.weight (sweepFirst k g.rules.toList) _ _ _ _ _)

/-- The sweeps come to rest at the FIRST sets from every sound start. -/
theorem stabilizes_first {known : KnownSets} (sound : SoundFirst g k known) :
    Stabilizes (sweepFirst k g.rules.toList) known (g.first k) := by
  apply KnownSets.stabilizes (SoundFirst g k)
  · exact fun _ sound => sound
  · exact fun _ sound => sound_sweepFirst sound
  · exact fun known => KnownSets.below_foldl (below_relaxFirst k) _ known
  · intro known _ same
    exact (closedFirst_of_settled (Nat.le_of_eq (congrArg KnownSets.weight same))).all
  · exact sound_first g k
  · exact (closed_first g k).all
  · exact sound

theorem mem_firstOfSequence_of_derives {word : Text} (derives : g.DerivesWord symbols word) :
    ∃ set, firstOfSequence k (g.first k) symbols = some set ∧ Tuple.cut k word ∈ set := by
  obtain ⟨rules, yields⟩ := derivesWord_iff_yields.1 derives
  exact mem_firstOfSequence_of_short (mem_first_of_yields (closed_first g k) (rules.length + 1))
    (Nat.lt_succ_self _) yields

/-- A sequence has a FIRST set exactly if it derives a word. -/
theorem firstOfSequence_known_iff :
    (∃ set, firstOfSequence k (g.first k) symbols = some set) ↔
      ∃ word, g.DerivesWord symbols word := by
  constructor
  · intro ⟨set, found⟩
    obtain ⟨filled, members⟩ := sound_firstOfSequence (sound_first g k) found
    obtain ⟨tuple, member⟩ := SortedSet.nonempty_iff.1 filled
    obtain ⟨word, derives, _⟩ := members tuple member
    exact ⟨word, derives⟩
  · intro ⟨word, derives⟩
    obtain ⟨set, found, _⟩ := mem_firstOfSequence_of_derives (k := k) derives
    exact ⟨set, found⟩

/-- A FIRST set holds the cuts of the words that the sequence derives. -/
theorem mem_firstOfSequence_iff (found : firstOfSequence k (g.first k) symbols = some set)
    {tuple : Tuple} :
    tuple ∈ set ↔ ∃ word, g.DerivesWord symbols word ∧ Tuple.cut k word = tuple := by
  constructor
  · exact (sound_firstOfSequence (sound_first g k) found).2 tuple
  · intro ⟨word, derives, cut⟩
    obtain ⟨other, foundOther, member⟩ := mem_firstOfSequence_of_derives (k := k) derives
    rw [foundOther] at found
    cases found
    exact cut ▸ member

/-- A nonterminal has a FIRST set exactly if it derives a word. -/
theorem first_known_iff {n : NonTerminal} :
    (∃ set, (g.first k).get? n = some set) ↔ ∃ word, g.DerivesWord [.nonterminal n] word := by
  rw [KnownSets.Only.known_iff (sound_first g k) (closed_first g k).all]
  constructor
  · exact fun ⟨_, word, derives, _⟩ => ⟨word, derives⟩
  · exact fun ⟨word, derives⟩ => ⟨_, word, derives, rfl⟩

/-- The sweeps for FIRST sets end, also when they start from what the rules without nonterminals
say. A sequence is then known to begin with something exactly if it derives a word, and with the
cuts of the words that it derives; a nonterminal without an entry derives none. -/
theorem first_sets_are_exact (g : Grammar) (k : Nat) :
    Stabilizes (sweepFirst k g.rules.toList) ∅ (g.first k) ∧
      Stabilizes (sweepFirst k g.rules.toList) (seedFirst k g.rules.toList) (g.first k) ∧
      (∀ symbols, (∃ set, firstOfSequence k (g.first k) symbols = some set) ↔
        ∃ word, g.DerivesWord symbols word) ∧
      (∀ symbols tuple, (∃ set, firstOfSequence k (g.first k) symbols = some set ∧ tuple ∈ set) ↔
        ∃ word, g.DerivesWord symbols word ∧ Tuple.cut k word = tuple) ∧
      ∀ n, (g.first k).get? n = none ↔ ¬∃ word, g.DerivesWord [.nonterminal n] word := by
  refine ⟨stabilizes_first KnownSets.only_empty, stabilizes_first (sound_seedFirst g k),
    fun _ => firstOfSequence_known_iff, fun symbols tuple => ?_, fun n => ?_⟩
  · constructor
    · intro ⟨set, found, member⟩
      exact (mem_firstOfSequence_iff found).1 member
    · intro ⟨word, derives, cut⟩
      obtain ⟨set, found, member⟩ := mem_firstOfSequence_of_derives (k := k) derives
      exact ⟨set, found, cut ▸ member⟩
  · rw [← first_known_iff (k := k), ← Option.ne_none_iff_exists', not_ne_iff]

end Grammar

end StrongLL
