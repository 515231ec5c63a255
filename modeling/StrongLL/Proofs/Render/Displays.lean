import Mathlib.Data.Set.Operations
import StrongLL.Proofs.Grammar.Reader
import StrongLL.Proofs.Render.Tables
import StrongLL.Proofs.Symbol.Display

/-!
# Rules and tuples by their displays

The left side of a rule ends at the first blank of its display, so two rules are displayed alike
exactly if their left sides are equal and their right sides are displayed alike. In a grammar that is
read from a text, and among the tuples of a table, the only longer spelling is that of the empty word:
its display `[eps]` is also that of five single characters, and nothing else is displayed alike.
-/

namespace StrongLL

set_option autoImplicit false

/-- What stands before and behind the first mark is determined by the text. -/
theorem Text.append_cons_inj {mark : Char} {first second behind rest : Text} (free : mark ∉ first)
    (freeSecond : mark ∉ second) :
    first ++ mark :: behind = second ++ mark :: rest ↔ first = second ∧ behind = rest := by
  refine ⟨fun same => ?_, fun ⟨front, back⟩ => by rw [front, back]⟩
  rcases List.append_eq_append_iff.1 same with ⟨middle, split, more⟩ | ⟨middle, split, more⟩
  · cases middle with
    | nil => exact ⟨by simpa using split.symm, (List.cons.inj more).2⟩
    | cons c middle =>
        obtain ⟨rfl, _⟩ := List.cons.inj more
        exact absurd (by simp [split]) freeSecond
  · cases middle with
    | nil => exact ⟨by simpa using split, (List.cons.inj more).2.symm⟩
    | cons c middle =>
        obtain ⟨rfl, _⟩ := List.cons.inj more
        exact absurd (by simp [split]) free

namespace Symbol

/-- The display of the empty word, one terminal a character. -/
def epsilonDisplay : List Symbol := (Terminal.display .epsilon).map fun c => .terminal (.char c)

/-- One of the sequences is the empty word and the other one spells its display. -/
def EpsilonSpelled (v w : List Symbol) : Prop :=
  v = [.terminal .epsilon] ∧ w = epsilonDisplay ∨ v = epsilonDisplay ∧ w = [.terminal .epsilon]

theorem displayAll_of_epsilonSpelled {v w : List Symbol} (spelled : EpsilonSpelled v w) :
    displayAll v = displayAll w := by
  rcases spelled with ⟨rfl, rfl⟩ | ⟨rfl, rfl⟩
  · rfl
  · rfl

end Symbol

theorem NonTerminal.blank_not_mem_display (n : NonTerminal) : ' ' ∉ n.display := by
  intro inside
  have member : ' ' ∈ n.text := by
    unfold display bracketed at inside
    split at inside
    · simpa using inside
    · exact inside
  exact absurd (n.unblank ' ' member) (by decide)

theorem Rule.display_eq_iff {first second : Rule} : first.display = second.display ↔
    first.left = second.left ∧ Symbol.displayAll first.right = Symbol.displayAll second.right := by
  have shape : ∀ rule : Rule, rule.display =
      rule.left.display ++ ' ' :: ("-> ".toList ++ Symbol.displayAll rule.right) := by
    intro rule
    rw [Rule.display, List.append_assoc]
    rfl
  rw [shape, shape, Text.append_cons_inj first.left.blank_not_mem_display
    second.left.blank_not_mem_display, NonTerminal.display_injective.eq_iff,
    List.append_cancel_left_eq]

namespace Grammar

section Alternatives

variable {first second : Text} {v w : List Symbol}

theorem displayAll_of_spells (spells : Spells first v) :
    Symbol.displayAll v =
      if first = Terminal.epsilonText then Terminal.display .epsilon else first := by
  unfold Spells at spells
  split at spells
  · next epsilon =>
      rw [spells, if_pos epsilon]
      rfl
  · next other =>
      rw [if_neg other]
      clear other
      induction spells with
      | nil => rfl
      | cons read _ induction =>
          have shown := Symbol.text_of_read read
          rw [Symbol.displayAll_cons, induction, Symbol.display, shown]
          rfl

theorem Spells.unique (spells : Spells first v) (again : Spells first w) : v = w := by
  unfold Spells at spells again
  split at spells
  · next epsilon =>
      rw [if_pos epsilon] at again
      rw [spells, again]
  · next other =>
      rw [if_neg other] at again
      exact Except.ok.inj ((mapM_eq_ok_iff.2 spells).symm.trans (mapM_eq_ok_iff.2 again))

theorem spells_epsilon : Spells Terminal.epsilonText [.terminal .epsilon] := rfl

theorem spells_epsilonDisplay : Spells (Terminal.display .epsilon) Symbol.epsilonDisplay :=
  mapM_eq_ok_iff.1 rfl

/-- Right sides that are read from alternatives are displayed alike only if they are equal, or if one
is the empty word and the other one spells its display. -/
theorem displayAll_eq_iff_of_spells (spells : Spells first v) (spellsSecond : Spells second w) :
    Symbol.displayAll v = Symbol.displayAll w ↔ v = w ∨ Symbol.EpsilonSpelled v w := by
  constructor
  · rw [displayAll_of_spells spells, displayAll_of_spells spellsSecond]
    intro same
    split at same
    · next epsilon =>
        subst epsilon
        split at same
        · next epsilon =>
            subst epsilon
            exact .inl (spells.unique spellsSecond)
        · subst same
          exact .inr (.inl ⟨spells.unique spells_epsilon, spellsSecond.unique spells_epsilonDisplay⟩)
    · split at same
      · next epsilon =>
          subst same epsilon
          exact .inr (.inr ⟨spells.unique spells_epsilonDisplay, spellsSecond.unique spells_epsilon⟩)
      · subst same
        exact .inl (spells.unique spellsSecond)
  · rintro (rfl | spelled)
    · rfl
    · exact Symbol.displayAll_of_epsilonSpelled spelled

end Alternatives

/-- The right side of a rule that was read is spelled by an alternative. -/
theorem exists_spells_of_mem_rules {text : Text} {g : Grammar} {rule : Rule}
    (result : read text = .ok g) (member : rule ∈ g.rules) :
    ∃ alternative, Spells alternative rule.right := by
  obtain ⟨first, more, rules, lines, mapped, rfl⟩ := read_eq_ok_iff.1 result
  rw [mem_rules_ofRules, mem_flatten_of_readRules mapped] at member
  obtain ⟨production, inside, alternative, _, read⟩ := member
  exact ⟨alternative, (readAlternative_eq_ok_iff.1 read).2.2⟩

end Grammar

namespace Tuple

theorem display_chars (word : Text) : display (word.map .char) = word := by
  rw [display, List.flatMap_map]
  exact List.flatMap_singleton' word

theorem display_ofWord_chars (word : Text) :
    (ofWord (word.map .char)).display = if word = [] then Terminal.display .epsilon else word := by
  cases word with
  | nil => rfl
  | cons c rest => exact display_chars (c :: rest)

theorem ofWord_chars_injective : Function.Injective fun word : Text => ofWord (word.map .char) := by
  intro first second same
  have words := congrArg Tuple.word same
  simp only [word_ofWord_chars] at words
  exact List.map_injective_iff.2 (fun _ _ same => Terminal.char.inj same) words

theorem display_ofWord_chars_eq_iff {first second : Text} :
    (ofWord (first.map .char)).display = (ofWord (second.map .char)).display ↔
      first = second ∨ first = [] ∧ second = Terminal.display .epsilon ∨
        first = Terminal.display .epsilon ∧ second = [] := by
  have filled : Terminal.display .epsilon ≠ [] := by decide
  rw [display_ofWord_chars, display_ofWord_chars]
  by_cases empty : first = []
  · by_cases emptySecond : second = []
    · simp [empty, emptySecond]
    · simp only [empty, emptySecond, if_true, if_false, Ne.symm emptySecond, true_and, false_or,
        and_false, or_false]
      exact eq_comm
  · by_cases emptySecond : second = []
    · simp [empty, emptySecond]
    · simp [empty, emptySecond]

/-- The symbols of a tuple determine the word that it was made of. -/
theorem map_terminal_eq_iff (word target : Text) :
    (ofWord (word.map .char)).map Symbol.terminal = (ofWord (target.map .char)).map Symbol.terminal ↔
      word = target := by
  rw [(List.map_injective_iff.2 fun _ _ same => Symbol.terminal.inj same).eq_iff]
  exact ofWord_chars_injective.eq_iff

/-- Tuples are displayed alike only if they are equal, or if one is the empty word and the other one
spells its display, for which it takes five characters. -/
theorem display_cut_eq_iff (k : Nat) (v w : Text) :
    (cut k v).display = (cut k w).display ↔ cut k v = cut k w ∨
      5 ≤ k ∧ Symbol.EpsilonSpelled ((cut k v).map .terminal) ((cut k w).map .terminal) := by
  have long : ∀ word : Text, word.take k = Terminal.display .epsilon → 5 ≤ k := by
    intro word same
    have length := congrArg List.length same
    rw [List.length_take] at length
    have five : (Terminal.display .epsilon).length = 5 := rfl
    omega
  have equal : cut k v = cut k w ↔ v.take k = w.take k := ofWord_chars_injective.eq_iff
  have spelled : Symbol.EpsilonSpelled ((cut k v).map .terminal) ((cut k w).map .terminal) ↔
      v.take k = [] ∧ w.take k = Terminal.display .epsilon ∨
        v.take k = Terminal.display .epsilon ∧ w.take k = [] := by
    have empty := fun word : Text => map_terminal_eq_iff (word.take k) []
    have shown := fun word : Text => map_terminal_eq_iff (word.take k) (Terminal.display .epsilon)
    exact or_congr (and_congr (empty v) (shown w)) (and_congr (shown v) (empty w))
  rw [equal, spelled]
  refine display_ofWord_chars_eq_iff.trans (or_congr_right ⟨fun pair => ⟨?_, pair⟩, fun both => both.2⟩)
  rcases pair with ⟨_, second⟩ | ⟨first, _⟩
  · exact long w second
  · exact long v first

end Tuple

/-- The columns of a table are cut words. -/
theorem Table.exists_cut_of_mem_lookaheads {g : Grammar} {k : Nat} {table : Table} {tuple : Tuple}
    (built : g.table k = .ok table) (member : tuple ∈ table.lookaheads) :
    ∃ word, tuple = Tuple.cut k word := by
  obtain ⟨n, index, held⟩ := mem_lookaheads_iff.1 member
  obtain ⟨rule, _, _, behind, word, _, _, rfl⟩ := (get?_eq_some_iff_applies built).1 held
  exact ⟨word, rfl⟩

/-- What displays tell apart. Sequences of symbols with valid terminals that differ and are displayed
alike use displays that clash on both sides, and so do the right sides of rules. Among names without
brackets all sequences are told apart unless a display can be spelled out. Of the rules of a grammar that
was read from a text, and of the columns of a table, only `[eps]` is displayed like something else. -/
theorem displays_tell_apart (symbols : Set Symbol)
    (terminals : ∀ t, .terminal t ∈ symbols → t.Valid) :
    (∀ v w, (∀ s ∈ v ++ w, s ∈ symbols) → Symbol.displayAll v = Symbol.displayAll w →
        v = w ∨ Symbol.Clashing (v ++ w)) ∧
      ((∀ s ∈ symbols, s.Long → '[' ∉ s.text ∧ ']' ∉ s.text) →
        ((∀ v w, (∀ s ∈ v ++ w, s ∈ symbols) →
            Symbol.displayAll v = Symbol.displayAll w → v = w) ↔
          ¬∃ t ∈ symbols, t.Long ∧ Symbol.SpelledOut symbols t.display)) ∧
      (∀ first second : Rule, (∀ s ∈ first.symbols ++ second.symbols, s ∈ symbols) →
        first.display = second.display →
        first = second ∨ first.left = second.left ∧ Symbol.Clashing (first.right ++ second.right)) ∧
      (∀ text g, Grammar.read text = .ok g → ∀ first ∈ g.rules, ∀ second ∈ g.rules,
        (first.display = second.display ↔ first = second ∨
          first.left = second.left ∧ Symbol.EpsilonSpelled first.right second.right)) ∧
      (∀ (k : Nat) (v w : Text), (Tuple.cut k v).display = (Tuple.cut k w).display ↔
        Tuple.cut k v = Tuple.cut k w ∨ 5 ≤ k ∧
          Symbol.EpsilonSpelled ((Tuple.cut k v).map .terminal) ((Tuple.cut k w).map .terminal)) ∧
      ∀ (g : Grammar) (k : Nat) (table : Table), g.table k = .ok table →
        ∀ tuple ∈ table.lookaheads, ∃ word, tuple = Tuple.cut k word := by
  have valid : ∀ s ∈ symbols, s.Valid := fun s member =>
    Symbol.valid_of_terminal fun t same => terminals t (same ▸ member)
  have sequences : ∀ v w, (∀ s ∈ v ++ w, s ∈ symbols) → Symbol.displayAll v = Symbol.displayAll w →
      v = w ∨ Symbol.Clashing (v ++ w) := by
    intro v w members same
    by_cases equal : v = w
    · exact .inl equal
    · exact .inr (Symbol.clashing_of_displayAll (fun s member => valid s (members s member)) same equal)
  refine ⟨sequences, Symbol.displayAll_injective_iff valid, fun first second members same => ?_,
    fun text g result first inFirst second inSecond => ?_, Tuple.display_cut_eq_iff,
    fun g k table built tuple => Table.exists_cut_of_mem_lookaheads built⟩
  · obtain ⟨left, right⟩ := Rule.display_eq_iff.1 same
    have rights : ∀ s ∈ first.right ++ second.right, s ∈ symbols := by
      intro s member
      apply members s
      rw [List.mem_append] at member ⊢
      exact member.imp (List.mem_cons_of_mem _) (List.mem_cons_of_mem _)
    exact (sequences _ _ rights right).imp (Rule.ext left) fun clash => ⟨left, clash⟩
  · obtain ⟨_, spells⟩ := Grammar.exists_spells_of_mem_rules result inFirst
    obtain ⟨_, spellsSecond⟩ := Grammar.exists_spells_of_mem_rules result inSecond
    rw [Rule.display_eq_iff, Grammar.displayAll_eq_iff_of_spells spells spellsSecond, and_or_left]
    apply or_congr_left
    exact ⟨fun both => Rule.ext both.1 both.2, fun same => same ▸ ⟨rfl, rfl⟩⟩

/-- An opening bracket beside a longer name does no harm where there is no closing one. -/
theorem displays_tell_apart_with_one_bracket :
    Set.InjOn Symbol.displayAll
      {v | ∀ s ∈ v, s ∈ ({.nonterminal (.named "AB"), .terminal (.char '[')} : Set Symbol)} := by
  have terminals : ∀ t, .terminal t ∈
      ({.nonterminal (.named "AB"), .terminal (.char '[')} : Set Symbol) → t.Valid := by
    rintro t (same | same)
    · cases same
    · cases same
      decide
  obtain ⟨_, injective, _⟩ := displays_tell_apart _ terminals
  intro v inV w inW same
  refine (injective ?_).2 ?_ v w (fun s member => ?_) same
  · rintro s (rfl | rfl)
    · decide
    · decide
  · rintro ⟨t, rfl | rfl, long, spelled⟩
    · obtain ⟨s, rfl | rfl, shown⟩ := spelled ']' (by decide)
      · exact absurd shown (by decide)
      · exact absurd shown (by decide)
    · exact absurd long (by decide)
  · exact (List.mem_append.1 member).elim (inV s) (inW s)

/-- Brackets that are terminals are displayed like those of a longer name, and of the empty word. -/
theorem displays_can_coincide :
    (∃ v w : List Symbol, (∀ s ∈ v ++ w, s.Valid) ∧ v ≠ w ∧
        Symbol.displayAll v = Symbol.displayAll w) ∧
      (∃ g, Grammar.read "S->eps|[eps]".toList = .ok g ∧ ∃ first ∈ g.rules, ∃ second ∈ g.rules,
        first ≠ second ∧ first.display = second.display) ∧
      Tuple.cut 5 [] ≠ Tuple.cut 5 "[eps]".toList ∧
        (Tuple.cut 5 []).display = (Tuple.cut 5 "[eps]".toList).display := by
  let letters : List Symbol :=
    [.terminal (.char '['), .nonterminal (.named "A"), .nonterminal (.named "B"), .terminal (.char ']')]
  let empty : Rule := .epsilon (.named "S")
  let spelled : Rule := ⟨.named "S", Symbol.epsilonDisplay, by decide, by decide⟩
  have reads : Grammar.read "S->eps|[eps]".toList = .ok (.ofRules (.named "S") [empty, spelled]) :=
    Grammar.read_eq_ok_iff.2 ⟨⟨1, .named "S", "eps|[eps]".toList⟩, [], [[empty, spelled]], by decide,
      by decide, rfl⟩
  refine ⟨⟨letters, [.nonterminal (.named "AB")], by decide, by decide, by decide⟩,
    ⟨_, reads, empty, ?_, spelled, ?_, by decide, by decide⟩, by decide, by decide⟩
  · exact Grammar.mem_rules_ofRules.2 (by simp)
  · exact Grammar.mem_rules_ofRules.2 (by simp)

end StrongLL
