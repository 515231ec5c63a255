import StrongLL.Grammar.Basic
import StrongLL.Lookahead.KnownSets
import StrongLL.Order.Climb

/-!
# FIRST sets

The FIRST set of a sequence of symbols holds the words that the sequence derives, each cut to its
first `k` characters. The rules are swept until no set grows. A nonterminal that derives no word of
terminals never gets an entry, and neither does a sequence in which it occurs.
-/

namespace StrongLL

set_option autoImplicit false

/-- What a symbol begins with, as far as it is known. -/
def firstOfSymbol (known : KnownSets) : Symbol → Option TupleSet
  | .terminal t => some (.singleton [t])
  | .nonterminal n => known.get? n

/-- What a sequence begins with: unknown as soon as one of its nonterminals is. -/
def firstOfSequence (k : Nat) (known : KnownSets) (symbols : List Symbol) : Option TupleSet :=
  (symbols.mapM (firstOfSymbol known)).map (TupleSet.concatAll k)

/-- Learns from one rule what its left side begins with. -/
def relaxFirst (k : Nat) (known : KnownSets) (rule : Rule) : KnownSets :=
  match firstOfSequence k known rule.right with
  | some set => known.relax rule.left set
  | none => known

/-- Learns from each rule in turn. -/
def sweepFirst (k : Nat) (rules : List Rule) (known : KnownSets) : KnownSets :=
  rules.foldl (relaxFirst k) known

/-- The terminals that rules mention, and the empty word. -/
def alphabetOf (rules : List Rule) : List Terminal :=
  .epsilon :: (rules.flatMap Rule.right).filterMap Symbol.terminal?

theorem epsilon_mem_alphabetOf (rules : List Rule) : .epsilon ∈ alphabetOf rules :=
  List.mem_cons_self

theorem terminal_mem_alphabetOf {rules : List Rule} {rule : Rule} (member : rule ∈ rules)
    {t : Terminal} (occurs : .terminal t ∈ rule.right) : t ∈ alphabetOf rules :=
  List.mem_cons_of_mem _
    (List.mem_filterMap.2 ⟨_, List.mem_flatMap.2 ⟨rule, member, occurs⟩, rfl⟩)

theorem exists_mem_of_mapM_eq_some {Item Image : Type} {f : Item → Option Image} {items : List Item}
    {images : List Image} (mapped : items.mapM f = some images) {image : Image}
    (member : image ∈ images) : ∃ item ∈ items, f item = some image := by
  induction items generalizing images with
  | nil =>
    simp only [List.mapM_nil, Option.pure_def, Option.some.injEq] at mapped
    subst mapped
    exact absurd member List.not_mem_nil
  | cons item items induction =>
    simp only [List.mapM_cons, Option.bind_eq_bind, Option.pure_def, Option.bind_eq_some_iff,
      Option.some.injEq] at mapped
    obtain ⟨head, headMapped, tail, tailMapped, rfl⟩ := mapped
    rcases List.mem_cons.1 member with same | later
    · exact ⟨item, List.mem_cons_self, same ▸ headMapped⟩
    · obtain ⟨found, foundMember, foundMapped⟩ := induction tailMapped later
      exact ⟨found, List.mem_cons_of_mem item foundMember, foundMapped⟩

theorem within_firstOfSequence {alphabet : List Terminal} (epsilonMember : .epsilon ∈ alphabet)
    (k : Nat) (known : KnownSets)
    (spelledOver : ∀ n set, known.get? n = some set → set.Over alphabet) (symbols : List Symbol)
    (spelled : ∀ t, .terminal t ∈ symbols → t ∈ alphabet) {set : TupleSet}
    (found : firstOfSequence k known symbols = some set) :
    set.Within (wordsUpTo alphabet (max k 1)) := by
  obtain ⟨sets, mapped, rfl⟩ := Option.map_eq_some_iff.1 found
  refine TupleSet.within_concatAll epsilonMember k sets fun part member => ?_
  obtain ⟨s, occurs, known⟩ := exists_mem_of_mapM_eq_some mapped member
  cases s with
  | terminal t =>
    cases known
    intro tuple inside u uMember
    have same : tuple = [t] := SortedSet.mem_singleton.1 inside
    subst same
    exact (List.mem_singleton.1 uMember) ▸ spelled t occurs
  | nonterminal n => exact spelledOver n part known

theorem within_sweepFirst (k : Nat) (rules : List Rule) (known : KnownSets)
    (within : known.Within (rules.map Rule.left) (wordsUpTo (alphabetOf rules) (max k 1))) :
    (sweepFirst k rules known).Within (rules.map Rule.left)
      (wordsUpTo (alphabetOf rules) (max k 1)) := by
  apply List.foldlRecOn _ _ within
  intro known within rule member
  unfold relaxFirst
  split
  · next set found =>
    refine KnownSets.within_relax within (List.mem_map.2 ⟨rule, member, rfl⟩) ?_
    exact within_firstOfSequence (epsilon_mem_alphabetOf rules) k known
      (fun n set held => TupleSet.over_of_within (within n set held).2) rule.right
      (fun t occurs => terminal_mem_alphabetOf member occurs) found
  · exact within

namespace Grammar

/-- The FIRST sets of the nonterminals, for tuples of at most `k` terminals. -/
def first (g : Grammar) (k : Nat) : KnownSets :=
  climb KnownSets.weight (sweepFirst k g.rules.toList)
    (KnownSets.Within (g.rules.toList.map Rule.left)
      (wordsUpTo (alphabetOf g.rules.toList) (max k 1)))
    (within_sweepFirst k g.rules.toList)
    ⟨_, fun _ within => KnownSets.weight_le_of_within within⟩
    ∅ KnownSets.within_empty

end Grammar

end StrongLL
