import StrongLL.Lookahead.First

/-!
# FOLLOW sets

The FOLLOW set of a nonterminal holds what may come after it in a sentential form, each word cut to
its first `k` characters; the empty word follows the start symbol. Every occurrence in a rule passes
on what follows the left side, after what the symbols behind the occurrence begin with. The rules
are swept until no set grows. A nonterminal that no derivation from the start reaches gets no entry.
-/

namespace StrongLL

set_option autoImplicit false

/-- The nonterminals of a sequence from left to right, each with the symbols behind it. -/
def occurrences : List Symbol → List (NonTerminal × List Symbol)
  | [] => []
  | .terminal _ :: rest => occurrences rest
  | .nonterminal n :: rest => (n, rest) :: occurrences rest

/-- Learns from one occurrence what follows its nonterminal, where `after` follows the left side. -/
def relaxOccurrence (k : Nat) (first : KnownSets) (after : TupleSet) (follow : KnownSets)
    (occurrence : NonTerminal × List Symbol) : KnownSets :=
  match firstOfSequence k first occurrence.2 with
  | some trailer => follow.relax occurrence.1 (trailer.concat k after)
  | none => follow

/-- Learns from the occurrences of one rule, once something is known to follow its left side. -/
def relaxFollow (k : Nat) (first follow : KnownSets) (rule : Rule) : KnownSets :=
  match follow.get? rule.left with
  | some after => (occurrences rule.right).foldl (relaxOccurrence k first after) follow
  | none => follow

/-- Learns from each rule in turn. -/
def sweepFollow (k : Nat) (first : KnownSets) (rules : List Rule) (follow : KnownSets) :
    KnownSets :=
  rules.foldl (relaxFollow k first) follow

/-- The terminals of rules and of known sets, and the empty word. -/
def alphabetWith (first : KnownSets) (rules : List Rule) : List Terminal :=
  alphabetOf rules ++ first.values.flatMap fun set => set.toList.flatten

/-- The nonterminals that occur in rules, and the start. -/
def owners (start : NonTerminal) (rules : List Rule) : List NonTerminal :=
  start :: rules.flatMap fun rule => (occurrences rule.right).map (·.1)

theorem epsilon_mem_alphabetWith (first : KnownSets) (rules : List Rule) :
    .epsilon ∈ alphabetWith first rules :=
  List.mem_append_left _ (epsilon_mem_alphabetOf rules)

theorem over_alphabetWith (first : KnownSets) (rules : List Rule) (n : NonTerminal) (set : TupleSet)
    (found : first.get? n = some set) : set.Over (alphabetWith first rules) := by
  intro tuple member t occurs
  refine List.mem_append_right _ (List.mem_flatMap.2 ⟨set, ?_, ?_⟩)
  · exact List.mem_map.2 ⟨(n, set), SortedMap.get?_eq_some_iff.1 found, rfl⟩
  · exact List.mem_flatten.2 ⟨tuple, member, occurs⟩

theorem mem_of_mem_occurrences {symbols : List Symbol} {occurrence : NonTerminal × List Symbol}
    (member : occurrence ∈ occurrences symbols) : ∀ s ∈ occurrence.2, s ∈ symbols := by
  induction symbols with
  | nil => exact absurd member List.not_mem_nil
  | cons s symbols induction =>
    cases s with
    | terminal t =>
      exact fun other occurs => List.mem_cons_of_mem _ (induction member other occurs)
    | nonterminal n =>
      rcases List.mem_cons.1 member with same | later
      · subst same
        exact fun other occurs => List.mem_cons_of_mem _ occurs
      · exact fun other occurs => List.mem_cons_of_mem _ (induction later other occurs)

section

variable (k : Nat) (first : KnownSets) (start : NonTerminal) (rules : List Rule)

/-- The entries that a FOLLOW computation can make. -/
def FollowFits (follow : KnownSets) : Prop :=
  follow.Within (owners start rules) (wordsUpTo (alphabetWith first rules) (max k 1))

theorem followFits_relaxFollow {rule : Rule} (member : rule ∈ rules) (follow : KnownSets)
    (fits : FollowFits k first start rules follow) :
    FollowFits k first start rules (relaxFollow k first follow rule) := by
  unfold relaxFollow
  split
  · next after found =>
    have afterOver := TupleSet.over_of_within (fits rule.left after found).2
    apply List.foldlRecOn _ _ fits
    intro follow fits occurrence occurs
    unfold relaxOccurrence
    split
    · next trailer known =>
      refine KnownSets.within_relax fits ?_ ?_
      · exact List.mem_cons_of_mem start
          (List.mem_flatMap.2 ⟨rule, member, List.mem_map.2 ⟨occurrence, occurs, rfl⟩⟩)
      · have trailerWithin := within_firstOfSequence (epsilon_mem_alphabetWith first rules) k
          first (over_alphabetWith first rules) occurrence.2
          (fun t spelled => List.mem_append_left _
            (terminal_mem_alphabetOf member (mem_of_mem_occurrences occurs _ spelled))) known
        exact TupleSet.within_concat (epsilon_mem_alphabetWith first rules) k
          (TupleSet.over_of_within trailerWithin) afterOver
    · exact fits
  · exact fits

theorem followFits_sweepFollow (follow : KnownSets) (fits : FollowFits k first start rules follow) :
    FollowFits k first start rules (sweepFollow k first rules follow) := by
  apply List.foldlRecOn _ _ fits
  intro follow fits rule member
  exact followFits_relaxFollow k first start rules member follow fits

theorem followFits_start :
    FollowFits k first start rules ((∅ : KnownSets).insert start .epsilon) := by
  intro n set found
  rw [SortedMap.get?_insert] at found
  split at found
  · next same =>
    cases found
    exact ⟨same ▸ List.mem_cons_self,
      TupleSet.within_epsilon (epsilon_mem_alphabetWith first rules) k⟩
  · simp at found

end

namespace Grammar

/-- The FOLLOW sets of the nonterminals, given their FIRST sets. -/
def followFrom (g : Grammar) (first : KnownSets) (k : Nat) : KnownSets :=
  climb KnownSets.weight (sweepFollow k first g.rules.toList)
    (FollowFits k first g.start g.rules.toList)
    (followFits_sweepFollow k first g.start g.rules.toList)
    ⟨_, fun _ fits => KnownSets.weight_le_of_within fits⟩
    ((∅ : KnownSets).insert g.start .epsilon)
    (followFits_start k first g.start g.rules.toList)

/-- The FOLLOW sets of the nonterminals, for tuples of at most `k` terminals. -/
def follow (g : Grammar) (k : Nat) : KnownSets := g.followFrom (g.first k) k

end Grammar

end StrongLL
