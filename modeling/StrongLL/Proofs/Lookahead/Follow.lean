import StrongLL.Proofs.Lookahead.First

/-!
# What FOLLOW sets hold

A nonterminal has a FOLLOW set exactly if it occurs in some sentential form before symbols that
derive a word, and then the set holds the cuts of the words that come after it. Soundness is an
invariant of the sweeps. Completeness follows a derivation from the start step by step: an
occurrence in the new form stands before, inside or behind the body that was just put in, and only
inside it does the fixed point have anything to say. Nothing more is asked of the fixed point than
that the empty word follows the start, so the sweeps cannot come to rest anywhere else.
-/

namespace StrongLL

set_option autoImplicit false

theorem append_eq_append_cons {Item : Type} {first second before behind : List Item} {item : Item}
    (same : first ++ second = before ++ item :: behind) :
    (∃ middle, before = first ++ middle ∧ second = middle ++ item :: behind) ∨
      ∃ middle, first = before ++ item :: middle ∧ behind = middle ++ second := by
  rcases List.append_eq_append_iff.1 same with ⟨middle, rfl, rfl⟩ | ⟨middle, rfl, rest⟩
  · exact .inl ⟨middle, rfl, rfl⟩
  · cases middle with
    | nil => exact .inl ⟨[], by simp, rest.symm⟩
    | cons other middle =>
        cases rest
        exact .inr ⟨middle, rfl, rfl⟩

theorem eq_of_append_cons_eq_singleton {before behind : SententialForm} {s t : Symbol}
    (same : before ++ s :: behind = [t]) : before = [] ∧ s = t ∧ behind = [] := by
  simpa [List.append_eq_cons_iff] using same

theorem mem_occurrences_iff {symbols behind : List Symbol} {n : NonTerminal} :
    (n, behind) ∈ occurrences symbols ↔ ∃ before, symbols = before ++ .nonterminal n :: behind := by
  induction symbols with
  | nil => simp [occurrences]
  | cons s symbols induction =>
      have later : (∃ before, s :: symbols = before ++ .nonterminal n :: behind) ↔
          (s = .nonterminal n ∧ symbols = behind) ∨
            ∃ before, symbols = before ++ .nonterminal n :: behind := by
        constructor
        · intro ⟨before, same⟩
          cases before with
          | nil => cases same; exact .inl ⟨rfl, rfl⟩
          | cons other before => cases same; exact .inr ⟨before, rfl⟩
        · intro place
          rcases place with ⟨rfl, rfl⟩ | ⟨before, rfl⟩
          · exact ⟨[], rfl⟩
          · exact ⟨s :: before, rfl⟩
      rw [later]
      cases s with
      | terminal t => simp [occurrences, induction]
      | nonterminal m => simp [occurrences, induction, eq_comm]

theorem body_of_occurrence {rule : Rule} {before behind : List Symbol} {n : NonTerminal}
    (split : rule.right = before ++ .nonterminal n :: behind) : rule.body = rule.right := by
  unfold Rule.body
  split
  · next empty =>
      rw [Rule.isEpsilon, beq_iff_eq, split] at empty
      have found : Symbol.nonterminal n ∈ [Symbol.terminal .epsilon] := by
        rw [← empty]
        simp
      simp at found
  · rfl

theorem right_of_occurrence {rule : Rule} {before behind : List Symbol} {n : NonTerminal}
    (split : rule.body = before ++ .nonterminal n :: behind) :
    rule.right = before ++ .nonterminal n :: behind := by
  rw [← split, Rule.body]
  split
  · next empty => simp [Rule.body, empty] at split
  · rfl

namespace Grammar

/-- Symbols that stand behind a nonterminal in a sentential form. -/
def Context (g : Grammar) (n : NonTerminal) (behind : SententialForm) : Prop :=
  ∃ before, g.Derives [.nonterminal g.start] (before ++ .nonterminal n :: behind)

/-- What the start has and every step keeps, every form has that the start derives. -/
theorem Derives.step_induction {g : Grammar} {first last : SententialForm}
    (Holds : SententialForm → Prop) (base : Holds first)
    (kept : ∀ form next, Holds form → g.Step form next → Holds next)
    (derives : g.Derives first last) : Holds last := by
  induction derives with
  | refl => exact base
  | step head _ induction => exact induction (kept _ _ base head)

theorem Context.of_rule {g : Grammar} {rule : Rule} (member : rule ∈ g.rules)
    {outer : SententialForm} (context : g.Context rule.left outer) {n : NonTerminal}
    {before behind : List Symbol} (split : rule.body = before ++ .nonterminal n :: behind) :
    g.Context n (behind ++ outer) := by
  obtain ⟨front, derives⟩ := context
  refine ⟨front ++ before, derives.trans ?_⟩
  have replaced := Derives.of_rule member front outer
  rw [split] at replaced
  simpa only [List.append_assoc, List.cons_append] using replaced

/-- An occurrence in the form after a step stands behind the body that was put in, inside it or
before it. -/
theorem Step.occurrence_cases {g : Grammar} {form next before behind : SententialForm}
    {n : NonTerminal} (step : g.Step form next) (same : next = before ++ .nonterminal n :: behind) :
    (∃ front, form = front ++ .nonterminal n :: behind) ∨
      (∃ rule ∈ g.rules, ∃ front back inner rest, form = front ++ .nonterminal rule.left :: back ∧
        rule.body = inner ++ .nonterminal n :: rest ∧ behind = rest ++ back) ∨
        ∃ rule ∈ g.rules, ∃ middle back,
          form = before ++ .nonterminal n :: (middle ++ .nonterminal rule.left :: back) ∧
            behind = middle ++ (rule.body ++ back) := by
  cases step with
  | replace front back rule member =>
      rw [List.append_assoc] at same
      rcases append_eq_append_cons same with ⟨middle, _, inner⟩ | ⟨middle, whole, split⟩
      · rcases append_eq_append_cons inner with ⟨rest, _, split⟩ | ⟨rest, body, split⟩
        · exact .inl ⟨front ++ .nonterminal rule.left :: rest, by simp [split]⟩
        · exact .inr (.inl ⟨rule, member, front, back, middle, rest, rfl, body, split⟩)
      · exact .inr (.inr ⟨rule, member, middle, back, by simp [whole], split⟩)

/-- What the body of a rule derives in its place, the left side does. -/
theorem DerivesWord.of_replaced {g : Grammar} {rule : Rule} (member : rule ∈ g.rules)
    {before behind : SententialForm} {word : Text}
    (derives : g.DerivesWord (before ++ (rule.body ++ behind)) word) :
    g.DerivesWord (before ++ .nonterminal rule.left :: behind) word := by
  rcases derives.split with ⟨front, rest, split, derivesFront, derivesRest⟩
  rcases derivesRest.split with ⟨inner, back, inside, derivesInner, derivesBack⟩
  rw [split, inside]
  exact derivesFront.append (DerivesWord.append (.of_rule member derivesInner) derivesBack)

end Grammar

/-- Every set holds cuts of words that come after its nonterminal, and at least one of them. -/
def SoundFollow (g : Grammar) (k : Nat) (follow : KnownSets) : Prop :=
  ∀ n set, follow.get? n = some set → set.isEmpty = false ∧ ∀ tuple ∈ set, ∃ behind word,
    g.Context n behind ∧ g.DerivesWord behind word ∧ Tuple.cut k word = tuple

section Sweeps

variable {g : Grammar} {k : Nat} {first follow : KnownSets}

theorem sound_relaxOccurrence (soundFirst : SoundFirst g k first) (sound : SoundFollow g k follow)
    {rule : Rule} (member : rule ∈ g.rules) {after : TupleSet} (afterFilled : after.isEmpty = false)
    (afterMembers : ∀ tuple ∈ after, ∃ behind word,
      g.Context rule.left behind ∧ g.DerivesWord behind word ∧ Tuple.cut k word = tuple)
    {occurrence : NonTerminal × List Symbol} (occurs : occurrence ∈ occurrences rule.right) :
    SoundFollow g k (relaxOccurrence k first after follow occurrence) := by
  obtain ⟨n, behind⟩ := occurrence
  obtain ⟨before, split⟩ := mem_occurrences_iff.1 occurs
  unfold relaxOccurrence
  split
  · next trailer found =>
      obtain ⟨trailerFilled, trailerMembers⟩ := sound_firstOfSequence soundFirst found
      apply KnownSets.Only.relax sound (TupleSet.nonempty_concat trailerFilled afterFilled)
      intro tuple joined
      obtain ⟨front, inTrailer, back, inAfter, rfl⟩ :=
        (TupleSet.mem_concat trailerFilled afterFilled).1 joined
      obtain ⟨inner, derivesInner, rfl⟩ := trailerMembers front inTrailer
      obtain ⟨outer, word, context, derivesOuter, rfl⟩ := afterMembers back inAfter
      have body : rule.body = before ++ .nonterminal n :: behind := by
        rw [body_of_occurrence split, split]
      refine ⟨behind ++ outer, inner ++ word, context.of_rule member body,
        derivesInner.append derivesOuter, ?_⟩
      rw [Tuple.concat_cut]
  · exact sound

theorem sound_relaxFollow (soundFirst : SoundFirst g k first) (sound : SoundFollow g k follow)
    {rule : Rule} (member : rule ∈ g.rules) :
    SoundFollow g k (relaxFollow k first follow rule) := by
  unfold relaxFollow
  split
  · next after found =>
      obtain ⟨afterFilled, afterMembers⟩ := sound rule.left after found
      apply List.foldlRecOn _ _ sound
      intro follow sound occurrence occurs
      exact sound_relaxOccurrence soundFirst sound member afterFilled afterMembers occurs
  · exact sound

theorem sound_sweepFollow (soundFirst : SoundFirst g k first) (sound : SoundFollow g k follow) :
    SoundFollow g k (sweepFollow k first g.rules.toList follow) := by
  apply List.foldlRecOn _ _ sound
  intro follow sound rule member
  exact sound_relaxFollow soundFirst sound member

theorem below_relaxOccurrence (k : Nat) (first : KnownSets) (after : TupleSet) (follow : KnownSets)
    (occurrence : NonTerminal × List Symbol) :
    follow.Below (relaxOccurrence k first after follow occurrence) := by
  unfold relaxOccurrence
  split
  · exact follow.below_relax _ _
  · exact .refl follow

theorem below_relaxFollow (k : Nat) (first follow : KnownSets) (rule : Rule) :
    follow.Below (relaxFollow k first follow rule) := by
  unfold relaxFollow
  split
  · exact KnownSets.below_foldl (below_relaxOccurrence k first _) _ follow
  · exact .refl follow

/-- Relaxing by any rule changes nothing. -/
def ClosedFollow (g : Grammar) (k : Nat) (first follow : KnownSets) : Prop :=
  ∀ rule ∈ g.rules, relaxFollow k first follow rule = follow

theorem known_of_occurrence (closed : ClosedFollow g k first follow) {rule : Rule}
    (member : rule ∈ g.rules) {after trailer : TupleSet}
    (foundAfter : follow.get? rule.left = some after) {n : NonTerminal} {behind : List Symbol}
    (occurs : (n, behind) ∈ occurrences rule.right)
    (foundTrailer : firstOfSequence k first behind = some trailer) :
    ∃ larger, follow.get? n = some larger ∧
      ∀ tuple ∈ trailer.concat k after, tuple ∈ larger := by
  have whole := closed rule member
  rw [relaxFollow, foundAfter] at whole
  have settled : ((occurrences rule.right).foldl (relaxOccurrence k first after) follow).weight ≤
      follow.weight := Nat.le_of_eq (congrArg KnownSets.weight whole)
  have fixed := KnownSets.fixed_of_weight_foldl_le (below_relaxOccurrence k first after) settled
    (n, behind) occurs
  rw [relaxOccurrence, foundTrailer] at fixed
  exact KnownSets.known_of_relax_eq fixed

theorem closedFollow_of_settled
    (settled : (sweepFollow k first g.rules.toList follow).weight ≤ follow.weight) :
    ClosedFollow g k first follow :=
  KnownSets.fixed_of_weight_foldl_le (below_relaxFollow k first) settled

/-- The empty word is known to follow the start. -/
def StartsFollow (g : Grammar) (follow : KnownSets) : Prop :=
  ∃ set, follow.get? g.start = some set ∧ Tuple.epsilon ∈ set

theorem StartsFollow.mono {more : KnownSets} (starts : StartsFollow g follow)
    (below : follow.Below more) : StartsFollow g more := by
  obtain ⟨set, found, member⟩ := starts
  obtain ⟨larger, foundLarger, subset⟩ := below g.start set found
  exact ⟨larger, foundLarger, subset _ member⟩

/-- Every nonterminal of the form is known to be followed by the words that the symbols behind it
derive. -/
def FollowCovers (g : Grammar) (k : Nat) (follow : KnownSets) (form : SententialForm) : Prop :=
  ∀ before n behind word, form = before ++ .nonterminal n :: behind → g.DerivesWord behind word →
    ∃ set, follow.get? n = some set ∧ Tuple.cut k word ∈ set

theorem StartsFollow.covers_start (starts : StartsFollow g follow) :
    FollowCovers g k follow [.nonterminal g.start] := by
  intro before n behind word same derives
  obtain ⟨_, named, rfl⟩ := eq_of_append_cons_eq_singleton same.symm
  cases named
  obtain ⟨rules, yields⟩ := Grammar.derivesWord_iff_yields.1 derives
  rw [yields.of_nil.1, Tuple.cut_nil]
  exact starts

/-- What follows the left side of a rule, after what the symbols behind an occurrence derive, is
known to follow the nonterminal there. -/
theorem ClosedFollow.mem_of_occurrence (closed : ClosedFollow g k (g.first k) follow) {rule : Rule}
    (member : rule ∈ g.rules) {n : NonTerminal} {before behind : List Symbol}
    (split : rule.body = before ++ .nonterminal n :: behind) {after : TupleSet}
    (foundAfter : follow.get? rule.left = some after) {inside outside : Text}
    (inAfter : Tuple.cut k outside ∈ after) (derives : g.DerivesWord behind inside) :
    ∃ set, follow.get? n = some set ∧ Tuple.cut k (inside ++ outside) ∈ set := by
  obtain ⟨trailer, foundTrailer, inTrailer⟩ :=
    Grammar.mem_firstOfSequence_of_derives (k := k) derives
  have occurs : (n, behind) ∈ occurrences rule.right :=
    mem_occurrences_iff.2 ⟨before, right_of_occurrence split⟩
  obtain ⟨larger, foundLarger, subset⟩ :=
    known_of_occurrence closed member foundAfter occurs foundTrailer
  refine ⟨larger, foundLarger, subset _ ?_⟩
  rw [TupleSet.mem_concat (SortedSet.nonempty_iff.2 ⟨_, inTrailer⟩)
    (SortedSet.nonempty_iff.2 ⟨_, inAfter⟩)]
  exact ⟨_, inTrailer, _, inAfter, Tuple.concat_cut k inside outside⟩

theorem ClosedFollow.covers_step (closed : ClosedFollow g k (g.first k) follow)
    {form next : SententialForm} (covers : FollowCovers g k follow form) (step : g.Step form next) :
    FollowCovers g k follow next := by
  intro before n behind word same derives
  rcases step.occurrence_cases same with ⟨front, stays⟩ |
    ⟨rule, member, front, back, inner, rest, place, body, split⟩ |
    ⟨rule, member, middle, back, place, split⟩
  · exact covers front n behind word stays derives
  · -- The occurrence is in the new body: what follows the left side follows it too.
    rw [split] at derives
    obtain ⟨inside, outside, rfl, derivesInside, derivesOutside⟩ := derives.split
    obtain ⟨after, foundAfter, inAfter⟩ := covers front rule.left back outside place derivesOutside
    exact closed.mem_of_occurrence member body foundAfter inAfter derivesInside
  · -- The occurrence is before the body, which derives what the left side derived.
    rw [split] at derives
    exact covers before n _ word place (.of_replaced member derives)

/-- Every occurrence in a sentential form is known to be followed by what comes after it. -/
theorem ClosedFollow.all (closed : ClosedFollow g k (g.first k) follow)
    (starts : StartsFollow g follow) : follow.All fun n tuple => ∃ behind word,
      g.Context n behind ∧ g.DerivesWord behind word ∧ Tuple.cut k word = tuple := by
  rintro n _ ⟨behind, word, ⟨before, reached⟩, derives, rfl⟩
  have covers : FollowCovers g k follow (before ++ .nonterminal n :: behind) := by
    apply reached.step_induction (FollowCovers g k follow) starts.covers_start
    exact fun _ _ covers step => closed.covers_step covers step
  exact covers before n behind word rfl derives

end Sweeps

theorem startsFollow_start (g : Grammar) :
    StartsFollow g ((∅ : KnownSets).insert g.start .epsilon) :=
  ⟨.epsilon, SortedMap.get?_insert_self .., SortedSet.mem_singleton.2 rfl⟩

theorem soundFollow_start (g : Grammar) (k : Nat) :
    SoundFollow g k ((∅ : KnownSets).insert g.start .epsilon) := by
  intro n set found
  rw [SortedMap.get?_insert] at found
  split at found
  · next same =>
      cases found
      subst same
      refine ⟨rfl, fun tuple member => ⟨[], [], ⟨[], .refl _⟩, .refl [], ?_⟩⟩
      rw [SortedSet.mem_singleton.1 member, Tuple.cut_nil]
  · simp at found

namespace Grammar

variable {g : Grammar} {k : Nat} {n : NonTerminal} {set : TupleSet}

theorem sound_follow (g : Grammar) (k : Nat) : SoundFollow g k (g.follow k) := by
  apply climb_induction _ _ _ _ _ (SoundFollow g k)
  · exact fun _ sound => sound_sweepFollow (sound_first g k) sound
  · exact soundFollow_start g k

theorem closed_follow (g : Grammar) (k : Nat) : ClosedFollow g k (g.first k) (g.follow k) :=
  closedFollow_of_settled
    (size_step_climb_le KnownSets.weight (sweepFollow k (g.first k) g.rules.toList) _ _ _ _ _)

theorem starts_follow (g : Grammar) (k : Nat) : StartsFollow g (g.follow k) := by
  apply climb_induction _ _ _ _ _ (StartsFollow g)
  · exact fun follow starts =>
      starts.mono (KnownSets.below_foldl (below_relaxFollow k (g.first k)) _ follow)
  · exact startsFollow_start g

theorem all_follow (g : Grammar) (k : Nat) : (g.follow k).All fun n tuple => ∃ behind word,
    g.Context n behind ∧ g.DerivesWord behind word ∧ Tuple.cut k word = tuple :=
  (closed_follow g k).all (starts_follow g k)

/-- The sweeps come to rest at the FOLLOW sets from every sound start that knows what follows the
start symbol. -/
theorem stabilizes_follow {follow : KnownSets} (sound : SoundFollow g k follow)
    (starts : StartsFollow g follow) :
    Stabilizes (sweepFollow k (g.first k) g.rules.toList) follow (g.follow k) := by
  have grows := KnownSets.below_foldl (below_relaxFollow k (g.first k)) g.rules.toList
  apply KnownSets.stabilizes fun follow => SoundFollow g k follow ∧ StartsFollow g follow
  · exact fun _ both => both.1
  · exact fun follow both =>
      ⟨sound_sweepFollow (sound_first g k) both.1, both.2.mono (grows follow)⟩
  · exact grows
  · intro follow both same
    exact (closedFollow_of_settled (Nat.le_of_eq (congrArg KnownSets.weight same))).all both.2
  · exact sound_follow g k
  · exact all_follow g k
  · exact ⟨sound, starts⟩

theorem mem_follow_of_context {behind : SententialForm} {word : Text} (context : g.Context n behind)
    (derives : g.DerivesWord behind word) :
    ∃ set, (g.follow k).get? n = some set ∧ Tuple.cut k word ∈ set :=
  all_follow g k n _ ⟨behind, word, context, derives, rfl⟩

/-- A nonterminal has a FOLLOW set exactly if it occurs before symbols that derive a word. -/
theorem follow_known_iff : (∃ set, (g.follow k).get? n = some set) ↔
    ∃ behind word, g.Context n behind ∧ g.DerivesWord behind word := by
  rw [KnownSets.Only.known_iff (sound_follow g k) (all_follow g k)]
  constructor
  · exact fun ⟨_, behind, word, context, derives, _⟩ => ⟨behind, word, context, derives⟩
  · exact fun ⟨behind, word, context, derives⟩ => ⟨_, behind, word, context, derives, rfl⟩

/-- A FOLLOW set holds the cuts of the words that come after its nonterminal. -/
theorem mem_follow_iff (found : (g.follow k).get? n = some set) {tuple : Tuple} :
    tuple ∈ set ↔ ∃ behind word,
      g.Context n behind ∧ g.DerivesWord behind word ∧ Tuple.cut k word = tuple :=
  KnownSets.Only.mem_iff (sound_follow g k) (all_follow g k) found

/-- The sweeps for FOLLOW sets end. A nonterminal then has an entry exactly if it occurs in some
sentential form before symbols that derive a word, and the entry holds the cuts of the words that
come after it in some sentential form. -/
theorem follow_sets_are_exact (g : Grammar) (k : Nat) :
    Stabilizes (sweepFollow k (g.first k) g.rules.toList)
        ((∅ : KnownSets).insert g.start .epsilon) (g.follow k) ∧
      (∀ n, (∃ set, (g.follow k).get? n = some set) ↔ ∃ before behind word,
        g.Derives [.nonterminal g.start] (before ++ .nonterminal n :: behind) ∧
          g.DerivesWord behind word) ∧
      ∀ n tuple, (∃ set, (g.follow k).get? n = some set ∧ tuple ∈ set) ↔ ∃ before behind word,
        g.Derives [.nonterminal g.start] (before ++ .nonterminal n :: behind) ∧
          g.DerivesWord behind word ∧ Tuple.cut k word = tuple := by
  refine ⟨stabilizes_follow (soundFollow_start g k) (startsFollow_start g), fun n => ?_,
    fun n tuple => ?_⟩
  · rw [follow_known_iff]
    constructor
    · intro ⟨behind, word, ⟨before, reached⟩, derives⟩
      exact ⟨before, behind, word, reached, derives⟩
    · intro ⟨before, behind, word, reached, derives⟩
      exact ⟨behind, word, ⟨before, reached⟩, derives⟩
  · constructor
    · intro ⟨set, found, member⟩
      obtain ⟨behind, word, ⟨before, reached⟩, derives, cut⟩ := (mem_follow_iff found).1 member
      exact ⟨before, behind, word, reached, derives, cut⟩
    · intro ⟨before, behind, word, reached, derives, cut⟩
      obtain ⟨set, found, member⟩ :=
        mem_follow_of_context (k := k) ⟨before, reached⟩ derives
      exact ⟨set, found, cut ▸ member⟩

end Grammar

end StrongLL
