import StrongLL.Proofs.Grammar.EpsilonFree
import StrongLL.Proofs.Table.Conflicts

/-!
# Rules that a table does not depend on

The lookahead of a rule asks for a sentential form in which the body and what stands behind the left
side derive a word. What stands before the left side is not asked for anything. So a rule that no
derivation of a word applies may still have a lookahead, when only the symbols before it derive
nothing, and then it can be part of a conflict. Rules whose left side never stands before symbols that
derive a word count for nothing: in the grammar without them every other rule applies before the same
tuples. Where the symbols before a left side always derive something, the rules that derivations of
words apply are all that counts.
-/

namespace StrongLL

set_option autoImplicit false

namespace Grammar

variable {g h : Grammar} {k : Nat} {rule : Rule} {n : NonTerminal} {tuple : Tuple}
  {symbols behind form last : SententialForm} {word outer : Text} {rules : List Rule}

/-- In some sentential form the rule can be applied so that its body and the symbols behind derive a
word. -/
def Selectable (g : Grammar) (rule : Rule) : Prop :=
  ∃ before behind word, g.Derives [.nonterminal g.start] (before ++ .nonterminal rule.left :: behind) ∧
    g.DerivesWord (rule.body ++ behind) word

/-- In some sentential form the symbols behind the left side of the rule derive a word. -/
def Live (g : Grammar) (rule : Rule) : Prop :=
  ∃ before behind word, g.Derives [.nonterminal g.start] (before ++ .nonterminal rule.left :: behind) ∧
    g.DerivesWord behind word

/-- Some derivation of a word applies the rule. -/
def Used (g : Grammar) (rule : Rule) : Prop :=
  ∃ before behind word, g.Derives [.nonterminal g.start] (before ++ .nonterminal rule.left :: behind) ∧
    g.DerivesWord (before ++ rule.body ++ behind) word

/-- Wherever a rule can be applied so that its body and the symbols behind derive a word, the symbols
before its left side derive a word too. -/
def LeftContextsDerive (g : Grammar) : Prop :=
  ∀ rule ∈ g.rules, ∀ before behind word,
    g.Derives [.nonterminal g.start] (before ++ .nonterminal rule.left :: behind) →
      g.DerivesWord (rule.body ++ behind) word → ∃ front, g.DerivesWord before front

/-- The grammar with the same start and only some of the rules. -/
def restrict (g : Grammar) (keeps : Rule → Prop) [DecidablePred keeps] : Grammar :=
  ofRules g.start (g.rules.toList.filter keeps)

section Monotone

variable (subset : ∀ rule ∈ h.rules, rule ∈ g.rules)
include subset

theorem Step.of_subset (step : h.Step form last) : g.Step form last := by
  cases step with
  | replace before behind rule member => exact .replace before behind rule (subset rule member)

theorem Derives.of_subset (derives : h.Derives form last) : g.Derives form last := by
  induction derives with
  | refl => exact .refl _
  | step first _ induction => exact .step (first.of_subset subset) induction

theorem Applies.of_subset (start : h.start = g.start) (applies : h.Applies k rule tuple) :
    g.Applies k rule tuple := by
  obtain ⟨behind, word, ⟨before, reached⟩, derives, cut⟩ := applies
  rw [start] at reached
  exact ⟨behind, word, ⟨before, reached.of_subset subset⟩, derives.of_subset subset, cut⟩

theorem IsStrongLL.of_subset (start : h.start = g.start) (strong : g.IsStrongLL k) :
    h.IsStrongLL k := by
  rintro ⟨first, memberFirst, second, memberSecond, different, left, tuple, applies, appliesSecond⟩
  exact strong ⟨first, subset first memberFirst, second, subset second memberSecond, different, left,
    tuple, applies.of_subset subset start, appliesSecond.of_subset subset start⟩

end Monotone

section Selection

theorem selectable_iff : g.Selectable rule ↔ ∃ tuple, g.Applies k rule tuple := by
  constructor
  · rintro ⟨before, behind, word, reached, derives⟩
    exact ⟨_, behind, word, ⟨before, reached⟩, derives, rfl⟩
  · rintro ⟨_, behind, word, ⟨before, reached⟩, derives, _⟩
    exact ⟨before, behind, word, reached, derives⟩

theorem Used.selectable (used : g.Used rule) : g.Selectable rule := by
  obtain ⟨before, behind, word, reached, derives⟩ := used
  rw [List.append_assoc] at derives
  obtain ⟨_, rest, _, _, derivesRest⟩ := derives.split
  exact ⟨before, behind, rest, reached, derivesRest⟩

theorem Selectable.live (selectable : g.Selectable rule) : g.Live rule := by
  obtain ⟨before, behind, word, reached, derives⟩ := selectable
  obtain ⟨_, rest, _, _, derivesRest⟩ := derives.split
  exact ⟨before, behind, rest, reached, derivesRest⟩

theorem Selectable.used (left : g.LeftContextsDerive) (member : rule ∈ g.rules)
    (selectable : g.Selectable rule) : g.Used rule := by
  obtain ⟨before, behind, word, reached, derives⟩ := selectable
  obtain ⟨front, derivesFront⟩ := left rule member before behind word reached derives
  refine ⟨before, behind, front ++ word, reached, ?_⟩
  rw [List.append_assoc]
  exact derivesFront.append derives

/-- A rule has no lookahead exactly if it is not selectable. -/
theorem ruleLookahead_eq_none_iff :
    ruleLookahead k (g.first k) (g.follow k) rule = none ↔ ¬g.Selectable rule := by
  rw [selectable_iff (k := k)]
  cases found : ruleLookahead k (g.first k) (g.follow k) rule with
  | none =>
      refine iff_of_true rfl fun ⟨tuple, applies⟩ => ?_
      obtain ⟨tuples, known, _⟩ := mem_ruleLookahead_iff.2 applies
      rw [found] at known
      cases known
  | some tuples =>
      have filled : tuples.isEmpty = false := by
        unfold ruleLookahead at found
        split at found
        · next body trailer foundBody foundTrailer =>
            cases found
            exact TupleSet.nonempty_concat (sound_firstOfSequence (sound_first g k) foundBody).1
              (sound_follow g k rule.left trailer foundTrailer).1
        · cases found
      obtain ⟨tuple, member⟩ := SortedSet.nonempty_iff.1 filled
      exact iff_of_false nofun
        (not_not_intro ⟨tuple, mem_ruleLookahead_iff.1 ⟨tuples, found, member⟩⟩)

/-- Both rules of a conflict are selectable. -/
theorem selectable_of_conflict {found : Conflict} (positive : 0 < k)
    (failed : g.table k = .error (.conflict found)) :
    g.Selectable found.first ∧ g.Selectable found.second := by
  obtain ⟨_, same, _, _, _, _, applies, appliesSecond⟩ := conflict_of_table_error positive failed
  cases same
  exact ⟨selectable_iff.2 ⟨_, applies⟩, selectable_iff.2 ⟨_, appliesSecond⟩⟩

/-- The cells of a table hold numbers of selectable rules. -/
theorem selectable_of_cell {table : Table} (built : g.table k = .ok table) {index : Nat}
    (cell : table.get? n tuple = some index) (named : table.order.rule? index = some rule) :
    g.Selectable rule := by
  obtain ⟨other, known, _, applies⟩ := (Table.get?_eq_some_iff_applies built).1 cell
  rw [named] at known
  cases known
  exact selectable_iff.2 ⟨tuple, applies⟩

end Selection

section Restriction

variable {keeps : Rule → Prop} [DecidablePred keeps]

theorem mem_rules_restrict : rule ∈ (g.restrict keeps).rules ↔ rule ∈ g.rules ∧ keeps rule := by
  rw [restrict, mem_rules_ofRules, List.mem_filter, decide_eq_true_iff]
  rfl

theorem rules_restrict_subset : ∀ rule ∈ (g.restrict keeps).rules, rule ∈ g.rules :=
  fun _ member => (mem_rules_restrict.1 member).1

/-- A restriction has a table exactly if the grammar has one, when it keeps every rule that applies
and lets it apply before the same tuples. -/
theorem exists_table_restrict_iff (positive : 0 < k)
    (applies : ∀ rule ∈ g.rules, ∀ tuple, g.Applies k rule tuple →
      keeps rule ∧ (g.restrict keeps).Applies k rule tuple) :
    (∃ table, g.table k = .ok table) ↔ ∃ table, (g.restrict keeps).table k = .ok table := by
  rw [exists_table_iff positive, exists_table_iff positive]
  refine ⟨fun strong => strong.of_subset rules_restrict_subset rfl, fun strong => ?_⟩
  rintro ⟨first, memberFirst, second, memberSecond, different, left, tuple, applyFirst, applySecond⟩
  obtain ⟨keepsFirst, inFirst⟩ := applies first memberFirst tuple applyFirst
  obtain ⟨keepsSecond, inSecond⟩ := applies second memberSecond tuple applySecond
  exact strong ⟨first, mem_rules_restrict.2 ⟨memberFirst, keepsFirst⟩, second,
    mem_rules_restrict.2 ⟨memberSecond, keepsSecond⟩, different, left, tuple, inFirst, inSecond⟩

/-- A part of a sentential form yields a word by kept rules only, when every rule is kept whose left
side stands behind fitting symbols and before symbols that derive a word. -/
theorem Yields.restrict (Fits : SententialForm → Prop)
    (grows : ∀ before symbols word, Fits before → g.DerivesWord symbols word → Fits (before ++ symbols))
    (kept : ∀ rule ∈ g.rules, ∀ before behind inner outer, Fits before →
      g.Derives [.nonterminal g.start] (before ++ .nonterminal rule.left :: behind) →
        g.DerivesWord rule.body inner → g.DerivesWord behind outer → keeps rule)
    (yields : g.Yields symbols word rules) {before : SententialForm} (fits : Fits before)
    (reached : g.Derives [.nonterminal g.start] (before ++ symbols ++ behind))
    (rest : g.DerivesWord behind outer) : (g.restrict keeps).Yields symbols word rules := by
  induction yields generalizing before behind outer with
  | nil => exact .nil
  | skip _ induction =>
      have single : g.DerivesWord [.terminal .epsilon] [] := .refl []
      refine .skip (induction (grows _ _ _ fits single) ?_ rest)
      simpa using reached
  | scan c _ induction =>
      have single : g.DerivesWord [.terminal (.char c)] [c] := .refl _
      refine .scan c (induction (grows _ _ _ fits single) ?_ rest)
      simpa using reached
  | @expand rule member symbols inner word _ _ body later inside induction =>
      have derivesBody := derivesWord_iff_yields.2 ⟨_, body⟩
      have derivesBehind := (derivesWord_iff_yields.2 ⟨_, later⟩).append rest
      have place : g.Derives [.nonterminal g.start]
          (before ++ .nonterminal rule.left :: (symbols ++ behind)) := by simpa using reached
      have replaced := place.trans (Derives.of_rule member before (symbols ++ behind))
      refine .expand (mem_rules_restrict.2 ⟨member, ?_⟩) (inside fits replaced derivesBehind)
        (induction (grows _ _ _ fits derivesBody) ?_ rest)
      · exact kept rule member before _ _ _ fits place derivesBody derivesBehind
      · simpa using replaced

end Restriction

section OnlyLive

variable [DecidablePred g.Live]

theorem DerivesWord.restrict_live {before : SententialForm} (derives : g.DerivesWord symbols word)
    (reached : g.Derives [.nonterminal g.start] (before ++ symbols ++ behind))
    (rest : g.DerivesWord behind outer) : (g.restrict g.Live).DerivesWord symbols word := by
  obtain ⟨rules, yields⟩ := derivesWord_iff_yields.1 derives
  refine derivesWord_iff_yields.2 ⟨rules, yields.restrict (fun _ => True) ?_ ?_ trivial reached rest⟩
  · exact fun _ _ _ _ _ => trivial
  · exact fun _ _ before behind _ outer _ place _ derives => ⟨before, behind, outer, place, derives⟩

/-- Every nonterminal of the form stands, in a form of the other grammar, before symbols that derive
the same words. -/
def ContextsKept (g h : Grammar) (form : SententialForm) : Prop :=
  ∀ before n behind word, form = before ++ .nonterminal n :: behind → g.DerivesWord behind word →
    ∃ other, h.Context n other ∧ h.DerivesWord other word

theorem contextsKept_start : ContextsKept g (g.restrict g.Live) [.nonterminal g.start] := by
  intro before n behind word same derives
  obtain ⟨_, named, rfl⟩ := eq_of_append_cons_eq_singleton same.symm
  cases named
  obtain ⟨rules, yields⟩ := derivesWord_iff_yields.1 derives
  rw [yields.of_nil.1]
  exact ⟨[], ⟨[], .refl _⟩, .refl []⟩

theorem ContextsKept.step {next : SententialForm} (kept : ContextsKept g (g.restrict g.Live) form)
    (reached : g.Derives [.nonterminal g.start] form) (step : g.Step form next) :
    ContextsKept g (g.restrict g.Live) next := by
  intro before n behind word same derives
  rcases step.occurrence_cases same with ⟨front, stays⟩ |
    ⟨rule, member, front, back, inner, rest, place, body, split⟩ |
    ⟨rule, member, middle, back, place, split⟩
  · exact kept front n behind word stays derives
  · -- The occurrence is in the new body, so the rule is live and the restriction applies it too.
    rw [split] at derives
    obtain ⟨inside, outside, rfl, derivesInside, derivesOutside⟩ := derives.split
    obtain ⟨other, context, derivesOther⟩ := kept front rule.left back outside place derivesOutside
    rw [place] at reached
    have live : g.Live rule := ⟨front, back, outside, reached, derivesOutside⟩
    have replaced := reached.trans (Derives.of_rule member front back)
    rw [body, ← List.append_assoc, List.append_cons] at replaced
    exact ⟨rest ++ other, context.of_rule (mem_rules_restrict.2 ⟨member, live⟩) body,
      (derivesInside.restrict_live replaced derivesOutside).append derivesOther⟩
  · -- The occurrence is before the body, which derives what the left side derived.
    rw [split] at derives
    exact kept before n _ word place (.of_replaced member derives)

theorem contextsKept_of_derives (derives : g.Derives [.nonterminal g.start] form) :
    ContextsKept g (g.restrict g.Live) form := by
  have both : g.Derives [.nonterminal g.start] form ∧ ContextsKept g (g.restrict g.Live) form := by
    refine derives.step_induction (fun form => g.Derives [.nonterminal g.start] form ∧
      ContextsKept g (g.restrict g.Live) form) ⟨.refl _, contextsKept_start⟩ ?_
    exact fun _ _ held step => ⟨held.1.trans (.step step (.refl _)), held.2.step held.1 step⟩
  exact both.2

/-- Without the rules that are not live, every rule applies where it did. -/
theorem Applies.restrict_live (member : rule ∈ g.rules) (applies : g.Applies k rule tuple) :
    g.Live rule ∧ (g.restrict g.Live).Applies k rule tuple := by
  have live : g.Live rule := (selectable_iff.2 ⟨tuple, applies⟩).live
  obtain ⟨behind, word, ⟨before, reached⟩, derives, cut⟩ := applies
  obtain ⟨inner, outer, rfl, derivesBody, derivesBehind⟩ := derives.split
  obtain ⟨other, context, derivesOther⟩ :=
    contextsKept_of_derives reached before rule.left behind outer rfl derivesBehind
  have place := reached.trans (Derives.of_rule member before behind)
  exact ⟨live, other, inner ++ outer, context,
    (derivesBody.restrict_live place derivesBehind).append derivesOther, cut⟩

end OnlyLive

section OnlyUsed

variable [DecidablePred g.Used]

theorem DerivesWord.restrict_used {before : SententialForm} {front : Text}
    (derives : g.DerivesWord symbols word) (derivesFront : g.DerivesWord before front)
    (reached : g.Derives [.nonterminal g.start] (before ++ symbols ++ behind))
    (rest : g.DerivesWord behind outer) : (g.restrict g.Used).DerivesWord symbols word := by
  obtain ⟨rules, yields⟩ := derivesWord_iff_yields.1 derives
  refine derivesWord_iff_yields.2 ⟨rules, yields.restrict
    (fun before => ∃ front, g.DerivesWord before front) ?_ ?_ ⟨front, derivesFront⟩ reached rest⟩
  · exact fun _ _ word ⟨front, derivesFront⟩ derives => ⟨front ++ word, derivesFront.append derives⟩
  · exact fun _ _ before behind inner outer ⟨front, derivesFront⟩ place body derives =>
      ⟨before, behind, _, place, (derivesFront.append body).append derives⟩

/-- A derivation from the start to a form that derives a word applies only rules that are used. -/
theorem Derives.restrict_used (derives : g.Derives form last)
    (reached : g.Derives [.nonterminal g.start] form) (finishes : g.DerivesWord last word) :
    (g.restrict g.Used).Derives form last := by
  induction derives with
  | refl => exact .refl _
  | step first more induction =>
      have later := induction (reached.trans (.step first (.refl _))) finishes
      cases first with
      | replace before behind rule member =>
          have used : g.Used rule := ⟨before, behind, word, reached, .of_derives more finishes⟩
          exact .step (.replace before behind rule (mem_rules_restrict.2 ⟨member, used⟩)) later

/-- Where the symbols before left sides derive words, every rule applies as before when only the
rules that derivations of words apply are left. -/
theorem Applies.restrict_used (left : g.LeftContextsDerive) (member : rule ∈ g.rules)
    (applies : g.Applies k rule tuple) : g.Used rule ∧ (g.restrict g.Used).Applies k rule tuple := by
  have used : g.Used rule := (selectable_iff.2 ⟨tuple, applies⟩).used left member
  obtain ⟨behind, word, ⟨before, reached⟩, derives, cut⟩ := applies
  obtain ⟨front, derivesFront⟩ := left rule member before behind word reached derives
  obtain ⟨inner, outer, rfl, derivesBody, derivesBehind⟩ := derives.split
  have place := reached.trans (Derives.of_rule member before behind)
  have finishes : g.DerivesWord (before ++ .nonterminal rule.left :: behind)
      (front ++ (inner ++ outer)) :=
    derivesFront.append (DerivesWord.append (.of_rule member derivesBody) derivesBehind)
  rw [List.append_assoc, ← List.append_nil (before ++ _)] at place
  have nothing : g.DerivesWord [] [] := .refl []
  exact ⟨used, behind, inner ++ outer, ⟨before, reached.restrict_used (.refl _) finishes⟩,
    (derivesBody.append derivesBehind).restrict_used derivesFront place nothing, cut⟩

end OnlyUsed

open Classical in
/-- What a table depends on. A rule has no lookahead exactly if it is not selectable, and then it is in
no cell and in no conflict. There is a table exactly if there is one for the live rules alone. With a
table for all rules there is one for the used rules alone, and the other way round if the symbols before
left sides derive words; then the rules with a lookahead are the used ones. -/
theorem useless_rules_do_not_count (g : Grammar) (k : Nat) (positive : 1 ≤ k) :
    (∀ rule, ruleLookahead k (g.first k) (g.follow k) rule = none ↔ ¬g.Selectable rule) ∧
      (∀ rule, ¬g.Selectable rule →
        (∀ table, g.table k = .ok table → ∀ n tuple index, table.get? n tuple = some index →
          table.order.rule? index ≠ some rule) ∧
        ∀ found, g.table k = .error (.conflict found) → found.first ≠ rule ∧ found.second ≠ rule) ∧
      ((∃ table, g.table k = .ok table) ↔ ∃ table, (g.restrict g.Live).table k = .ok table) ∧
      ((∃ table, g.table k = .ok table) → ∃ table, (g.restrict g.Used).table k = .ok table) ∧
      (g.LeftContextsDerive →
        (∀ rule ∈ g.rules,
          ruleLookahead k (g.first k) (g.follow k) rule = none ↔ ¬g.Used rule) ∧
        ((∃ table, g.table k = .ok table) ↔
          ∃ table, (g.restrict g.Used).table k = .ok table)) := by
  refine ⟨fun rule => ruleLookahead_eq_none_iff, fun rule useless => ⟨?_, ?_⟩, ?_, ?_, fun left =>
    ⟨fun rule member => ?_, ?_⟩⟩
  · exact fun table built n tuple index cell named => useless (selectable_of_cell built cell named)
  · intro found failed
    obtain ⟨first, second⟩ := selectable_of_conflict positive failed
    exact ⟨fun same => useless (same ▸ first), fun same => useless (same ▸ second)⟩
  · exact exists_table_restrict_iff positive fun rule member tuple applies =>
      applies.restrict_live member
  · rw [exists_table_iff positive, exists_table_iff positive]
    exact fun strong => strong.of_subset rules_restrict_subset rfl
  · rw [ruleLookahead_eq_none_iff]
    exact not_congr ⟨fun selectable => selectable.used left member, fun used => used.selectable⟩
  · exact exists_table_restrict_iff positive fun rule member tuple applies =>
      applies.restrict_used left member

end Grammar

/-- The rule with one symbol on its right side. -/
def Rule.single (left : NonTerminal) (s : Symbol) : Rule := ⟨left, [s], by simp, by simp⟩

/-- The rules of `Y` cannot be reached, and begin alike. -/
def unreachable : Grammar :=
  .ofRules (.named "S")
    [.single (.named "S") (.terminal (.char 'a')),
      .single (.named "Y") (.terminal (.char 'a')),
      ⟨.named "Y", [.terminal (.char 'a'), .terminal (.char 'b')], by simp, by simp⟩]

def unreachableTable : Table :=
  ⟨1, .ofGrammar unreachable,
    ⟨[(.named "S", ⟨[([.char 'a'], 0)], by decide⟩), (.named "Y", ⟨[], by decide⟩)], by decide⟩⟩

theorem unreachable_table : unreachable.table 1 = .ok unreachableTable := by
  cbv

/-- The rules of `A` begin alike and stand behind `X`, which derives no word. -/
def blocked : Grammar :=
  .ofRules (.named "S")
    [⟨.named "S", [.nonterminal (.named "X"), .nonterminal (.named "A")], by simp, by simp⟩,
      .single (.named "S") (.terminal (.char 'a')),
      .single (.named "A") (.terminal (.char 'b')),
      ⟨.named "A", [.terminal (.char 'b'), .terminal (.char 'c')], by simp, by simp⟩,
      ⟨.named "X", [.nonterminal (.named "X"), .terminal (.char 'c')], by simp, by simp⟩]

theorem blocked_table : blocked.table 1 = .error (.conflict ⟨1, .named "A", [.char 'b'],
    .single (.named "A") (.terminal (.char 'b')),
    ⟨.named "A", [.terminal (.char 'b'), .terminal (.char 'c')], by simp, by simp⟩⟩) := by
  cbv

section Forms

variable {form before behind : SententialForm} {n : NonTerminal}

theorem unreachable_forms (derives : unreachable.Derives [.nonterminal (.named "S")] form) :
    form = [.nonterminal (.named "S")] ∨ form = [.terminal (.char 'a')] := by
  refine derives.step_induction (fun form => form = [.nonterminal (.named "S")] ∨
    form = [.terminal (.char 'a')]) (.inl rfl) ?_
  intro form next held step
  cases step with
  | replace before behind rule member =>
      rcases held with start | word
      · obtain ⟨rfl, named, rfl⟩ := eq_of_append_cons_eq_singleton start
        have listed := Grammar.mem_rules_ofRules.1 member
        simp only [List.mem_cons, List.not_mem_nil, or_false] at listed
        rcases listed with rfl | rfl | rfl
        · exact .inr rfl
        · exact absurd named (by decide)
        · exact absurd named (by decide)
      · obtain ⟨_, impossible, _⟩ := eq_of_append_cons_eq_singleton word
        cases impossible

/-- Nothing but the start stands in a form where a rule can be applied. -/
theorem unreachable_place
    (derives : unreachable.Derives [.nonterminal (.named "S")] (before ++ .nonterminal n :: behind)) :
    before = [] ∧ n = .named "S" := by
  rcases unreachable_forms derives with start | word
  · obtain ⟨empty, named, _⟩ := eq_of_append_cons_eq_singleton start
    exact ⟨empty, Symbol.nonterminal.inj named⟩
  · obtain ⟨_, impossible, _⟩ := eq_of_append_cons_eq_singleton word
    cases impossible

theorem blocked_unproductive (word : Text) : ¬blocked.DerivesWord [.nonterminal (.named "X")] word := by
  intro derives
  obtain ⟨set, found⟩ := (Grammar.first_known_iff (k := 1)).2 ⟨word, derives⟩
  have unknown : (blocked.first 1).get? (.named "X") = none := by
    cbv
  rw [unknown] at found
  cases found

theorem blocked_forms (derives : blocked.Derives [.nonterminal (.named "S")] form) :
    form = [.nonterminal (.named "S")] ∨ form = [.terminal (.char 'a')] ∨
      ∃ rest, form = .nonterminal (.named "X") :: rest := by
  refine derives.step_induction (fun form => form = [.nonterminal (.named "S")] ∨
    form = [.terminal (.char 'a')] ∨ ∃ rest, form = .nonterminal (.named "X") :: rest) (.inl rfl) ?_
  intro form next held step
  cases step with
  | replace before behind rule member =>
      have listed := Grammar.mem_rules_ofRules.1 member
      simp only [List.mem_cons, List.not_mem_nil, or_false] at listed
      rcases held with start | word | ⟨rest, same⟩
      · obtain ⟨rfl, named, rfl⟩ := eq_of_append_cons_eq_singleton start
        rcases listed with rfl | rfl | rfl | rfl | rfl
        · exact .inr (.inr ⟨_, rfl⟩)
        · exact .inr (.inl rfl)
        · exact absurd named (by decide)
        · exact absurd named (by decide)
        · exact absurd named (by decide)
      · obtain ⟨_, impossible, _⟩ := eq_of_append_cons_eq_singleton word
        cases impossible
      · cases before with
        | cons s before =>
            cases same
            exact .inr (.inr ⟨_, rfl⟩)
        | nil =>
            obtain ⟨named, _⟩ := List.cons.inj same
            rcases listed with rfl | rfl | rfl | rfl | rfl
            · exact absurd named (by decide)
            · exact absurd named (by decide)
            · exact absurd named (by decide)
            · exact absurd named (by decide)
            · exact .inr (.inr ⟨_, rfl⟩)

/-- Only the rule without `X` is applied in a derivation of a word. -/
theorem blocked_used {rule : Rule} (member : rule ∈ blocked.rules) (used : blocked.Used rule) :
    rule = .single (.named "S") (.terminal (.char 'a')) := by
  obtain ⟨before, behind, word, reached, derives⟩ := used
  have listed := Grammar.mem_rules_ofRules.1 member
  simp only [List.mem_cons, List.not_mem_nil, or_false] at listed
  rcases blocked_forms (reached.trans (.of_rule member before behind)) with start | found | ⟨rest, same⟩
  · rcases listed with rfl | rfl | rfl | rfl | rfl <;>
      simp [Rule.body, Rule.isEpsilon, Rule.single, List.append_eq_cons_iff] at start
  · rcases listed with rfl | rfl | rfl | rfl | rfl <;>
      simp [Rule.body, Rule.isEpsilon, Rule.single, List.append_eq_cons_iff] at found ⊢
  · rw [same] at derives
    obtain ⟨front, _, _, derivesFront, _⟩ := derives.of_cons
    exact absurd derivesFront (blocked_unproductive front)

end Forms

open Classical in
/-- The rules of a nonterminal that cannot be reached have no lookahead, and the table does not miss
them. -/
theorem unreachable_rules_do_not_count :
    1 ≤ 1 ∧ unreachable.LeftContextsDerive ∧
      ruleLookahead 1 (unreachable.first 1) (unreachable.follow 1)
        (.single (.named "Y") (.terminal (.char 'a'))) = none ∧
      ∃ table, (unreachable.restrict unreachable.Used).table 1 = .ok table := by
  have left : unreachable.LeftContextsDerive := by
    intro rule _ before behind word reached _
    exact ⟨[], (unreachable_place reached).1 ▸ .refl []⟩
  obtain ⟨_, _, _, _, whole⟩ := Grammar.useless_rules_do_not_count unreachable 1 (Nat.le_refl 1)
  obtain ⟨unused, tables⟩ := whole left
  refine ⟨Nat.le_refl 1, left, (unused _ (Grammar.mem_rules_ofRules.2 (by simp))).2 ?_,
    tables.1 ⟨unreachableTable, unreachable_table⟩⟩
  rintro ⟨before, behind, word, reached, _⟩
  exact absurd (unreachable_place reached).2 (by decide)

open Classical in
/-- No derivation of a word applies the rules of `A`, but they have lookaheads, and are in a conflict
without which there is a table. -/
theorem useless_rules_can_count :
    (∃ rule ∈ blocked.rules, ¬blocked.Used rule ∧
        ruleLookahead 1 (blocked.first 1) (blocked.follow 1) rule ≠ none) ∧
      (¬∃ table, blocked.table 1 = .ok table) ∧
      ∃ table, (blocked.restrict blocked.Used).table 1 = .ok table := by
  refine ⟨?_, ?_, ?_⟩
  · let rule : Rule := .single (.named "A") (.terminal (.char 'b'))
    have member : rule ∈ blocked.rules := Grammar.mem_rules_ofRules.2 (by simp [rule])
    refine ⟨rule, member, fun used => ?_, fun unknown => ?_⟩
    · exact absurd (congrArg Rule.left (blocked_used member used)) (by decide)
    · exact Grammar.ruleLookahead_eq_none_iff.1 unknown
        (Grammar.selectable_of_conflict Nat.one_pos blocked_table).1
  · rintro ⟨table, built⟩
    rw [blocked_table] at built
    cases built
  · rw [Grammar.exists_table_iff Nat.one_pos]
    rintro ⟨first, memberFirst, second, memberSecond, different, _⟩
    obtain ⟨inFirst, usedFirst⟩ := Grammar.mem_rules_restrict.1 memberFirst
    obtain ⟨inSecond, usedSecond⟩ := Grammar.mem_rules_restrict.1 memberSecond
    exact different ((blocked_used inFirst usedFirst).trans (blocked_used inSecond usedSecond).symm)

end StrongLL
