import StrongLL.Proofs.Derivation.Forms

/-!
# What a derivation passes and where it stops

A step of a derivation replaces the nonterminal that its order finds first, and a rule applies
exactly if that nonterminal is its left side. Said of all steps by their numbers, this is what the
forms of a derivation are. Either every rule applies, or there is a first one that does not, and the
error holds its number. Replay takes the same steps: it fails where the forms fail, and otherwise it
looks at the last of them.
-/

namespace StrongLL

set_option autoImplicit false

/-- What a result is said to be is what it is, where one of the things that are said holds. -/
theorem outcome_iff {Failure Value : Type} {result : Except Failure Value} {good : Value → Prop}
    {bad : Failure → Prop} (ok : ∀ value, good value → result = .ok value)
    (error : ∀ cause, bad cause → result = .error cause)
    (total : (∃ value, good value) ∨ ∃ cause, bad cause) :
    (∀ value, result = .ok value ↔ good value) ∧ ∀ cause, result = .error cause ↔ bad cause := by
  rcases total with ⟨value, holds⟩ | ⟨cause, holds⟩
  · have same := ok value holds
    refine ⟨fun other => ⟨fun given => ?_, ok other⟩, fun other => ⟨fun given => ?_, error other⟩⟩
    · cases same.symm.trans given
      exact holds
    · exact nomatch same.symm.trans given
  · have same := error cause holds
    refine ⟨fun other => ⟨fun given => ?_, ok other⟩, fun other => ⟨fun given => ?_, error other⟩⟩
    · exact nomatch same.symm.trans given
    · cases same.symm.trans given
      exact holds

namespace DerivationOrder

/-- The symbols that are passed over before the nonterminal in focus is found. -/
def passed : DerivationOrder → Focus → SententialForm
  | leftmost, focus => focus.before
  | rightmost, focus => focus.behind

/-- The focus is on the first nonterminal of the form, or on the last. -/
structure Finds (order : DerivationOrder) (form : SententialForm) (focus : Focus) : Prop where
  splits : form = focus.before ++ .nonterminal focus.found :: focus.behind
  closed : (order.passed focus).any Symbol.isNonTerminal = false

/-- The rule leads from one form to the next: its left side is found and its body put in place. -/
def Replaces (order : DerivationOrder) (rule : Rule) (form next : SententialForm) : Prop :=
  ∃ focus, order.Finds form focus ∧ focus.found = rule.left ∧
    next = focus.before ++ rule.body ++ focus.behind

/-- Why a rule does not apply to a form in the given step. -/
inductive Refuses (order : DerivationOrder) (step : Nat) (rule : Rule) (form : SententialForm) :
    ReplayError → Prop where
  | closed (closed : form.any Symbol.isNonTerminal = false) :
    Refuses order step rule form (.noNonTerminal step)
  | other {focus : Focus} (finds : order.Finds form focus) (differs : focus.found ≠ rule.left) :
    Refuses order step rule form (.wrongNonTerminal step rule focus.found)

/-- The forms that are passed when all of the rules apply, one after another. -/
structure Passes (order : DerivationOrder) (start : SententialForm) (rules : List Rule)
    (forms : List SententialForm) : Prop where
  length : forms.length = rules.length + 1
  first : forms[0]? = some start
  replaces : ∀ step rule form next, rules[step]? = some rule → forms[step]? = some form →
    forms[step + 1]? = some next → order.Replaces rule form next

/-- The rules apply up to the first one that does not. Steps are counted from the given one on. -/
def Stops (order : DerivationOrder) (step : Nat) (start : SententialForm) (rules : List Rule)
    (cause : ReplayError) : Prop :=
  ∃ applied rule rest forms last, rules = applied ++ rule :: rest ∧
    order.Passes start applied forms ∧ forms.getLast? = some last ∧
      order.Refuses (step + applied.length) rule last cause

end DerivationOrder

namespace DerivationOrder

variable {order : DerivationOrder} {step : Nat} {rule : Rule} {form next : SententialForm}
  {rules : List Rule} {forms : List SententialForm} {cause : ReplayError}

theorem focus?_of_finds {focus : Focus} (finds : order.Finds form focus) :
    order.focus? form = some focus := by
  rw [finds.splits]
  cases order with
  | leftmost => exact Focus.leftmost?_of_closed _ finds.closed
  | rightmost => exact Focus.rightmost?_of_closed _ _ finds.closed

theorem focus?_of_closed (closed : form.any Symbol.isNonTerminal = false) :
    order.focus? form = none := by
  cases order with
  | leftmost => exact Focus.leftmost?_eq_none closed
  | rightmost => exact Focus.rightmost?_eq_none closed

theorem exists_finds (order : DerivationOrder) (form : SententialForm) :
    form.any Symbol.isNonTerminal = false ∨ ∃ focus, order.Finds form focus := by
  cases order with
  | leftmost =>
      induction form with
      | nil => exact .inl rfl
      | cons s form induction =>
          cases s with
          | nonterminal n => exact .inr ⟨⟨[], n, form⟩, rfl, rfl⟩
          | terminal t =>
              rcases induction with closed | ⟨focus, splits, closed⟩
              · exact .inl closed
              · refine .inr ⟨{ focus with before := .terminal t :: focus.before }, ?_, closed⟩
                rw [List.cons_append, ← splits]
  | rightmost =>
      induction form with
      | nil => exact .inl rfl
      | cons s form induction =>
          rcases induction with closed | ⟨focus, splits, closed⟩
          · cases s with
            | nonterminal n => exact .inr ⟨⟨[], n, form⟩, rfl, closed⟩
            | terminal t => exact .inl closed
          · refine .inr ⟨{ focus with before := s :: focus.before }, ?_, closed⟩
            rw [List.cons_append, ← splits]

theorem Replaces.apply_eq (replaces : order.Replaces rule form next) (step : Nat) :
    order.apply step rule form = .ok next := by
  rcases replaces with ⟨focus, finds, fits, same⟩
  rw [apply, focus?_of_finds finds]
  simp only [if_pos fits, Focus.replace, same]

theorem Refuses.apply_eq (refuses : order.Refuses step rule form cause) :
    order.apply step rule form = .error cause := by
  cases refuses with
  | closed closed => rw [apply, focus?_of_closed closed]
  | other finds differs =>
      rw [apply, focus?_of_finds finds]
      simp only [if_neg differs]

theorem replaces_or_refuses (order : DerivationOrder) (step : Nat) (rule : Rule)
    (form : SententialForm) :
    (∃ next, order.Replaces rule form next) ∨ ∃ cause, order.Refuses step rule form cause := by
  rcases order.exists_finds form with closed | ⟨focus, finds⟩
  · exact .inr ⟨_, .closed closed⟩
  · by_cases fits : focus.found = rule.left
    · exact .inl ⟨_, focus, finds, fits, rfl⟩
    · exact .inr ⟨_, .other finds fits⟩

theorem apply_iff (order : DerivationOrder) (step : Nat) (rule : Rule) (form : SententialForm) :
    (∀ next, order.apply step rule form = .ok next ↔ order.Replaces rule form next) ∧
      ∀ cause, order.apply step rule form = .error cause ↔ order.Refuses step rule form cause :=
  outcome_iff (fun _ replaces => replaces.apply_eq step) (fun _ => Refuses.apply_eq)
    (order.replaces_or_refuses step rule form)

theorem passes_nil_iff : order.Passes form [] forms ↔ forms = [form] := by
  constructor
  · intro ⟨length, first, _⟩
    rcases List.length_eq_one_iff.1 length with ⟨only, single⟩
    rw [single] at first ⊢
    exact congrArg (fun start => [start]) (Option.some.inj first)
  · intro single
    rw [single]
    exact ⟨rfl, rfl, nofun⟩

theorem passes_cons_iff : order.Passes form (rule :: rules) forms ↔
    ∃ next rest, forms = form :: rest ∧ order.Replaces rule form next ∧
      order.Passes next rules rest := by
  constructor
  · intro ⟨length, first, replaces⟩
    cases forms with
    | nil => exact nomatch length
    | cons start rest =>
        have begins : start = form := Option.some.inj first
        rw [begins] at replaces ⊢
        have shorter : rest.length = rules.length + 1 := Nat.succ.inj length
        have opens : rest[0]? = some rest[0] := List.getElem?_eq_getElem (by omega)
        refine ⟨rest[0], rest, rfl, replaces 0 rule form _ rfl rfl opens, shorter, opens, ?_⟩
        intro step other before after listed stands follows
        exact replaces (step + 1) other before after listed stands follows
  · intro ⟨next, rest, whole, head, length, first, replaces⟩
    rw [whole]
    refine ⟨congrArg (· + 1) length, rfl, fun step other before after listed stands follows => ?_⟩
    cases step with
    | zero =>
        have opens : some next = some after := first.symm.trans follows
        cases listed
        cases stands
        cases opens
        exact head
    | succ step => exact replaces step other before after listed stands follows

theorem Passes.getLast?_cons (passes : order.Passes next rules forms) (form : SententialForm) :
    (form :: forms).getLast? = forms.getLast? := by
  have length := passes.length
  cases forms with
  | nil => exact nomatch length
  | cons first rest => rw [List.getLast?_cons_cons]

theorem stops_nil : ¬order.Stops step form [] cause := by
  intro ⟨applied, rule, rest, _, _, same, _⟩
  cases applied with
  | nil => exact nomatch same
  | cons _ _ => exact nomatch same

theorem stops_cons_iff : order.Stops step form (rule :: rules) cause ↔
    order.Refuses step rule form cause ∨
      ∃ next, order.Replaces rule form next ∧ order.Stops (step + 1) next rules cause := by
  have counted : ∀ applied : List Rule,
      step + (rule :: applied).length = step + 1 + applied.length := by
    intro applied
    rw [List.length_cons]
    omega
  constructor
  · intro ⟨applied, stopper, rest, forms, last, same, passes, ends, refuses⟩
    cases applied with
    | nil =>
        cases same
        rw [passes_nil_iff.1 passes] at ends
        cases ends
        exact .inl refuses
    | cons other applied =>
        cases same
        rcases passes_cons_iff.1 passes with ⟨next, more, whole, replaces, passes⟩
        rw [whole, passes.getLast?_cons] at ends
        rw [counted] at refuses
        exact .inr ⟨next, replaces, applied, stopper, rest, more, last, rfl, passes, ends, refuses⟩
  · intro stops
    rcases stops with refuses | ⟨next, replaces, applied, stopper, rest, more, last, same, stops⟩
    · exact ⟨[], rule, rules, [form], form, rfl, passes_nil_iff.2 rfl, rfl, refuses⟩
    · rcases stops with ⟨passes, ends, refuses⟩
      rw [← counted] at refuses
      refine ⟨rule :: applied, stopper, rest, form :: more, last, congrArg (rule :: ·) same,
        passes_cons_iff.2 ⟨next, more, rfl, replaces, passes⟩, ?_, refuses⟩
      rw [passes.getLast?_cons, ends]

theorem Passes.trace_eq (passes : order.Passes form rules forms) (step : Nat) :
    order.trace step form rules = .ok forms := by
  induction rules generalizing step form forms with
  | nil =>
      rw [passes_nil_iff.1 passes]
      rfl
  | cons rule rules induction =>
      rcases passes_cons_iff.1 passes with ⟨next, rest, whole, replaces, passes⟩
      rw [trace, replaces.apply_eq step, whole]
      simp only [induction passes]
      rfl

theorem Stops.trace_eq (stops : order.Stops step form rules cause) :
    order.trace step form rules = .error cause := by
  induction rules generalizing step form with
  | nil => exact absurd stops stops_nil
  | cons rule rules induction =>
      rw [trace]
      rcases stops_cons_iff.1 stops with refuses | ⟨next, replaces, stops⟩
      · rw [refuses.apply_eq]
      · rw [replaces.apply_eq step]
        simp only [induction stops]
        rfl

theorem passes_or_stops (order : DerivationOrder) (step : Nat) (form : SententialForm)
    (rules : List Rule) :
    (∃ forms, order.Passes form rules forms) ∨ ∃ cause, order.Stops step form rules cause := by
  induction rules generalizing step form with
  | nil => exact .inl ⟨[form], passes_nil_iff.2 rfl⟩
  | cons rule rules induction =>
      rcases order.replaces_or_refuses step rule form with ⟨next, replaces⟩ | ⟨cause, refuses⟩
      · rcases induction (step + 1) next with ⟨forms, passes⟩ | ⟨cause, stops⟩
        · exact .inl ⟨form :: forms, passes_cons_iff.2 ⟨next, forms, rfl, replaces, passes⟩⟩
        · exact .inr ⟨cause, stops_cons_iff.2 (.inr ⟨next, replaces, stops⟩)⟩
      · exact .inr ⟨cause, stops_cons_iff.2 (.inl refuses)⟩

/-- The forms are traced exactly if all of the rules apply, and tracing fails exactly at the first
rule that does not. -/
theorem trace_iff (order : DerivationOrder) (step : Nat) (form : SententialForm)
    (rules : List Rule) :
    (∀ forms, order.trace step form rules = .ok forms ↔ order.Passes form rules forms) ∧
      ∀ cause, order.trace step form rules = .error cause ↔ order.Stops step form rules cause :=
  outcome_iff (fun _ passes => passes.trace_eq step) (fun _ => Stops.trace_eq)
    (order.passes_or_stops step form rules)

/-- Rules fail to reach a form where they fail to pass one. -/
theorem reach_eq_error_iff :
    order.reach step form rules = .error cause ↔ order.trace step form rules = .error cause := by
  induction rules generalizing step form with
  | nil => simp only [reach, trace, reduceCtorEq]
  | cons rule rules induction =>
      rw [reach, trace]
      cases order.apply step rule form with
      | error found => simp only [Except.error.injEq]
      | ok next =>
          simp only
          rw [induction]
          cases order.trace (step + 1) next rules with
          | error found => simp only [Except.map, Except.error.injEq]
          | ok forms => simp only [Except.map, reduceCtorEq]

theorem reach_eq_ok_iff {last : SententialForm} : order.reach step form rules = .ok last ↔
    ∃ forms, order.trace step form rules = .ok forms ∧ forms.getLast? = some last := by
  constructor
  · intro reached
    rcases exists_trace reached with ⟨forms, traced, _, _, ends⟩
    exact ⟨forms, traced, ends⟩
  · intro ⟨forms, traced, ends⟩
    cases reached : order.reach step form rules with
    | error cause =>
        rw [reach_eq_error_iff.1 reached] at traced
        exact nomatch traced
    | ok other =>
        rcases exists_trace reached with ⟨found, again, _, _, last⟩
        rw [again] at traced
        cases traced
        rw [last] at ends
        exact congrArg Except.ok (Option.some.inj ends)

theorem Replaces.plain (replaces : order.Replaces rule form next)
    (plain : Symbol.terminal .epsilon ∉ form) : Symbol.terminal .epsilon ∉ next := by
  rcases replaces with ⟨focus, finds, _, same⟩
  rw [finds.splits] at plain
  rw [same]
  exact rule.epsilon_not_mem_replaced focus.before plain

theorem plain_of_reach {last : SententialForm} (reached : order.reach step form rules = .ok last)
    (plain : Symbol.terminal .epsilon ∉ form) : Symbol.terminal .epsilon ∉ last := by
  induction rules generalizing step form with
  | nil =>
      cases reached
      exact plain
  | cons rule rules induction =>
      rw [reach] at reached
      split at reached
      · next next applied =>
          have replaces := ((order.apply_iff step rule form).1 next).1 applied
          exact induction reached (replaces.plain plain)
      · cases reached

end DerivationOrder

namespace Derivation

variable {derivation : Derivation} {start : NonTerminal}

theorem epsilon_not_mem_of_replay {word : List Terminal}
    (replayed : derivation.replay start = .ok word) : Terminal.epsilon ∉ word := by
  intro occurs
  have plain := DerivationOrder.plain_of_reach (replay_eq_ok_iff_reach.1 replayed) (by simp)
  exact plain (List.mem_map_of_mem occurs)

theorem replay_eq_ok_iff_forms {word : List Terminal} : derivation.replay start = .ok word ↔
    ∃ forms, derivation.sententialForms start = .ok forms ∧
      forms.getLast? = some (word.map .terminal) := by
  rw [replay_eq_ok_iff_reach, DerivationOrder.reach_eq_ok_iff]
  rfl

theorem replay_eq_error_iff {cause : ReplayError} : derivation.replay start = .error cause ↔
    derivation.sententialForms start = .error cause ∨
      ∃ forms last, derivation.sententialForms start = .ok forms ∧ forms.getLast? = some last ∧
        last.any Symbol.isNonTerminal = true ∧ cause = .incomplete last := by
  rw [replay, sententialForms]
  cases reached : derivation.order.reach 0 [.nonterminal start] derivation.rules with
  | error found =>
      rw [DerivationOrder.reach_eq_error_iff.1 reached]
      simp
  | ok last =>
      rcases DerivationOrder.reach_eq_ok_iff.1 reached with ⟨forms, traced, ends⟩
      rw [traced]
      simp only
      constructor
      · intro failed
        split at failed
        · next closed =>
            cases failed
            exact .inr ⟨forms, last, rfl, ends, closed, rfl⟩
        · exact nomatch failed
      · intro fails
        rcases fails with failed | ⟨found, other, same, again, closed, incomplete⟩
        · exact nomatch failed
        · cases same
          cases ends.symm.trans again
          rw [if_pos closed, incomplete]

end Derivation

/-- Replay and the forms of a derivation take the same steps. There is a form more than there are
rules, each a replacement in the one before it, if every rule applies, and otherwise the error tells
the first rule that does not. Replay gives a word exactly if the last form is the word, and the word
never holds the empty one; it gives the error of the forms if there is one; and if the last form
still has a nonterminal it gives that form, whose text is part of the message. -/
theorem replay_follows_the_forms (derivation : Derivation) (start : NonTerminal) :
    (∀ forms, derivation.sententialForms start = .ok forms ↔
        derivation.order.Passes [.nonterminal start] derivation.rules forms) ∧
      (∀ cause, derivation.sententialForms start = .error cause ↔
        derivation.order.Stops 0 [.nonterminal start] derivation.rules cause) ∧
      (∀ word, derivation.replay start = .ok word ↔
        ∃ forms, derivation.sententialForms start = .ok forms ∧
          forms.getLast? = some (word.map .terminal)) ∧
      (∀ word, derivation.replay start = .ok word → Terminal.epsilon ∉ word) ∧
      (∀ cause, derivation.replay start = .error cause ↔
        derivation.sententialForms start = .error cause ∨
          ∃ forms last, derivation.sententialForms start = .ok forms ∧
            forms.getLast? = some last ∧ last.any Symbol.isNonTerminal = true ∧
              cause = .incomplete last) ∧
      ∀ last, (ReplayError.incomplete last).message =
        s!"derivation stops at {(Symbol.displayAll last).string}, which still has nonterminals" := by
  have traced := derivation.order.trace_iff 0 [.nonterminal start] derivation.rules
  exact ⟨traced.1, traced.2, fun _ => Derivation.replay_eq_ok_iff_forms,
    fun _ => Derivation.epsilon_not_mem_of_replay, fun _ => Derivation.replay_eq_error_iff,
    fun _ => rfl⟩

end StrongLL
