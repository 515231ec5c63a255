import Mathlib.Data.List.Forall2
import StrongLL.Grammar.Reader
import StrongLL.Proofs.Grammar.EpsilonFree
import StrongLL.Proofs.Symbol.Spelling
import StrongLL.Proofs.Text.Cutting

/-!
# What a line says

A line without blanks either opens a left side, with an arrow between a name and a right side, or
goes on with the left side before it, with a bar in front of a right side. A right side is a
sequence of alternatives with bars between them, and an alternative is `eps` or one symbol a
character. Reading a left side and reading an alternative succeed exactly on these, and give what is
written there.
-/

namespace StrongLL

set_option autoImplicit false

section InTurn

variable {Item Image Cause : Type} {f : Item → Except Cause Image} {items : List Item}
  {images : List Image}

theorem mapM_cons_eq_ok_iff {item : Item} : (item :: items).mapM f = .ok images ↔
    ∃ image, f item = .ok image ∧ ∃ more, items.mapM f = .ok more ∧ images = image :: more := by
  rw [List.mapM_cons]
  cases f item with
  | error cause => simp [bind, Except.bind]
  | ok image =>
      cases items.mapM f with
      | error cause => simp [bind, Except.bind]
      | ok more => simp [bind, Except.bind, pure, Except.pure, eq_comm]

theorem mapM_cons_eq_error_iff {item : Item} {cause : Cause} :
    (item :: items).mapM f = .error cause ↔
      f item = .error cause ∨ (∃ image, f item = .ok image) ∧ items.mapM f = .error cause := by
  rw [List.mapM_cons]
  cases f item with
  | error cause => simp [bind, Except.bind]
  | ok image =>
      cases items.mapM f with
      | error cause => simp [bind, Except.bind]
      | ok more => simp [bind, Except.bind, pure, Except.pure]

theorem mapM_eq_ok_iff :
    items.mapM f = .ok images ↔ List.Forall₂ (fun item image => f item = .ok image) items images := by
  induction items generalizing images with
  | nil => simp [pure, Except.pure, eq_comm]
  | cons item items induction => simp only [mapM_cons_eq_ok_iff, induction, List.forall₂_cons_left_iff,
      exists_and_left]

/-- What is found when every item succeeds. -/
theorem mem_of_mapM_eq_ok (mapped : items.mapM f = .ok images) {image : Image} :
    image ∈ images ↔ ∃ item ∈ items, f item = .ok image := by
  have each := mapM_eq_ok_iff.1 mapped
  clear mapped
  induction each with
  | nil => simp
  | cons found _ induction => simp [induction, found, eq_comm]

theorem exists_mapM_iff :
    (∃ images, items.mapM f = .ok images) ↔ ∀ item ∈ items, ∃ image, f item = .ok image := by
  induction items with
  | nil => simp [pure, Except.pure]
  | cons item items induction =>
      simp only [mapM_cons_eq_ok_iff, List.forall_mem_cons, ← induction]
      constructor
      · rintro ⟨_, image, found, more, mapped, rfl⟩
        exact ⟨⟨image, found⟩, more, mapped⟩
      · rintro ⟨⟨image, found⟩, more, mapped⟩
        exact ⟨_, image, found, more, mapped, rfl⟩

/-- What is reported is the failure of the first item that fails. -/
theorem exists_first_failure {cause : Cause} (failed : items.mapM f = .error cause) :
    ∃ before item after, items = before ++ item :: after ∧
      (∃ images, before.mapM f = .ok images) ∧ f item = .error cause := by
  induction items with
  | nil => exact nomatch failed
  | cons item items induction =>
      rcases mapM_cons_eq_error_iff.1 failed with here | ⟨⟨image, found⟩, later⟩
      · exact ⟨[], item, items, rfl, ⟨[], rfl⟩, here⟩
      · obtain ⟨before, last, after, rfl, ⟨images, mapped⟩, failure⟩ := induction later
        refine ⟨item :: before, last, after, rfl, ⟨image :: images, ?_⟩, failure⟩
        exact mapM_cons_eq_ok_iff.2 ⟨image, found, images, mapped, rfl⟩

end InTurn

namespace Grammar

variable {line before after right : Text} {left : NonTerminal} {previous : Option NonTerminal}

/-- The line is the name of a left side, an arrow and a right side, and no other arrow stands in it. -/
structure Opens (line : Text) (left : NonTerminal) (right : Text) : Prop where
  sides : line = left.text ++ arrow ++ right
  only : ∀ before after, line = before ++ arrow ++ after → before = left.text

/-- The line is a bar and a right side, and no arrow stands in it. -/
structure Continues (line right : Text) : Prop where
  bar : line = '|' :: right
  plain : ¬arrow <:+: line

theorem arrow_ne_nil : arrow ≠ [] := by
  decide

theorem Opens.arrow_isInfix (opens : Opens line left right) : arrow <:+: line :=
  ⟨left.text, right, opens.sides.symm⟩

/-- Cutting at the first arrow finds the only one. -/
theorem only_arrow_iff :
    (Text.cutAt? arrow line = some (before, after) ∧ Text.holds arrow after = false) ↔
      line = before ++ arrow ++ after ∧
        ∀ other last, line = other ++ arrow ++ last → other = before := by
  rw [Text.holds_eq_false_iff arrow_ne_nil]
  constructor
  · intro ⟨found, single⟩
    have split := Text.eq_of_cutAt? found
    refine ⟨split, fun other last occurs => ?_⟩
    have later := Text.length_le_of_cutAt? found occurs
    rw [split, List.append_assoc, List.append_assoc] at occurs
    obtain ⟨middle, rfl, rest⟩ | ⟨middle, rfl, rest⟩ := List.append_eq_append_iff.1 occurs
    · -- A later arrow cannot share a character with the first, so it stands behind it.
      match middle with
      | [] => exact List.append_nil before
      | [c] => simp [arrow] at rest
      | c :: d :: middle =>
          simp only [arrow, List.cons_append, List.nil_append, List.cons.injEq] at rest
          exact absurd ⟨middle, last, by simpa [arrow] using rest.2.2.symm⟩ single
    · rw [List.length_append] at later
      have none : middle = [] := List.eq_nil_of_length_eq_zero (by omega)
      rw [none, List.append_nil]
  · intro ⟨split, only⟩
    obtain ⟨other, last, found⟩ : ∃ other last, Text.cutAt? arrow line = some (other, last) := by
      cases found : Text.cutAt? arrow line with
      | some sides => exact ⟨sides.1, sides.2, rfl⟩
      | none =>
          exact absurd ⟨before, after, split.symm⟩ ((Text.cutAt?_eq_none_iff arrow_ne_nil).1 found)
    have occurs := Text.eq_of_cutAt? found
    have same := only other last occurs
    subst same
    rw [split, List.append_cancel_left_eq] at occurs
    subst occurs
    refine ⟨found, fun ⟨inner, behind, inside⟩ => ?_⟩
    have longer := only (other ++ arrow ++ inner) behind (by rw [split, ← inside]; simp)
    simp [arrow] at longer

theorem opens_iff : Opens line left right ↔
    Text.cutAt? arrow line = some (left.text, right) ∧ Text.holds arrow right = false := by
  rw [only_arrow_iff]
  exact ⟨fun ⟨sides, only⟩ => ⟨sides, only⟩, fun ⟨sides, only⟩ => ⟨sides, only⟩⟩

/-- A line opens one left side only, and with one right side. -/
theorem Opens.unique (opens : Opens line left right) {other : NonTerminal} {last : Text}
    (again : Opens line other last) : left = other ∧ right = last := by
  have found := (opens_iff.1 opens).1
  rw [(opens_iff.1 again).1, Option.some.injEq, Prod.mk.injEq] at found
  exact ⟨NonTerminal.text_injective found.1.symm, found.2.symm⟩

/-- The left side that is read is the one that the line opens, or the one before it when the line
goes on. -/
theorem readLeft_eq_ok_iff :
    readLeft previous line = .ok (left, right) ↔
      Opens line left right ∨ Continues line right ∧ previous = some left := by
  unfold readLeft
  cases found : Text.cutAt? arrow line with
  | some sides =>
      obtain ⟨before, after⟩ := sides
      have inside : arrow <:+: line := ⟨before, after, (Text.eq_of_cutAt? found).symm⟩
      have opened : Opens line left right ∨ Continues line right ∧ previous = some left ↔
          (before = left.text ∧ after = right) ∧ Text.holds arrow after = false := by
        rw [opens_iff, found, Option.some.injEq, Prod.mk.injEq]
        constructor
        · rintro (⟨⟨rfl, rfl⟩, single⟩ | ⟨continues, _⟩)
          · exact ⟨⟨rfl, rfl⟩, single⟩
          · exact absurd inside continues.plain
        · rintro ⟨⟨rfl, rfl⟩, single⟩
          exact .inl ⟨⟨rfl, rfl⟩, single⟩
      rw [opened]
      cases several : Text.holds arrow after with
      | true => simp [several]
      | false =>
          simp only [several, Bool.false_eq_true, if_false]
          cases result : NonTerminal.read before with
          | ok n =>
              have spelled := NonTerminal.read_eq_ok_iff.1 result
              subst spelled
              simp [n.text_ne_nil, NonTerminal.text_injective.eq_iff]
          | error cause =>
              have nameless : before ≠ left.text := fun same => by
                rw [NonTerminal.read_eq_ok_iff.2 same.symm] at result
                exact nomatch result
              by_cases empty : before = []
              · subst empty
                simp [nameless]
              · simp [empty, nameless]
  | none =>
      have plain := (Text.cutAt?_eq_none_iff arrow_ne_nil).1 found
      have closed : ¬Opens line left right := fun opens => plain opens.arrow_isInfix
      simp only [closed, false_or]
      constructor
      · intro result
        split at result
        · next rest =>
            split at result
            · next earlier =>
                cases result
                exact ⟨⟨rfl, plain⟩, rfl⟩
            · cases result
        · cases result
      · rintro ⟨⟨rfl, _⟩, rfl⟩
        rfl

/-- The alternative can be read: it is `eps`, or a sequence of symbols with one character each. -/
def Readable (alternative : Text) : Prop :=
  alternative ≠ [] ∧
    (alternative = Terminal.epsilonText ∨ ∀ c ∈ alternative, Symbol.IsSpelling c)

/-- The alternative spells the symbols: `eps` the empty word alone, any other text one symbol a
character. -/
def Spells (alternative : Text) (symbols : List Symbol) : Prop :=
  if alternative = Terminal.epsilonText then symbols = [.terminal .epsilon]
  else List.Forall₂ (fun c s => Symbol.read [c] = .ok s) alternative symbols

/-- Symbols that are spelled one a character make the right side of a rule. -/
theorem exists_make {alternative : Text} {symbols : List Symbol} (filled : alternative ≠ [])
    (spelled : List.Forall₂ (fun c s => Symbol.read [c] = .ok s) alternative symbols)
    (left : NonTerminal) : ∃ rule, Rule.make left symbols = .ok rule := by
  have nonempty : symbols ≠ [] := by
    rintro rfl
    exact filled (List.forall₂_nil_right_iff.1 spelled)
  have plain : Symbol.terminal .epsilon ∉ symbols := by
    intro member
    obtain ⟨c, _, found⟩ := (mem_of_mapM_eq_ok (mapM_eq_ok_iff.2 spelled)).1 member
    have text := Symbol.text_of_read found
    simp [Symbol.text, Terminal.text, Terminal.epsilonText] at text
  let rule : Rule := ⟨left, symbols, nonempty, fun _ => plain⟩
  exact ⟨rule, rule.make_left_right⟩

theorem readAlternative_eq_ok_iff {alternative : Text} {rule : Rule} :
    readAlternative left alternative = .ok rule ↔
      alternative ≠ [] ∧ rule.left = left ∧ Spells alternative rule.right := by
  unfold readAlternative Spells
  by_cases empty : alternative = []
  · simp [empty]
  rw [if_neg empty]
  by_cases epsilon : alternative = Terminal.epsilonText
  · rw [if_pos epsilon, if_pos epsilon]
    constructor
    · intro result
      cases result
      exact ⟨empty, rfl, rfl⟩
    · exact fun ⟨_, same, right⟩ => congrArg Except.ok (Rule.ext same.symm right.symm)
  rw [if_neg epsilon, if_neg epsilon, ← mapM_eq_ok_iff]
  cases symbols : alternative.mapM fun c => Symbol.read [c] with
  | error cause => simp
  | ok right =>
      change (Rule.make left right).mapError LineFault.rule = .ok rule ↔ _
      constructor
      · intro result
        cases made : Rule.make left right with
        | error cause =>
            rw [made] at result
            exact nomatch result
        | ok other =>
            rw [made] at result
            cases result
            obtain ⟨same, rfl⟩ := Rule.make_eq_ok made
            exact ⟨empty, same, rfl⟩
      · rintro ⟨_, rfl, same⟩
        cases same
        rw [Rule.make_left_right]
        rfl

theorem exists_readAlternative_iff {alternative : Text}
    (plain : ∀ c ∈ alternative, isBlank c = false) :
    (∃ rule, readAlternative left alternative = .ok rule) ↔ Readable alternative := by
  have symbols : (∃ symbols, List.Forall₂ (fun c s => Symbol.read [c] = .ok s) alternative symbols) ↔
      ∀ c ∈ alternative, Symbol.IsSpelling c := by
    simp only [← mapM_eq_ok_iff, exists_mapM_iff]
    exact forall₂_congr fun c member => Symbol.exists_read_singleton_iff (plain c member)
  rw [Readable, ← symbols]
  simp only [readAlternative_eq_ok_iff, Spells]
  constructor
  · rintro ⟨rule, filled, _, spells⟩
    split at spells
    · next epsilon => exact ⟨filled, .inl epsilon⟩
    · exact ⟨filled, .inr ⟨rule.right, spells⟩⟩
  · rintro ⟨filled, readable⟩
    by_cases epsilon : alternative = Terminal.epsilonText
    · exact ⟨.epsilon left, filled, rfl, by rw [if_pos epsilon]; rfl⟩
    · obtain ⟨symbols, spelled⟩ := readable.resolve_left epsilon
      obtain ⟨rule, made⟩ := exists_make filled spelled left
      obtain ⟨same, right⟩ := Rule.make_eq_ok made
      exact ⟨rule, filled, same, by rw [if_neg epsilon, right]; exact spelled⟩

/-- What is wrong with an alternative that cannot be read. -/
theorem fault_of_readAlternative {alternative : Text} (plain : ∀ c ∈ alternative, isBlank c = false)
    {fault : LineFault} (failed : readAlternative left alternative = .error fault) :
    fault = .emptyAlternative ∨ ∃ c, fault = .name (.notTerminal [c]) := by
  unfold readAlternative at failed
  split at failed
  · exact .inl (Except.error.inj failed).symm
  next filled =>
  split at failed
  · exact nomatch failed
  split at failed
  · next cause unread =>
      obtain ⟨before, c, after, rfl, _, failure⟩ := exists_first_failure unread
      cases failed
      have member : c ∈ before ++ c :: after := by simp
      exact .inr ⟨c, congrArg LineFault.name
        (Symbol.fault_of_read_singleton (plain c member) failure)⟩
  · next symbols read =>
      obtain ⟨rule, made⟩ := exists_make filled (mapM_eq_ok_iff.1 read) left
      rw [made] at failed
      exact nomatch failed

end Grammar

end StrongLL
