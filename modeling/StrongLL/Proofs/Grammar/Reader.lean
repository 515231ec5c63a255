import StrongLL.Proofs.Grammar.Format

/-!
# What a text says

Lines count without their blanks, and only if something is left of them. The left side of a line that
opens none is that of the nearest earlier line that opens one. A text is read exactly if its first line
has an arrow, every line is of one of the two forms and every alternative can be read; the grammar then
has the rules that the lines spell, the left side of the first line as its start, and no symbol that
is not in one of them. Nothing is said here about the error of a text that is not read.
-/

namespace StrongLL

set_option autoImplicit false

/-- The two sides of a production. -/
def Production.sides (production : Production) : NonTerminal × Text :=
  (production.left, production.right)

theorem exists_split_cons_iff {Item : Type} {first : Item} {items : List Item}
    (Holds : List Item → Item → Prop) :
    (∃ before item after, first :: items = before ++ item :: after ∧ Holds before item) ↔
      Holds [] first ∨
        ∃ before item after, items = before ++ item :: after ∧ Holds (first :: before) item := by
  constructor
  · rintro ⟨before, item, after, split, holds⟩
    cases before with
    | nil =>
        cases split
        exact .inl holds
    | cons head before =>
        cases split
        exact .inr ⟨before, item, after, rfl, holds⟩
  · rintro (holds | ⟨before, item, after, rfl, holds⟩)
    · exact ⟨[], first, items, rfl, holds⟩
    · exact ⟨first :: before, item, after, rfl, holds⟩

/-- An item of a list with one more behind is this one, or an item of the list. -/
theorem split_concat {Item : Type} {items before after : List Item} {item last : Item}
    (split : items ++ [last] = before ++ item :: after) :
    last = item ∧ after = [] ∨ ∃ rest, items = before ++ item :: rest ∧ after = rest ++ [last] := by
  rcases List.eq_nil_or_concat' after with rfl | ⟨rest, final, rfl⟩
  · obtain ⟨_, same⟩ := List.append_inj' split rfl
    exact .inl ⟨List.singleton_inj.1 same, rfl⟩
  · rw [← List.cons_append, ← List.append_assoc] at split
    obtain ⟨rest', same⟩ := List.append_inj' split rfl
    cases same
    exact .inr ⟨rest, rest', rfl⟩

namespace Grammar

variable {line right : Text} {left : NonTerminal} {previous : Option NonTerminal}
  {lines : List Text} {sides : List (NonTerminal × Text)} {number : Nat}

/-- The lines without their blanks, those of which nothing is left being dropped. -/
def written (lines : List Text) : List Text :=
  (lines.map (·.filter (!isBlank ·))).filter (· ≠ [])

/-- The lines of a text that say something, without their blanks. -/
def writtenLines (text : Text) : List Text := written (Text.pieces '\n' text)

/-- The left side that holds behind the lines: that of the last line that opens one. -/
def Holds (lines : List Text) (left : NonTerminal) : Prop :=
  ∃ earlier line right later, lines = earlier ++ line :: later ∧ Opens line left right ∧
    ∀ other ∈ later, ∀ n last, ¬Opens other n last

/-- One of the lines has these sides: it opens them, or it goes on with the left side that holds
there. -/
def Assigns (lines : List Text) (left : NonTerminal) (right : Text) : Prop :=
  ∃ before line after, lines = before ++ line :: after ∧
    (Opens line left right ∨ Continues line right ∧ Holds before left)

/-- The line has a right side, and every alternative of it can be read. -/
def LineReads (line : Text) : Prop :=
  ∃ right, ((∃ left, Opens line left right) ∨ Continues line right) ∧
    ∀ alternative ∈ Text.pieces '|' right, Readable alternative

/-- The lines make up a grammar: there is a first one, with an arrow, and all can be read. -/
def WellFormed (lines : List Text) : Prop :=
  (∃ line more, lines = line :: more ∧ arrow <:+: line) ∧ ∀ line ∈ lines, LineReads line

/-- The sides of the lines, in order, behind a left side that holds before them. -/
inductive Sides : Option NonTerminal → List Text → List (NonTerminal × Text) → Prop
  | nil {previous : Option NonTerminal} : Sides previous [] []
  | opens {previous : Option NonTerminal} {line right : Text} {left : NonTerminal}
      {lines : List Text} {sides : List (NonTerminal × Text)} (opens : Opens line left right)
      (more : Sides (some left) lines sides) : Sides previous (line :: lines) ((left, right) :: sides)
  | continues {line right : Text} {left : NonTerminal} {lines : List Text}
      {sides : List (NonTerminal × Text)} (continues : Continues line right)
      (more : Sides (some left) lines sides) :
      Sides (some left) (line :: lines) ((left, right) :: sides)

theorem written_cons (line : Text) (lines : List Text) :
    written (line :: lines) =
      if line.filter (!isBlank ·) = [] then written lines
      else line.filter (!isBlank ·) :: written lines := by
  unfold written
  rw [List.map_cons, List.filter_cons]
  by_cases empty : line.filter (!isBlank ·) = []
  · simp [empty]
  · simp [empty]

theorem sides_cons_iff : Sides previous (line :: lines) sides ↔
    ∃ left right more, readLeft previous line = .ok (left, right) ∧
      Sides (some left) lines more ∧ sides = (left, right) :: more := by
  simp only [readLeft_eq_ok_iff]
  constructor
  · intro given
    cases given with
    | opens opens more => exact ⟨_, _, _, .inl opens, more, rfl⟩
    | continues continues more => exact ⟨_, _, _, .inr ⟨continues, rfl⟩, more, rfl⟩
  · rintro ⟨left, right, more, opens | ⟨continues, rfl⟩, given, rfl⟩
    · exact .opens opens given
    · exact .continues continues given

/-- A line of which nothing is left is passed over, and any other one gives a production. -/
theorem readLines_cons_eq_ok_iff {productions : List Production} :
    readLines number previous (line :: lines) = .ok productions ↔
      line.filter (!isBlank ·) = [] ∧ readLines (number + 1) previous lines = .ok productions ∨
        line.filter (!isBlank ·) ≠ [] ∧ ∃ left right more,
          readLeft previous (line.filter (!isBlank ·)) = .ok (left, right) ∧
            readLines (number + 1) (some left) lines = .ok more ∧
            productions = ⟨number, left, right⟩ :: more := by
  rw [readLines]
  by_cases empty : line.filter (!isBlank ·) = []
  · simp [empty]
  · cases readLeft previous (line.filter (!isBlank ·)) with
    | error fault => simp [empty]
    | ok sides =>
        obtain ⟨left, right⟩ := sides
        cases later : readLines (number + 1) (some left) lines with
        | error cause => simp [empty, Except.map, later]
        | ok more => simp [empty, Except.map, later, eq_comm]

theorem readLines_cons_eq_error_iff {cause : ReadError} :
    readLines number previous (line :: lines) = .error cause ↔
      line.filter (!isBlank ·) = [] ∧ readLines (number + 1) previous lines = .error cause ∨
        line.filter (!isBlank ·) ≠ [] ∧
          ((∃ fault, readLeft previous (line.filter (!isBlank ·)) = .error fault ∧
              cause = .atLine number fault) ∨
            ∃ left right, readLeft previous (line.filter (!isBlank ·)) = .ok (left, right) ∧
              readLines (number + 1) (some left) lines = .error cause) := by
  rw [readLines]
  by_cases empty : line.filter (!isBlank ·) = []
  · simp [empty]
  · cases readLeft previous (line.filter (!isBlank ·)) with
    | error fault => simp [empty, eq_comm]
    | ok sides =>
        obtain ⟨left, right⟩ := sides
        cases later : readLines (number + 1) (some left) lines with
        | error cause => simp [empty, Except.map, later]
        | ok more => simp [empty, Except.map, later]

/-- The first pass succeeds exactly if every line has sides, and finds them. -/
theorem readLines_iff : (∃ productions, readLines number previous lines = .ok productions ∧
      productions.map Production.sides = sides) ↔ Sides previous (written lines) sides := by
  induction lines generalizing number previous sides with
  | nil =>
      constructor
      · rintro ⟨_, read, rfl⟩
        cases read
        exact .nil
      · intro given
        cases given
        exact ⟨[], rfl, rfl⟩
  | cons line lines induction =>
      simp only [written_cons, readLines_cons_eq_ok_iff]
      by_cases empty : line.filter (!isBlank ·) = []
      · simp only [empty, if_true, true_and, ne_eq, not_true_eq_false, false_and, or_false, induction]
      · simp only [empty, if_false, false_and, false_or, ne_eq, not_false_eq_true, true_and,
          sides_cons_iff, ← @induction _ _ (number + 1)]
        constructor
        · rintro ⟨_, ⟨left, right, more, here, later, rfl⟩, rfl⟩
          exact ⟨left, right, _, here, ⟨more, later, rfl⟩, rfl⟩
        · rintro ⟨left, right, _, here, ⟨more, later, rfl⟩, rfl⟩
          exact ⟨_, ⟨left, right, more, here, later, rfl⟩, rfl⟩

/-- Lines have sides exactly if each is of one of the two forms and a left side holds before the
first line that opens none. -/
theorem exists_sides_iff : (∃ sides, Sides previous lines sides) ↔
    (∀ line ∈ lines, ∃ right, (∃ left, Opens line left right) ∨ Continues line right) ∧
      (previous = none → ∀ line more, lines = line :: more → arrow <:+: line) := by
  induction lines generalizing previous with
  | nil => exact ⟨fun _ => ⟨by simp, fun _ _ _ => nofun⟩, fun _ => ⟨[], .nil⟩⟩
  | cons line lines induction =>
      rw [List.forall_mem_cons]
      constructor
      · rintro ⟨_, given⟩
        cases given with
        | opens opens more =>
            refine ⟨⟨⟨_, .inl ⟨_, opens⟩⟩, (induction.1 ⟨_, more⟩).1⟩, fun _ first others same => ?_⟩
            cases same
            exact opens.arrow_isInfix
        | continues continues more =>
            exact ⟨⟨⟨_, .inr continues⟩, (induction.1 ⟨_, more⟩).1⟩, nofun⟩
      · rintro ⟨⟨⟨right, ⟨left, opens⟩ | continues⟩, others⟩, first⟩
        · obtain ⟨sides, more⟩ : ∃ sides, Sides (some left) lines sides :=
            induction.2 ⟨others, nofun⟩
          exact ⟨_, .opens opens more⟩
        · cases previous with
          | none => exact absurd (first rfl line lines rfl) continues.plain
          | some left =>
              obtain ⟨sides, more⟩ : ∃ sides, Sides (some left) lines sides :=
                induction.2 ⟨others, nofun⟩
              exact ⟨_, .continues continues more⟩

theorem holds_append_opens {other : NonTerminal} (opens : Opens line left right) :
    Holds (lines ++ [line]) other ↔ left = other := by
  constructor
  · rintro ⟨earlier, opener, last, later, split, opened, closed⟩
    rcases split_concat split with ⟨rfl, _⟩ | ⟨rest, _, rfl⟩
    · exact (opens.unique opened).1
    · exact absurd opens (closed line (by simp) left right)
  · rintro rfl
    exact ⟨lines, line, right, [], rfl, opens, by simp⟩

theorem holds_append_continues (continues : Continues line right) :
    Holds (lines ++ [line]) left ↔ Holds lines left := by
  have closed : ∀ n last, ¬Opens line n last :=
    fun _ _ opens => continues.plain opens.arrow_isInfix
  constructor
  · rintro ⟨earlier, opener, last, later, split, opened, others⟩
    rcases split_concat split with ⟨rfl, _⟩ | ⟨rest, rfl, rfl⟩
    · exact absurd opened (closed left last)
    · exact ⟨earlier, opener, last, rest, rfl, opened,
        fun other member => others other (List.mem_append_left _ member)⟩
  · rintro ⟨earlier, opener, last, later, rfl, opened, others⟩
    refine ⟨earlier, opener, last, later ++ [line], by simp, opened, fun other member => ?_⟩
    rcases List.mem_append.1 member with inner | final
    · exact others other inner
    · exact List.mem_singleton.1 final ▸ closed

/-- The sides that are found are those of the lines, when the left side before the first line is the
one that holds behind the lines passed. -/
theorem Sides.mem_iff (passed : List Text) (given : Sides previous lines sides)
    (holds : ∀ n, previous = some n ↔ Holds passed n) : (left, right) ∈ sides ↔
      ∃ before line after, lines = before ++ line :: after ∧
        (Opens line left right ∨ Continues line right ∧ Holds (passed ++ before) left) := by
  induction given generalizing passed with
  | nil => simp
  | @opens previous line last n lines sides opens more induction =>
      rw [List.mem_cons, exists_split_cons_iff fun before line =>
        Opens line left right ∨ Continues line right ∧ Holds (passed ++ before) left]
      have step := induction (passed ++ [line]) fun n => by
        rw [holds_append_opens opens, Option.some.injEq]
      simp only [List.append_assoc, List.singleton_append] at step
      rw [step]
      apply or_congr_left
      constructor
      · intro same
        cases same
        exact .inl opens
      · rintro (again | ⟨continues, _⟩)
        · obtain ⟨rfl, rfl⟩ := opens.unique again
          rfl
        · exact absurd opens.arrow_isInfix continues.plain
  | @continues line last n lines sides continues more induction =>
      rw [List.mem_cons, exists_split_cons_iff fun before line =>
        Opens line left right ∨ Continues line right ∧ Holds (passed ++ before) left]
      have step := induction (passed ++ [line]) fun n => by
        rw [holds_append_continues continues, holds]
      simp only [List.append_assoc, List.singleton_append] at step
      rw [step, List.append_nil, ← holds]
      apply or_congr_left
      constructor
      · intro same
        cases same
        exact .inr ⟨continues, rfl⟩
      · rintro (opens | ⟨again, same⟩)
        · exact absurd opens.arrow_isInfix continues.plain
        · cases same
          cases again.bar.symm.trans continues.bar
          rfl

theorem Sides.assigns_iff (given : Sides none lines sides) :
    (left, right) ∈ sides ↔ Assigns lines left right := by
  refine given.mem_iff [] fun n => ⟨nofun, ?_⟩
  rintro ⟨earlier, _, _, later, split, _⟩
  simp at split

theorem Opens.lineReads_iff (opens : Opens line left right) :
    LineReads line ↔ ∀ alternative ∈ Text.pieces '|' right, Readable alternative := by
  constructor
  · rintro ⟨last, ⟨n, again⟩ | continues, readable⟩
    · exact (opens.unique again).2 ▸ readable
    · exact absurd opens.arrow_isInfix continues.plain
  · exact fun readable => ⟨right, .inl ⟨left, opens⟩, readable⟩

theorem Continues.lineReads_iff (continues : Continues line right) :
    LineReads line ↔ ∀ alternative ∈ Text.pieces '|' right, Readable alternative := by
  constructor
  · rintro ⟨last, ⟨n, opens⟩ | again, readable⟩
    · exact absurd opens.arrow_isInfix continues.plain
    · cases continues.bar.symm.trans again.bar
      exact readable
  · exact fun readable => ⟨right, .inr continues, readable⟩

theorem Sides.lineReads_iff (given : Sides previous lines sides) :
    (∀ line ∈ lines, LineReads line) ↔
      ∀ side ∈ sides, ∀ alternative ∈ Text.pieces '|' side.2, Readable alternative := by
  induction given with
  | nil => simp
  | opens opens _ induction =>
      rw [List.forall_mem_cons, List.forall_mem_cons, induction, opens.lineReads_iff]
  | continues continues _ induction =>
      rw [List.forall_mem_cons, List.forall_mem_cons, induction, continues.lineReads_iff]

theorem Sides.plain (given : Sides previous lines sides)
    (plain : ∀ line ∈ lines, ∀ c ∈ line, isBlank c = false) :
    ∀ side ∈ sides, ∀ c ∈ side.2, isBlank c = false := by
  induction given with
  | nil => simp
  | opens opens _ induction =>
      rw [List.forall_mem_cons] at plain ⊢
      refine ⟨fun c member => plain.1 c ?_, induction plain.2⟩
      rw [opens.sides]
      exact List.mem_append_right _ member
  | continues continues _ induction =>
      rw [List.forall_mem_cons] at plain ⊢
      refine ⟨fun c member => plain.1 c ?_, induction plain.2⟩
      rw [continues.bar]
      exact List.mem_cons_of_mem _ member

theorem plain_written : ∀ line ∈ written lines, ∀ c ∈ line, isBlank c = false := by
  intro line member c inside
  obtain ⟨raw, _, rfl⟩ := List.mem_map.1 (List.mem_filter.1 member).1
  simpa using (List.mem_filter.1 inside).2

section Passes

variable {productions : List Production} {rules : List (List Rule)} {text : Text} {g : Grammar}
  {rule : Rule}

theorem sides_of_readLines (read : readLines number previous lines = .ok productions) :
    Sides previous (written lines) (productions.map Production.sides) :=
  readLines_iff.1 ⟨productions, read, rfl⟩

theorem plain_of_readLines (read : readLines number previous lines = .ok productions) :
    ∀ production ∈ productions, ∀ alternative ∈ Text.pieces '|' production.right,
      ∀ c ∈ alternative, isBlank c = false := by
  intro production member alternative piece c inside
  exact (sides_of_readLines read).plain plain_written production.sides
    (List.mem_map_of_mem member) c (Text.mem_of_mem_pieces piece inside).1

theorem readRules_eq_ok_iff {production : Production} {found : List Rule} :
    readRules production = .ok found ↔
      (Text.pieces '|' production.right).mapM (readAlternative production.left) = .ok found := by
  unfold readRules
  cases (Text.pieces '|' production.right).mapM (readAlternative production.left) with
  | error fault => simp [Except.mapError]
  | ok given => simp [Except.mapError]

/-- The second pass succeeds exactly if every line can be read. -/
theorem exists_rules_iff (read : readLines number previous lines = .ok productions) :
    (∃ rules, productions.mapM readRules = .ok rules) ↔ ∀ line ∈ written lines, LineReads line := by
  rw [exists_mapM_iff, (sides_of_readLines read).lineReads_iff, List.forall_mem_map]
  apply forall₂_congr
  intro production member
  simp only [readRules_eq_ok_iff, exists_mapM_iff]
  apply forall₂_congr
  intro alternative piece
  exact exists_readAlternative_iff (plain_of_readLines read production member alternative piece)

theorem mem_flatten_of_readRules (mapped : productions.mapM readRules = .ok rules) :
    rule ∈ rules.flatten ↔ ∃ production ∈ productions,
      ∃ alternative ∈ Text.pieces '|' production.right,
        readAlternative production.left alternative = .ok rule := by
  simp only [List.mem_flatten, mem_of_mapM_eq_ok mapped]
  constructor
  · rintro ⟨found, ⟨production, member, read⟩, inside⟩
    exact ⟨production, member, (mem_of_mapM_eq_ok (readRules_eq_ok_iff.1 read)).1 inside⟩
  · rintro ⟨production, member, alternative, piece, read⟩
    obtain ⟨found, mappedTo⟩ := exists_mapM_iff.1 ⟨rules, mapped⟩ production member
    exact ⟨found, ⟨production, member, mappedTo⟩,
      (mem_of_mapM_eq_ok (readRules_eq_ok_iff.1 mappedTo)).2 ⟨alternative, piece, read⟩⟩

/-- The grammar of the productions that the first pass finds. -/
def assemble : List Production → Except ReadError Grammar
  | [] => .error .noProductions
  | first :: more =>
    ((first :: more).mapM readRules).map fun rules => ofRules first.left rules.flatten

theorem read_eq_bind (text : Text) :
    read text = (readLines 1 none (Text.pieces '\n' text)).bind assemble := by
  unfold read
  cases readLines 1 none (Text.pieces '\n' text) with
  | error cause => rfl
  | ok productions =>
      cases productions with
      | nil => rfl
      | cons first more =>
          simp only [bind, Except.bind, assemble]
          cases (first :: more).mapM readRules with
          | error cause => rfl
          | ok rules => rfl

theorem read_eq_ok_iff : read text = .ok g ↔ ∃ first more rules,
    readLines 1 none (Text.pieces '\n' text) = .ok (first :: more) ∧
      (first :: more).mapM readRules = .ok rules ∧ ofRules first.left rules.flatten = g := by
  rw [read_eq_bind]
  cases readLines 1 none (Text.pieces '\n' text) with
  | error cause => simp [Except.bind]
  | ok productions =>
      cases productions with
      | nil => simp [Except.bind, assemble]
      | cons first more =>
          cases mapped : (first :: more).mapM readRules with
          | error cause => simp [Except.bind, assemble, Except.map, mapped, -List.mapM_cons]
          | ok rules => simp [Except.bind, assemble, Except.map, mapped, -List.mapM_cons]

theorem exists_read_iff : (∃ g, read text = .ok g) ↔ WellFormed (writtenLines text) := by
  simp only [read_eq_ok_iff]
  constructor
  · rintro ⟨_, first, more, rules, lines, mapped, _⟩
    have given := sides_of_readLines lines
    refine ⟨?_, (exists_rules_iff lines).1 ⟨rules, mapped⟩⟩
    change Sides none (writtenLines text) _ at given
    cases heads : writtenLines text with
    | nil =>
        rw [heads] at given
        exact nomatch given
    | cons line others =>
        rw [heads] at given
        exact ⟨line, others, rfl, (exists_sides_iff.1 ⟨_, given⟩).2 rfl line others rfl⟩
  · rintro ⟨⟨line, others, split, opening⟩, reads⟩
    have form : ∃ sides, Sides none (writtenLines text) sides := by
      refine exists_sides_iff.2 ⟨fun line member => ?_, fun _ head rest same => ?_⟩
      · obtain ⟨right, form, _⟩ := reads line member
        exact ⟨right, form⟩
      · rw [split] at same
        cases same
        exact opening
    obtain ⟨sides, given⟩ := form
    obtain ⟨productions, lines, rfl⟩ :
        ∃ productions, readLines 1 none (Text.pieces '\n' text) = .ok productions ∧
          productions.map Production.sides = sides := readLines_iff.2 given
    obtain ⟨rules, mapped⟩ := (exists_rules_iff lines).2 reads
    cases productions with
    | nil =>
        rw [split] at given
        exact nomatch given
    | cons first more => exact ⟨_, first, more, rules, lines, mapped, rfl⟩

theorem mem_nonterminals_ofRules {start n : NonTerminal} {listed : List Rule} :
    n ∈ (ofRules start listed).nonterminals ↔
      n = start ∨ ∃ rule ∈ listed, Symbol.nonterminal n ∈ rule.symbols := by
  have named : ∀ s : Symbol, s.nonterminal? = some n ↔ s = .nonterminal n := by
    intro s
    cases s <;> simp [Symbol.nonterminal?]
  simp [ofRules, SortedSet.mem_ofList, named]

theorem mem_terminals_ofRules {start : NonTerminal} {t : Terminal} {listed : List Rule} :
    t ∈ (ofRules start listed).terminals ↔ ∃ rule ∈ listed, Symbol.terminal t ∈ rule.symbols := by
  have named : ∀ s : Symbol, s.terminal? = some t ↔ s = .terminal t := by
    intro s
    cases s <;> simp [Symbol.terminal?]
  simp [ofRules, SortedSet.mem_ofList, named]

theorem Spells.ne_nil {alternative : Text} (spells : Spells alternative rule.right) :
    alternative ≠ [] := by
  rintro rfl
  exact rule.right_ne_nil (List.forall₂_nil_left_iff.1 spells)

/-- A text is read exactly if its lines make up a grammar. The start is then the left side of the
first line, the rules are what the lines spell, alternative by alternative, each with the left side
that holds at its line, and the symbols are the start and those of the rules. -/
theorem reader_accepts_its_format (text : Text) :
    ((∃ g, read text = .ok g) ↔ WellFormed (writtenLines text)) ∧
      ∀ g, read text = .ok g →
        (∃ line more right, writtenLines text = line :: more ∧ Opens line g.start right) ∧
        (∀ rule, rule ∈ g.rules ↔ ∃ right alternative, Assigns (writtenLines text) rule.left right ∧
          alternative ∈ Text.pieces '|' right ∧ Spells alternative rule.right) ∧
        (∀ n, n ∈ g.nonterminals ↔
          n = g.start ∨ ∃ rule ∈ g.rules, Symbol.nonterminal n ∈ rule.symbols) ∧
        ∀ t, t ∈ g.terminals ↔ ∃ rule ∈ g.rules, Symbol.terminal t ∈ rule.symbols := by
  refine ⟨exists_read_iff, fun g result => ?_⟩
  obtain ⟨first, more, rules, lines, mapped, rfl⟩ := read_eq_ok_iff.1 result
  have given : Sides none (writtenLines text) ((first :: more).map Production.sides) :=
    sides_of_readLines lines
  refine ⟨?_, fun rule => ?_, fun n => ?_, fun t => ?_⟩
  · rw [List.map_cons] at given
    generalize writtenLines text = written at given
    cases given with
    | opens opens _ => exact ⟨_, _, _, rfl, opens⟩
  · rw [mem_rules_ofRules, mem_flatten_of_readRules mapped]
    simp only [readAlternative_eq_ok_iff, ← given.assigns_iff]
    constructor
    · rintro ⟨production, member, alternative, piece, _, left, spells⟩
      rw [left]
      exact ⟨production.right, alternative, List.mem_map_of_mem member, piece, spells⟩
    · rintro ⟨right, alternative, member, piece, spells⟩
      obtain ⟨production, inside, same⟩ := List.mem_map.1 member
      obtain ⟨left, rfl⟩ := Prod.mk.inj same
      exact ⟨production, inside, alternative, piece, spells.ne_nil, left.symm, spells⟩
  · simp only [mem_nonterminals_ofRules, mem_rules_ofRules]
    rfl
  · simp only [mem_terminals_ofRules, mem_rules_ofRules]

/-- The lines of this text make up a grammar, and one of them gives the empty word to the start. -/
theorem reader_accepts_a_line_that_goes_on :
    WellFormed (writtenLines "S -> a\n | eps".toList) ∧
      ∃ g, read "S -> a\n | eps".toList = .ok g ∧
        ∃ right alternative, Assigns (writtenLines "S -> a\n | eps".toList) g.start right ∧
          alternative ∈ Text.pieces '|' right ∧ Spells alternative [.terminal .epsilon] := by
  let letter : Rule := ⟨.named "S", [.terminal (.char 'a')], by decide, by decide⟩
  have reads : read "S -> a\n | eps".toList =
      .ok (ofRules (.named "S") [letter, .epsilon (.named "S")]) :=
    read_eq_ok_iff.2 ⟨⟨1, .named "S", ['a']⟩, [⟨2, .named "S", "eps".toList⟩],
      [[letter], [.epsilon (.named "S")]],
      by decide, by decide, rfl⟩
  obtain ⟨accepts, holds⟩ := reader_accepts_its_format "S -> a\n | eps".toList
  obtain ⟨_, rules, _⟩ := holds _ reads
  have member : Rule.epsilon (.named "S") ∈
      (ofRules (.named "S") [letter, .epsilon (.named "S")]).rules :=
    mem_rules_ofRules.2 (by simp)
  exact ⟨accepts.1 ⟨_, reads⟩, _, reads, (rules _).1 member⟩

end Passes

end Grammar

end StrongLL
