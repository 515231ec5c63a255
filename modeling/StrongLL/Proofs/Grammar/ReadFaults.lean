import StrongLL.Proofs.Grammar.Reader

/-!
# Which fault is reported

All left sides are read before any right side, so a fault of a left side is reported before those of
the right sides of earlier lines. What stands before the reported line is faultless exactly if all its
right sides can be read, and it always is when the fault is one of a right side. Of several faults in
one line the first is reported; that is not looked at here.
-/

namespace StrongLL

set_option autoImplicit false

/-- The fault is one of a right side. -/
def LineFault.OfRight : LineFault → Prop
  | .emptyAlternative => True
  | .name (.notTerminal _) => True
  | .rule _ => True
  | _ => False

namespace Grammar

variable {text line right : Text} {lines : List Text} {left : NonTerminal}
  {previous : Option NonTerminal} {number place : Nat} {productions before after : List Production}
  {production : Production} {fault : LineFault} {cause : ReadError}

/-- The text of the lines before the one with the given number. -/
def textBefore (number : Nat) (text : Text) : Text :=
  ['\n'].intercalate ((Text.pieces '\n' text).take (number - 1))

/-- No line of the text is malformed: the text is read, or there is nothing in it to read. -/
def Faultless (text : Text) : Prop :=
  (∃ g, read text = .ok g) ∨ read text = .error .noProductions

theorem not_ofRight_of_readLeft (failed : readLeft previous line = .error fault) :
    ¬fault.OfRight := by
  unfold readLeft at failed
  split at failed
  · split at failed
    · cases failed
      exact id
    split at failed
    · cases failed
      exact id
    split at failed
    · exact nomatch failed
    · next cause unread =>
        cases failed
        rw [NonTerminal.fault_of_read unread]
        exact id
  · split at failed
    · split at failed
      · exact nomatch failed
      · cases failed
        exact id
    · cases failed
      exact id

theorem fault_of_readRules
    (plain : ∀ alternative ∈ Text.pieces '|' production.right, ∀ c ∈ alternative, isBlank c = false)
    (failed : readRules production = .error cause) :
    ∃ fault, cause = .atLine production.line fault ∧ fault.OfRight := by
  unfold readRules at failed
  cases mapped : (Text.pieces '|' production.right).mapM (readAlternative production.left) with
  | ok rules =>
      rw [mapped] at failed
      exact nomatch failed
  | error fault =>
      rw [mapped] at failed
      obtain ⟨_, alternative, _, split, _, unread⟩ := exists_first_failure mapped
      have member : alternative ∈ Text.pieces '|' production.right := by simp [split]
      refine ⟨fault, (Except.error.inj failed).symm, ?_⟩
      rcases fault_of_readAlternative (plain alternative member) unread with rfl | ⟨c, rfl⟩
      · trivial
      · trivial

/-- A fault of the first pass is one of a left side, and the lines before it are passed. -/
theorem split_of_readLines_error (failed : readLines number previous lines = .error cause) :
    ∃ passed line later productions fault, lines = passed ++ line :: later ∧
      readLines number previous passed = .ok productions ∧
      cause = .atLine (number + passed.length) fault ∧ ¬fault.OfRight := by
  induction lines generalizing number previous with
  | nil => exact nomatch failed
  | cons line lines induction =>
      rcases readLines_cons_eq_error_iff.1 failed with
        ⟨empty, later⟩ | ⟨filled, ⟨fault, here, rfl⟩ | ⟨left, right, here, later⟩⟩
      · obtain ⟨passed, last, behind, productions, fault, rfl, read, same, notRight⟩ :=
          induction later
        refine ⟨line :: passed, last, behind, productions, fault, rfl, ?_, ?_, notRight⟩
        · exact readLines_cons_eq_ok_iff.2 (.inl ⟨empty, read⟩)
        · rw [same, List.length_cons, Nat.add_assoc, Nat.add_comm 1]
      · exact ⟨[], line, lines, [], fault, rfl, rfl, rfl, not_ofRight_of_readLeft here⟩
      · obtain ⟨passed, last, behind, productions, fault, rfl, read, same, notRight⟩ :=
          induction later
        refine ⟨line :: passed, last, behind, ⟨number, left, right⟩ :: productions, fault, rfl, ?_, ?_,
          notRight⟩
        · exact readLines_cons_eq_ok_iff.2 (.inr ⟨filled, left, right, productions, here, read, rfl⟩)
        · rw [same, List.length_cons, Nat.add_assoc, Nat.add_comm 1]

/-- A production is on a line behind those of the productions before it. -/
theorem split_of_readLines_ok
    (read : readLines number previous lines = .ok (before ++ production :: after)) :
    ∃ passed line later, lines = passed ++ line :: later ∧
      readLines number previous passed = .ok before ∧
      production.line = number + passed.length := by
  induction lines generalizing number previous before with
  | nil => simp [readLines] at read
  | cons line lines induction =>
      rcases readLines_cons_eq_ok_iff.1 read with
        ⟨empty, later⟩ | ⟨filled, left, right, more, here, later, same⟩
      · obtain ⟨passed, last, behind, rfl, earlier, place⟩ := induction later
        refine ⟨line :: passed, last, behind, rfl, ?_, ?_⟩
        · exact readLines_cons_eq_ok_iff.2 (.inl ⟨empty, earlier⟩)
        · rw [place, List.length_cons, Nat.add_assoc, Nat.add_comm 1]
      · cases before with
        | nil =>
            cases same
            exact ⟨[], line, lines, rfl, rfl, rfl⟩
        | cons first before =>
            cases same
            obtain ⟨passed, last, behind, rfl, earlier, place⟩ := induction later
            refine ⟨line :: passed, last, behind, rfl, ?_, ?_⟩
            · exact readLines_cons_eq_ok_iff.2 (.inr ⟨filled, left, right, before, here, earlier, rfl⟩)
            · rw [place, List.length_cons, Nat.add_assoc, Nat.add_comm 1]

theorem assemble_eq_error_iff :
    assemble productions = .error cause ↔
      productions = [] ∧ cause = .noProductions ∨ productions.mapM readRules = .error cause := by
  cases productions with
  | nil => simp [assemble, pure, Except.pure, eq_comm]
  | cons first more =>
      rw [assemble]
      cases (first :: more).mapM readRules with
      | error fault => simp [Except.map]
      | ok rules => simp [Except.map]

/-- A fault of the second pass is one of a right side, and those of the lines before it are read. -/
theorem split_of_unread (read : readLines 1 none lines = .ok productions)
    (unread : productions.mapM readRules = .error cause) :
    ∃ passed line later before fault, lines = passed ++ line :: later ∧
      readLines 1 none passed = .ok before ∧ (∃ rules, before.mapM readRules = .ok rules) ∧
      cause = .atLine (1 + passed.length) fault ∧ fault.OfRight := by
  obtain ⟨before, production, after, rfl, mapped, failure⟩ := exists_first_failure unread
  have member : production ∈ before ++ production :: after := by simp
  obtain ⟨fault, rfl, ofRight⟩ :=
    fault_of_readRules (plain_of_readLines read production member) failure
  obtain ⟨passed, line, later, split, earlier, place⟩ := split_of_readLines_ok read
  exact ⟨passed, line, later, before, fault, split, earlier, mapped, by rw [place], ofRight⟩

/-- Where a text is faulty, the left sides of the lines before it are read, and so are their right
sides when the fault is one of a right side. -/
theorem split_of_read_error (failed : read text = .error (.atLine number fault)) :
    ∃ passed line later productions, Text.pieces '\n' text = passed ++ line :: later ∧
      readLines 1 none passed = .ok productions ∧ number = 1 + passed.length ∧
      (fault.OfRight → ∃ rules, productions.mapM readRules = .ok rules) := by
  rw [read_eq_bind] at failed
  cases read : readLines 1 none (Text.pieces '\n' text) with
  | error cause =>
      obtain ⟨passed, line, later, productions, found, split, earlier, rfl, notRight⟩ :=
        split_of_readLines_error read
      rw [read] at failed
      cases failed
      exact ⟨passed, line, later, productions, split, earlier, rfl,
        fun ofRight => absurd ofRight notRight⟩
  | ok productions =>
      rw [read] at failed
      obtain ⟨_, impossible⟩ | unread := assemble_eq_error_iff.1 failed
      · exact nomatch impossible
      obtain ⟨passed, line, later, before, found, split, earlier, mapped, same, _⟩ :=
        split_of_unread read unread
      cases same
      exact ⟨passed, line, later, before, split, earlier, rfl, fun _ => mapped⟩

section Before

variable {passed later : List Text}

theorem textBefore_eq (split : Text.pieces '\n' text = passed ++ line :: later) :
    textBefore (1 + passed.length) text = ['\n'].intercalate passed := by
  rw [textBefore, split, Nat.add_sub_cancel_left, List.take_left]

/-- The lines before a line are those of the text before it, if there are any. -/
theorem pieces_textBefore (split : Text.pieces '\n' text = passed ++ line :: later)
    (filled : passed ≠ []) :
    Text.pieces '\n' (textBefore (1 + passed.length) text) = passed := by
  rw [textBefore_eq split]
  refine Text.pieces_intercalate (fun piece member inside => ?_) filled
  have piece_mem : piece ∈ Text.pieces '\n' text := by
    rw [split]
    exact List.mem_append_left _ member
  exact (Text.mem_of_mem_pieces piece_mem inside).2 rfl

theorem writtenLines_textBefore (split : Text.pieces '\n' text = passed ++ line :: later) :
    writtenLines (textBefore (1 + passed.length) text) = written passed := by
  by_cases empty : passed = []
  · subst empty
    rfl
  · rw [writtenLines, pieces_textBefore split empty]

theorem read_textBefore (split : Text.pieces '\n' text = passed ++ line :: later)
    (lines : readLines 1 none passed = .ok productions) :
    read (textBefore (1 + passed.length) text) = assemble productions := by
  by_cases empty : passed = []
  · subst empty
    cases lines
    rfl
  · rw [read_eq_bind, pieces_textBefore split empty, lines]
    rfl

end Before

theorem faultless_iff (lines_read : readLines 1 none lines = .ok productions)
    (read : Grammar.read text = assemble productions) :
    Faultless text ↔ ∃ rules, productions.mapM readRules = .ok rules := by
  rw [Faultless, read]
  cases mapped : productions.mapM readRules with
  | error cause =>
      obtain ⟨passed, line, later, before, fault, _, _, _, rfl, _⟩ := split_of_unread lines_read mapped
      rw [assemble_eq_error_iff.2 (.inr mapped)]
      simp
  | ok rules =>
      refine iff_of_true ?_ ⟨rules, rfl⟩
      cases productions with
      | nil => exact .inr rfl
      | cons first more =>
          rw [assemble, mapped]
          exact .inl ⟨_, rfl⟩

/-- What stands before the line of a fault is faultless exactly if all its lines can be read, and it
is when the fault is one of a right side. Otherwise the fault reported for it is one of a right side,
on an earlier line. -/
theorem reader_reports_left_sides_first (text : Text) (number : Nat) (fault : LineFault)
    (failed : read text = .error (.atLine number fault)) :
    (Faultless (textBefore number text) ↔
        ∀ line ∈ writtenLines (textBefore number text), LineReads line) ∧
      (fault.OfRight → Faultless (textBefore number text)) ∧
      (¬Faultless (textBefore number text) → ∃ place cause, place < number ∧ cause.OfRight ∧
        read (textBefore number text) = .error (.atLine place cause)) := by
  obtain ⟨passed, line, later, productions, split, lines, rfl, readable⟩ :=
    split_of_read_error failed
  have before := read_textBefore split lines
  rw [faultless_iff lines before, writtenLines_textBefore split]
  refine ⟨exists_rules_iff lines, readable, fun unread => ?_⟩
  cases mapped : productions.mapM readRules with
  | ok rules => exact absurd ⟨rules, mapped⟩ unread
  | error cause =>
      obtain ⟨earlier, last, behind, _, found, rfl, _, _, rfl, ofRight⟩ :=
        split_of_unread lines mapped
      refine ⟨1 + earlier.length, found, ?_, ofRight, ?_⟩
      · simp
      · rw [before, assemble_eq_error_iff]
        exact .inr mapped

/-- A right side is at fault here, in the second line. -/
theorem reader_reports_left_sides_first_for_a_right_side :
    Faultless (textBefore 2 "S->a\nS->b||".toList) :=
  (reader_reports_left_sides_first "S->a\nS->b||".toList 2 .emptyAlternative (by decide)).2.1 trivial

/-- The left side of the second line is reported, although an alternative of the first one is empty. -/
theorem reader_can_pass_a_right_side :
    read "S->a|\nx->b".toList = .error (.atLine 2 (.name (.notNonTerminal ['x']))) ∧
      read (textBefore 2 "S->a|\nx->b".toList) = .error (.atLine 1 .emptyAlternative) ∧
      ¬Faultless (textBefore 2 "S->a|\nx->b".toList) := by
  have first_line :
      read (textBefore 2 "S->a|\nx->b".toList) = .error (.atLine 1 .emptyAlternative) := by
    decide
  refine ⟨by decide, first_line, ?_⟩
  rw [Faultless, first_line]
  simp

end Grammar

end StrongLL
