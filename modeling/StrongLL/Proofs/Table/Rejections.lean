import StrongLL.Proofs.Grammar.Nullable
import StrongLL.Proofs.Table.Parsing

/-!
# Rejections tell the truth

What the machine has read, followed by its stack, is a sentential form, and the stack derives some
word: a rule that the table selects belongs to a derivation of a word, so it puts no symbol on the
stack that derives nothing. This holds before every turn, also where rules of the grammar are
useless. A rejection can therefore say that what was read begins a word, and what would continue it.

Every turn looks at no more than `k` unread characters. Another input that agrees with the rejected
one up to `k` characters behind the position of the rejection is rejected there too, and so it is no
word either. Nothing is said about inputs that end before that.
-/

namespace StrongLL

set_option autoImplicit false

/-- Some word of the grammar begins with the text. -/
def Grammar.ViablePrefix (g : Grammar) (text : Text) : Prop := ∃ rest, g.Language (text ++ rest)

namespace Table

variable {g : Grammar} {k : Nat} {table : Table} {machine next : Machine} {cause : ParseError}
  {input : Text}

section Prefixes

/-- What was read with the stack behind it is a sentential form, and the stack derives a word. -/
structure OnTrack (g : Grammar) (input : Text) (machine : Machine) : Prop where
  within : machine.position ≤ input.length
  unread : machine.rest = input.drop machine.position
  plain : Symbol.terminal .epsilon ∉ machine.stack
  form : g.Derives [.nonterminal g.start]
    (spelled (input.take machine.position) ++ machine.stack)
  productive : ∃ word, g.DerivesWord machine.stack word

theorem onTrack_initial (inhabited : ∃ word, g.Language word) (input : Text) :
    OnTrack g input (.initial g.start input) where
  within := Nat.zero_le _
  unread := rfl
  plain := by simp [Machine.initial]
  form := .refl _
  productive := inhabited

theorem OnTrack.read {c : Char} {position : Nat} {stack : List Symbol} {rest : Text}
    {applied : List AppliedRule}
    (track : OnTrack g input ⟨position, .terminal (.char c) :: stack, c :: rest, applied⟩) :
    OnTrack g input ⟨position + 1, stack, rest, applied⟩ := by
  obtain ⟨within, unread, plain, form, word, derives⟩ := track
  have unread : c :: rest = input.drop position := unread
  have found : input[position]? = some c := by
    rw [← List.head?_drop, ← unread]
    rfl
  obtain ⟨bound, _⟩ := List.getElem?_eq_some_iff.1 found
  have taken : input.take (position + 1) = input.take position ++ [c] := by
    rw [List.take_add_one, found]
    rfl
  obtain ⟨_, behind, _, _, derivesBehind⟩ := derives.of_cons
  constructor
  · exact bound
  · rw [← List.drop_drop, ← unread]
    rfl
  · exact fun occurs => plain (List.mem_cons_of_mem _ occurs)
  · rw [taken, spelled, List.map_append, List.append_assoc]
    exact form
  · exact ⟨behind, derivesBehind⟩

theorem OnTrack.expand (built : g.table k = .ok table) {position : Nat} {n : NonTerminal}
    {stack : List Symbol} {rest : Text} {applied : List AppliedRule} {selected : AppliedRule}
    (found : table.select? n (table.upcoming rest) = some selected)
    (track : OnTrack g input ⟨position, .nonterminal n :: stack, rest, applied⟩) :
    OnTrack g input ⟨position, selected.rule.body ++ stack, rest, applied ++ [selected]⟩ := by
  obtain ⟨within, unread, plain, form, word, derives⟩ := track
  obtain ⟨known, rfl, _, _, _, derivesWhole, _⟩ := (select?_eq_some_iff built).1 found
  obtain ⟨inner, _, _, derivesBody, _⟩ := derivesWhole.split
  obtain ⟨_, outer, _, _, derivesStack⟩ := derives.of_cons
  constructor
  · exact within
  · exact unread
  · exact selected.rule.epsilon_not_mem_replaced [] plain
  · have replaced := Grammar.Derives.of_rule (mem_rules_of_rule? built known)
      (spelled (input.take position)) stack
    rw [← List.append_assoc]
    exact form.trans replaced
  · exact ⟨inner ++ outer, derivesBody.append derivesStack⟩

theorem OnTrack.step (built : g.table k = .ok table) (track : OnTrack g input machine)
    (step : table.Step machine next) : OnTrack g input next := by
  cases step with
  | drop => exact absurd List.mem_cons_self track.plain
  | read => exact track.read
  | expand found => exact track.expand built found

/-- Whatever the stack derives continues what was read to a word. -/
theorem OnTrack.language (track : OnTrack g input machine) {word : Text}
    (derives : g.DerivesWord machine.stack word) :
    g.Language (input.take machine.position ++ word) := by
  have read : g.DerivesWord (spelled (input.take machine.position))
      (input.take machine.position) :=
    Grammar.derivesWord_iff_yields.2 ⟨[], Grammar.yields_spelled _⟩
  exact .of_derives track.form (read.append derives)

theorem OnTrack.viablePrefix (track : OnTrack g input machine) :
    g.ViablePrefix (input.take machine.position) := by
  obtain ⟨word, derives⟩ := track.productive
  exact ⟨word, track.language derives⟩

/-- A character on top of the stack may come next. -/
theorem OnTrack.viablePrefix_concat (track : OnTrack g input machine) {c : Char}
    {stack : List Symbol} (top : machine.stack = .terminal (.char c) :: stack) :
    g.ViablePrefix (input.take machine.position ++ [c]) := by
  obtain ⟨word, derives⟩ := track.productive
  rw [top] at derives
  obtain ⟨_, later, _, _, derivesLater⟩ := derives.of_cons
  have single : g.DerivesWord [.terminal (.char c)] [c] := .refl [.terminal (.char c)]
  have derivesStack : g.DerivesWord machine.stack ([c] ++ later) := by
    rw [top]
    exact single.append derivesLater
  have whole := track.language derivesStack
  rw [← List.append_assoc] at whole
  exact ⟨later, whole⟩

theorem exists_rejects (built : g.table k = .ok table) (inhabited : ∃ word, g.Language word)
    (rejected : table.parse g.start input = .error cause) :
    ∃ last, OnTrack g input last ∧ table.Rejects last cause := by
  have halts := halts_parse built g.start input
  rw [rejected] at halts
  obtain ⟨last, track, halted⟩ := halts.exists_last (OnTrack g input)
    (fun _ _ track step => track.step built step) (onTrack_initial inhabited input)
  exact ⟨last, track, rejects_of_turn halted⟩

end Prefixes

section Windows

theorem take_eq_of_isPrefix {Item : Type} {first second : List Item} {length shorter : Nat}
    (agree : first.take length <+: second) (fits : length ≤ first.length)
    (within : shorter ≤ length) : second.take shorter = first.take shorter := by
  obtain ⟨rest, rfl⟩ := agree
  rw [List.take_append_of_le_length (by rw [List.length_take]; omega), List.take_take,
    Nat.min_eq_left within]

theorem upcoming_congr {first second : Text} (same : first.take table.k = second.take table.k) :
    table.upcoming first = table.upcoming second := by
  rw [upcoming, upcoming, same]

theorem Rejects.of_window (rejects : table.Rejects machine cause) (positive : 1 ≤ table.k)
    (fits : table.k ≤ machine.rest.length) {other : Text}
    (agree : machine.rest.take table.k <+: other) :
    ∃ cause, table.Rejects { machine with rest := other } cause := by
  cases rejects with
  | @trailing _ found rest _ =>
      cases other with
      | nil => simp at agree; omega
      | cons c other => exact ⟨_, .trailing⟩
  | ended => exact absurd fits (Nat.not_le_of_lt positive)
  | @differs _ c found _ rest _ different =>
      have head := take_eq_of_isPrefix agree fits positive
      cases other with
      | nil => exact nomatch head
      | cons first other =>
          cases head
          exact ⟨_, .differs different⟩
  | @unknown _ n stack rest _ absent =>
      have same := take_eq_of_isPrefix agree fits (Nat.le_refl _)
      rw [← upcoming_congr same] at absent
      exact ⟨_, .unknown absent⟩

/-- A step before the position `seen` is taken on any input that agrees up to there, and leads to
inputs that agree again. -/
theorem Step.of_window (step : table.Step machine next) {seen : Nat}
    (ahead : next.position + table.k ≤ seen)
    (fits : seen ≤ machine.position + machine.rest.length) {other : Text}
    (agree : machine.rest.take (seen - machine.position) <+: other) :
    ∃ rest, table.Step { machine with rest := other } { next with rest } ∧
      next.rest.take (seen - next.position) <+: rest := by
  cases step with
  | drop => exact ⟨other, .drop, agree⟩
  | @read position c stack rest applied =>
      simp only at ahead fits agree ⊢
      have more : seen - position = seen - (position + 1) + 1 := by omega
      rw [more, List.take_succ_cons] at agree
      obtain ⟨tail, rfl⟩ := agree
      exact ⟨_, .read, List.prefix_append _ _⟩
  | @expand position n stack rest applied selected found =>
      simp only at ahead fits agree ⊢
      have same : other.take table.k = rest.take table.k :=
        take_eq_of_isPrefix agree (by omega) (by omega)
      rw [← upcoming_congr same] at found
      exact ⟨other, .expand found, agree⟩

/-- A rejection looks at no more than `k` characters behind its position. -/
theorem Halts.error_of_window (halts : table.Halts machine (.error cause)) {position : Nat}
    (blamed : cause.position? = some position) (positive : 1 ≤ table.k)
    (fits : position + table.k ≤ machine.position + machine.rest.length) {other : Text}
    (agree : machine.rest.take (position + table.k - machine.position) <+: other) :
    ∃ cause, table.Halts { machine with rest := other } (.error cause) := by
  obtain ⟨turns, answered⟩ := halts
  induction turns generalizing machine other with
  | zero => exact nomatch answered
  | succ turns induction =>
      cases turned : table.turn machine with
      | on next =>
          rw [loop_of_on turned] at answered
          obtain ⟨_, same, after, _⟩ := Halts.position_of_error ⟨turns, answered⟩
          rw [blamed, Option.some.injEq] at same
          have step := step_of_turn turned
          have moved := step.position_add_length
          obtain ⟨rest, stepOther, agreeNext⟩ := step.of_window (by omega) fits agree
          obtain ⟨cause, later⟩ := induction (by omega) agreeNext answered
          exact ⟨cause, .of_on (turn_of_step stepOther) later⟩
      | halt early =>
          rw [loop_of_halt turned] at answered
          cases answered
          have rejects := rejects_of_turn turned
          have same := rejects.position_eq
          rw [blamed, Option.some.injEq] at same
          rw [same, Nat.add_sub_cancel_left] at agree
          obtain ⟨other, rejectsOther⟩ := rejects.of_window positive (by omega) agree
          exact ⟨other, .of_halt (turn_of_rejects rejectsOther)⟩

theorem halts_of_language (built : g.table k = .ok table) {word : Text}
    (inside : g.Language word) :
    ∃ applied, table.Halts (.initial g.start word) (.ok applied) := by
  obtain ⟨rules, leftmost⟩ := Grammar.language_iff_leftmost.1 inside
  have form : g.Derives [.nonterminal g.start] ([] ++ [.nonterminal g.start]) := .refl _
  obtain ⟨applied, _, _, accepts⟩ := halts_of_leftmost built leftmost form
  exact ⟨_, accepts 0 []⟩

/-- No word begins with what the machine has seen when it rejects. -/
theorem not_isPrefix_of_language (built : g.table k = .ok table)
    (rejected : table.parse g.start input = .error cause) {position : Nat}
    (blamed : cause.position? = some position) (fits : position + k ≤ input.length) {other : Text}
    (inside : g.Language other) : ¬input.take (position + k) <+: other := by
  intro agree
  obtain ⟨positive, rfl, _⟩ := parts_of_built built
  have halts := halts_parse built g.start input
  rw [rejected] at halts
  obtain ⟨cause, rejects⟩ := halts.error_of_window blamed positive
    (by simpa [Machine.initial] using fits) agree
  obtain ⟨applied, accepts⟩ := halts_of_language built inside
  have same := accepts.unique rejects
  cases same

end Windows

/-- A rejection by a grammar with words blames a position of the input, and what was read up to it
begins a word. When the input ends or has another character than the expected one, a word goes on
with the expected one; when something is left over, what was read is a word itself. Where `k` more
characters can be seen, no word begins with what was read and these. -/
theorem rejections_are_truthful (built : g.table k = .ok table)
    (inhabited : ∃ word, g.Language word)
    (rejected : table.parse g.start input = .error cause) :
    ∃ position, cause.position? = some position ∧ position ≤ input.length ∧
      g.ViablePrefix (input.take position) ∧
      (∀ expected, cause = .unexpectedEnd position expected → position = input.length ∧
        ∃ c, expected = .char c ∧ g.ViablePrefix (input.take position ++ [c])) ∧
      (∀ expected found, cause = .mismatch position expected found →
        ∃ c, expected = .char c ∧ g.ViablePrefix (input.take position ++ [c])) ∧
      (cause = .trailingInput position →
        position < input.length ∧ g.Language (input.take position)) ∧
      (position + k ≤ input.length →
        ∀ word, g.Language word → ¬input.take (position + k) <+: word) := by
  obtain ⟨last, track, rejects⟩ := exists_rejects built inhabited rejected
  have blamed := rejects.position_eq
  refine ⟨last.position, blamed, track.within, track.viablePrefix, ?_, ?_, ?_,
    fun fits word inside => not_isPrefix_of_language built rejected blamed fits inside⟩
  · rintro expected rfl
    cases rejects with
    | ended =>
        have read := List.drop_eq_nil_iff.1 track.unread.symm
        exact ⟨Nat.le_antisymm track.within read, _, rfl, track.viablePrefix_concat rfl⟩
  · rintro expected found rfl
    cases rejects with
    | differs => exact ⟨_, rfl, track.viablePrefix_concat rfl⟩
  · rintro rfl
    cases rejects with
    | @trailing position found rest applied =>
        have unread : found :: rest = input.drop position := track.unread
        have count := congrArg List.length unread
        rw [List.length_cons, List.length_drop] at count
        have nothing : g.DerivesWord [] [] := .refl []
        have whole := track.language nothing
        rw [List.append_nil] at whole
        exact ⟨by simp only; omega, whole⟩

end Table

/-- A parenthesis too many is left over behind a word, and no word goes on with it. -/
theorem nested_rejects :
    nested.table 1 = .ok nestedTable ∧ nested.Language [] ∧
      nestedTable.parse nested.start ['(', ')', ')', '('] = .error (.trailingInput 2) ∧
      nested.Language ['(', ')'] ∧
      ∀ word, nested.Language word → ¬['(', ')', ')'] <+: word := by
  have empty : nested.Language [] := Grammar.isNullable_iff.1 (by decide)
  have rejected : nestedTable.parse nested.start ['(', ')', ')', '('] =
      .error (.trailingInput 2) := by
    cbv
  obtain ⟨position, blamed, _, _, _, _, leftOver, unseen⟩ :=
    Table.rejections_are_truthful nested_table ⟨[], empty⟩ rejected
  cases blamed
  exact ⟨nested_table, empty, rejected, (leftOver rfl).2, unseen (by decide)⟩

end StrongLL
