import StrongLL.Proofs.Text.Cutting
import StrongLL.Render.Format

/-!
# How LaTeX reads a text

A backslash takes the character behind it, whatever that is, so a text is read as a list of marks: a
character by itself, or one that a backslash has taken. Only the former separate columns, open and close
groups and begin comments, and a row ends where a backslash takes another one. Part of a row is a text
that no comment or row break interrupts, that ends where a mark ends and where its groups are closed.
Such parts are put together by appending and by grouping, and the columns add up. An escaped text is one
that separates no columns, whatever the text is, as far as the escape follows its table.
-/

namespace StrongLL.Latex

set_option autoImplicit false

/-- What is read at once: a character, or a backslash with the character behind it. -/
inductive Mark where
  | plain (c : Char)
  | escaped (c : Char)
deriving DecidableEq

namespace Mark

/-- An ampersand. -/
def separator : Mark := plain '&'

/-- Two backslashes. -/
def rowBreak : Mark := escaped '\\'

/-- A percent sign. -/
def comment : Mark := plain '%'

/-- The number of open groups after a mark. A closing brace needs an open one. -/
def nest (depth : Nat) : Mark → Option Nat
  | plain '\x7b' => some (depth + 1)
  | plain '\x7d' => if depth = 0 then none else some (depth - 1)
  | _ => some depth

theorem nest_add {depth after : Nat} {mark : Mark} (nested : mark.nest depth = some after)
    (more : Nat) : mark.nest (depth + more) = some (after + more) := by
  unfold nest at nested ⊢
  split at nested
  · cases nested
    rw [Nat.add_right_comm]
  · split at nested
    · exact nomatch nested
    · next inside =>
        cases nested
        rw [if_neg (by omega)]
        congr 1
        omega
  · cases nested
    rfl

end Mark

/-- The marks of a text. A backslash is by itself only at the end of the text. -/
def marks : Text → List Mark
  | '\\' :: c :: rest => .escaped c :: marks rest
  | c :: rest => .plain c :: marks rest
  | [] => []

/-- The number of open groups after marks. -/
def nestAll (depth : Nat) (read : List Mark) : Option Nat := read.foldlM Mark.nest depth

/-- Every brace that is not taken by a backslash has its partner. -/
def Balanced (text : Text) : Prop := nestAll 0 (marks text) = some 0

instance (text : Text) : Decidable (Balanced text) :=
  inferInstanceAs (Decidable (nestAll 0 (marks text) = some 0))

/-- Part of a row, with as many separators as said. -/
structure RowPart (separators : Nat) (text : Text) : Prop where
  ended : .plain '\\' ∉ marks text
  unbroken : .rowBreak ∉ marks text
  uncommented : .comment ∉ marks text
  separated : (marks text).count .separator = separators
  balanced : Balanced text

instance (separators : Nat) (text : Text) : Decidable (RowPart separators text) :=
  decidable_of_iff
    (.plain '\\' ∉ marks text ∧ .rowBreak ∉ marks text ∧ .comment ∉ marks text ∧
      (marks text).count .separator = separators ∧ Balanced text)
    ⟨fun ⟨ended, unbroken, uncommented, separated, balanced⟩ =>
        ⟨ended, unbroken, uncommented, separated, balanced⟩,
      fun part => ⟨part.ended, part.unbroken, part.uncommented, part.separated, part.balanced⟩⟩

section Marks

variable {first second text : Text} {c : Char}

theorem marks_cons (other : c ≠ '\\') (text : Text) : marks (c :: text) = .plain c :: marks text := by
  rw [marks]
  exact fun _ _ same => absurd same other

theorem marks_append (ended : .plain '\\' ∉ marks first) (second : Text) :
    marks (first ++ second) = marks first ++ marks second := by
  fun_induction marks first with
  | case1 c rest induction =>
      rw [List.cons_append, List.cons_append, marks,
        induction fun member => ended (List.mem_cons_of_mem _ member), List.cons_append]
  | case2 c rest single induction =>
      have other : c ≠ '\\' := by
        rintro rfl
        exact ended List.mem_cons_self
      rw [List.cons_append, marks_cons other,
        induction fun member => ended (List.mem_cons_of_mem _ member), List.cons_append]
  | case3 => rfl

theorem not_mem_marks_append {mark : Mark} (ended : .plain '\\' ∉ marks first)
    (left : mark ∉ marks first) (right : mark ∉ marks second) : mark ∉ marks (first ++ second) := by
  rw [marks_append ended, List.mem_append, not_or]
  exact ⟨left, right⟩

theorem infix_of_escaped (member : .escaped c ∈ marks text) : ['\\', c] <:+: text := by
  fun_induction marks text with
  | case1 next rest induction =>
      rcases List.mem_cons.1 member with same | later
      · cases same
        exact ⟨[], rest, rfl⟩
      · exact List.infix_cons (List.infix_cons (induction later))
  | case2 next rest single induction =>
      rcases List.mem_cons.1 member with same | later
      · exact nomatch same
      · exact List.infix_cons (induction later)
  | case3 => exact absurd member List.not_mem_nil

/-- A backslash takes the character behind it, unless a backslash has taken it. -/
theorem escaped_or_broken (inside : ['\\', c] <:+: text) :
    .escaped c ∈ marks text ∨ .rowBreak ∈ marks text := by
  fun_induction marks text with
  | case1 next rest induction =>
      rcases List.infix_cons_iff.1 inside with here | later
      · obtain ⟨_, here⟩ := List.cons_prefix_cons.1 here
        cases (List.cons_prefix_cons.1 here).1
        exact .inl List.mem_cons_self
      · rcases List.infix_cons_iff.1 later with here | later
        · cases (List.cons_prefix_cons.1 here).1
          exact .inr List.mem_cons_self
        · exact (induction later).imp (List.mem_cons_of_mem _) (List.mem_cons_of_mem _)
  | case2 next rest single induction =>
      rcases List.infix_cons_iff.1 inside with here | later
      · obtain ⟨same, tail, rfl⟩ := List.cons_prefix_cons.1 here
        exact absurd rfl (single _ _ same.symm)
      · exact (induction later).imp (List.mem_cons_of_mem _) (List.mem_cons_of_mem _)
  | case3 => exact absurd (List.infix_nil.1 inside) (List.cons_ne_nil _ _)

theorem rowBreak_mem_marks_iff : .rowBreak ∈ marks text ↔ ['\\', '\\'] <:+: text :=
  ⟨infix_of_escaped, fun inside => (escaped_or_broken inside).elim id id⟩

end Marks

section Groups

variable {first second text : Text}

theorem nestAll_append (depth : Nat) (read more : List Mark) :
    nestAll depth (read ++ more) = (nestAll depth read).bind fun depth => nestAll depth more :=
  List.foldlM_append

theorem nestAll_add {depth after : Nat} {read : List Mark} (nested : nestAll depth read = some after)
    (more : Nat) : nestAll (depth + more) read = some (after + more) := by
  induction read generalizing depth with
  | nil =>
      cases nested
      rfl
  | cons mark read induction =>
      obtain ⟨inner, here, later⟩ := Option.bind_eq_some_iff.1 nested
      exact Option.bind_eq_some_iff.2 ⟨inner + more, Mark.nest_add here more, induction later⟩

theorem Balanced.nestAll_eq (balanced : Balanced text) (depth : Nat) :
    nestAll depth (marks text) = some depth := by
  have added := nestAll_add balanced depth
  rw [Nat.zero_add] at added
  exact added

theorem Balanced.append (ended : .plain '\\' ∉ marks first) (left : Balanced first)
    (right : Balanced second) : Balanced (first ++ second) := by
  rw [Balanced, marks_append ended, nestAll_append, left.nestAll_eq, Option.bind_some]
  exact right

end Groups

namespace RowPart

variable {first second text : Text} {n m : Nat}

theorem append (left : RowPart n first) (right : RowPart m second) :
    RowPart (n + m) (first ++ second) := by
  constructor
  · exact not_mem_marks_append left.ended left.ended right.ended
  · exact not_mem_marks_append left.ended left.unbroken right.unbroken
  · exact not_mem_marks_append left.ended left.uncommented right.uncommented
  · rw [marks_append left.ended, List.count_append, left.separated, right.separated]
  · exact .append left.ended left.balanced right.balanced

theorem singleton {c : Char} (inactive : c ∉ ['\\', '%', '&', '\x7b', '\x7d']) :
    RowPart 0 [c] := by
  simp only [List.mem_cons, List.not_mem_nil, or_false, not_or] at inactive
  obtain ⟨backslash, percent, ampersand, opening, closing⟩ := inactive
  have read : marks [c] = [.plain c] := marks_cons backslash []
  constructor
  · rw [read]
    simpa using Ne.symm backslash
  · rw [read]
    simp [Mark.rowBreak]
  · rw [read]
    simpa [Mark.comment] using Ne.symm percent
  · rw [read, List.count_eq_zero]
    simpa [Mark.separator] using Ne.symm ampersand
  · rw [Balanced, read]
    simp [nestAll, Mark.nest, opening, closing]

/-- A part in braces is a part. -/
theorem group (part : RowPart n text) : RowPart n ('\x7b' :: (text ++ ['\x7d'])) := by
  have read : marks ('\x7b' :: (text ++ ['\x7d'])) =
      .plain '\x7b' :: (marks text ++ [.plain '\x7d']) := by
    rw [← show marks ['\x7d'] = [.plain '\x7d'] from rfl, ← marks_append part.ended]
    rfl
  constructor
  · rw [read]
    simpa using part.ended
  · rw [read]
    simpa [Mark.rowBreak] using part.unbroken
  · rw [read]
    simpa [Mark.comment] using part.uncommented
  · rw [read, List.count_cons_of_ne (by decide), List.count_append, part.separated]
    rfl
  · have opened : nestAll 1 (marks text ++ [.plain '\x7d']) = some 0 := by
      rw [nestAll_append, part.balanced.nestAll_eq]
      rfl
    rw [Balanced, read]
    exact opened

section Items

variable {Item : Type} {items : List Item} {shown : Item → Text}

theorem flatten (parts : ∀ item ∈ items, RowPart 0 (shown item)) :
    RowPart 0 (items.map shown).flatten := by
  induction items with
  | nil => exact show RowPart 0 [] by decide
  | cons item items induction =>
      obtain ⟨head, tail⟩ := List.forall_mem_cons.1 parts
      exact head.append (induction tail)

/-- Separators between parts are counted. -/
theorem join (part : RowPart 0 first) (parts : ∀ item ∈ items, RowPart 0 (shown item)) :
    RowPart items.length (Text.join " & " (first :: items.map shown)) := by
  induction items generalizing first with
  | nil =>
      rw [List.map_nil, Text.join, List.intercalate_singleton]
      exact part
  | cons item items induction =>
      obtain ⟨head, tail⟩ := List.forall_mem_cons.1 parts
      have separator : RowPart 1 " & ".toList := by decide
      have joined := (part.append separator).append (induction head tail)
      rw [List.map_cons, Text.join, List.intercalate_cons_cons, List.length_cons, Nat.add_comm]
      rw [Nat.zero_add] at joined
      exact joined

end Items

end RowPart

section Rows

variable {lines : List Text}

/-- Between parts the row breaks, and they alone, end rows. -/
theorem marks_intercalate (ended : ∀ line ∈ lines, .plain '\\' ∉ marks line) :
    marks ("\\\\".toList.intercalate lines) = [Mark.rowBreak].intercalate (lines.map marks) := by
  induction lines with
  | nil => rfl
  | cons line lines induction =>
      obtain ⟨head, tail⟩ := List.forall_mem_cons.1 ended
      cases lines with
      | nil => simp
      | cons next lines =>
          rw [List.intercalate_cons_cons, List.append_assoc, marks_append head, List.map_cons,
            List.map_cons, List.intercalate_cons_cons, List.append_assoc, ← List.map_cons,
            ← induction tail]
          rfl

theorem balanced_intercalate (ended : ∀ line ∈ lines, .plain '\\' ∉ marks line)
    (balanced : ∀ line ∈ lines, Balanced line) : Balanced ("\\\\".toList.intercalate lines) := by
  induction lines with
  | nil => decide
  | cons line lines induction =>
      obtain ⟨head, tail⟩ := List.forall_mem_cons.1 ended
      obtain ⟨headBalanced, tailBalanced⟩ := List.forall_mem_cons.1 balanced
      cases lines with
      | nil => simpa using headBalanced
      | cons next lines =>
          rw [List.intercalate_cons_cons, List.append_assoc]
          have broken : Balanced ("\\\\".toList ++ "\\\\".toList.intercalate (next :: lines)) :=
            .append (by decide) (by decide) (induction tail tailBalanced)
          exact .append head headBalanced broken

end Rows

namespace Escapes

variable {escape : Text → Text} (escapes : Escapes escape) {c : Char}
include escapes

/-- The form of a character depends on the next one only for a dash. -/
theorem cons_eq (c : Char) (text : Text) :
    escape (c :: text) =
      (if c = '-' ∧ text.head? = some '-' then "-\x7b\x7d".toList else escape [c]) ++ escape text := by
  split
  · next dashes =>
      rcases dashes with ⟨same, next⟩
      rcases List.head?_eq_some_iff.1 next with ⟨rest, split⟩
      rw [same, split]
      exact escapes.dashes rest
  · next single =>
      by_cases dash : c = '-'
      · subst dash
        rw [escapes.dash text fun next => single ⟨rfl, next⟩, escapes.dash [] (by decide), escapes.nil]
        rfl
      · exact escapes.cons text dash

/-- What holds of the forms of all characters, and of texts put together from such, holds of the forms of
all texts. A dash before another one is a character with an empty group behind it. -/
theorem induction {motive : Text → Prop} (text : Text) (nil : motive [])
    (active : ∀ entry ∈ activeForms, motive entry.2)
    (other : ∀ c ∉ activeForms.map Prod.fst, motive [c] ∧ motive ([c] ++ "\x7b\x7d".toList))
    (append : ∀ first second, motive first → motive second → motive (first ++ second)) :
    motive (escape text) := by
  have char : ∀ c, motive (escape [c]) := by
    intro c
    by_cases member : c ∈ activeForms.map Prod.fst
    · rcases List.mem_map.1 member with ⟨entry, listed, same⟩
      rw [← same, escapes.active listed]
      exact active entry listed
    · rcases escapes.other member with plain | grouped
      · rw [plain]
        exact (other c member).1
      · rw [grouped]
        exact (other c member).2
  induction text with
  | nil =>
      rw [escapes.nil]
      exact nil
  | cons c text later =>
      rw [escapes.cons_eq]
      refine append _ _ ?_ later
      split
      · exact (other '-' (by decide)).2
      · exact char c

theorem rowPart (text : Text) : RowPart 0 (escape text) := by
  apply escapes.induction (motive := RowPart 0)
  · decide
  · decide
  · intro c inactive
    have special : ['\\', '%', '&', '\x7b', '\x7d'] ⊆ activeForms.map Prod.fst := by decide
    have plain : RowPart 0 [c] := .singleton fun member => inactive (special member)
    exact ⟨plain, plain.append (show RowPart 0 "\x7b\x7d".toList by decide)⟩
  · exact fun _ _ => RowPart.append

/-- No command of an escaped text has a name that begins with `r`. -/
theorem command_not_mem_marks (text : Text) : .escaped 'r' ∉ marks (escape text) := by
  have both : .plain '\\' ∉ marks (escape text) ∧ .escaped 'r' ∉ marks (escape text) := by
    apply escapes.induction (motive := fun text => .plain '\\' ∉ marks text ∧ .escaped 'r' ∉ marks text)
    · decide
    · decide
    · intro c inactive
      have plain : c ≠ '\\' := by
        rintro rfl
        exact inactive (by decide)
      rw [List.singleton_append, marks_cons plain, marks_cons plain]
      simpa [marks] using Ne.symm plain
    · intro first second left right
      exact ⟨not_mem_marks_append left.1 left.1 right.1, not_mem_marks_append left.1 left.2 right.2⟩
  exact both.2

/-- No arrow is left to be replaced. -/
theorem greater_not_mem (text : Text) : '>' ∉ escape text := by
  apply escapes.induction (motive := fun text => '>' ∉ text)
  · decide
  · decide
  · intro c inactive
    have other : '>' ≠ c := by
      rintro rfl
      exact inactive (by decide)
    simpa using other
  · intro first second left right
    rw [List.mem_append, not_or]
    exact ⟨left, right⟩

/-- A character other than a dash begins anew. -/
theorem append_cons (text : Text) (other : c ≠ '-') (rest : Text) :
    escape (text ++ c :: rest) = escape text ++ escape (c :: rest) := by
  induction text with
  | nil =>
      rw [escapes.nil]
      rfl
  | cons first text later =>
      rw [List.cons_append, escapes.cons_eq, later, escapes.cons_eq first text, List.append_assoc]
      cases text with
      | nil => simp [other]
      | cons second text => rfl

/-- The head of an arrow becomes a command. -/
theorem arrow (text : Text) :
    escape (" -> ".toList ++ text) = " -\\textgreater\x7b\x7d ".toList ++ escape text := by
  have head : escape ['>'] = "\\textgreater\x7b\x7d".toList := escapes.active (by decide)
  calc escape (' ' :: '-' :: '>' :: ' ' :: text)
    _ = escape [' '] ++ escape ('-' :: '>' :: ' ' :: text) := escapes.cons _ (by decide)
    _ = ' ' :: '-' :: escape ('>' :: ' ' :: text) := by
        rw [escapes.blank, escapes.dash _ (by simp)]
        rfl
    _ = ' ' :: '-' :: (escape ['>'] ++ (escape [' '] ++ escape text)) := by
        rw [escapes.cons _ (by decide), escapes.cons text (by decide)]
    _ = " -\\textgreater\x7b\x7d ".toList ++ escape text := by
        rw [escapes.blank, head]
        rfl

end Escapes

end StrongLL.Latex
