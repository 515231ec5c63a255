import StrongLL.Symbol.Basic

/-!
# Spellings of symbols

What is read from a spelling is a symbol with that spelling, so no two spellings are read as one
symbol. One character that is no blank is read as a nonterminal when it is uppercase and as a terminal
when it is not, and it is a symbol exactly if one of the two kinds allows it.
-/

namespace StrongLL

set_option autoImplicit false

theorem NonTerminal.text_injective : Function.Injective NonTerminal.text :=
  fun _ _ same => NonTerminal.ext (String.toList_injective same)

theorem NonTerminal.text_ne_nil (n : NonTerminal) : n.text ≠ [] := by
  intro empty
  have name := n.isName_text
  rw [empty] at name
  exact Bool.false_ne_true name

theorem NonTerminal.unblank (n : NonTerminal) : ∀ c ∈ n.text, isBlank c = false := by
  have name := n.isName_text
  rw [isName, Bool.and_eq_true, Bool.not_eq_true', List.any_eq_false] at name
  exact fun c occurs => Bool.eq_false_iff.2 (name.2 c occurs)

theorem NonTerminal.read_eq_ok_iff {spelling : Text} {n : NonTerminal} :
    NonTerminal.read spelling = .ok n ↔ n.text = spelling := by
  unfold NonTerminal.read
  split
  · next valid =>
      rw [Except.ok.injEq, ← text_injective.eq_iff, text_ofText]
      exact eq_comm
  · next invalid =>
      refine ⟨nofun, ?_⟩
      rintro rfl
      exact absurd n.isName_text invalid

theorem NonTerminal.fault_of_read {spelling : Text} {cause : NameError}
    (failed : NonTerminal.read spelling = .error cause) : cause = .notNonTerminal spelling := by
  unfold NonTerminal.read at failed
  split at failed
  · exact nomatch failed
  · exact (Except.error.inj failed).symm

/-- The character is a symbol of a right side: a terminal, or the name of a nonterminal. -/
def Symbol.IsSpelling (c : Char) : Prop :=
  Terminal.isSpelling c = true ∨ NonTerminal.isName [c] = true

theorem NonTerminal.isName_singleton {c : Char} (plain : isBlank c = false) :
    isName [c] = isUppercase c := by
  simp [isName, plain]

/-- How one character is read: as a nonterminal when it is uppercase, and as a terminal otherwise. -/
theorem Symbol.read_singleton {c : Char} (plain : isBlank c = false) :
    Symbol.read [c] =
      if upper : isUppercase c = true then
        .ok (.nonterminal (.ofText [c] ((NonTerminal.isName_singleton plain).trans upper)))
      else if Terminal.isSpelling c = true then .ok (.terminal (.char c))
      else .error (.notTerminal [c]) := by
  have other : [c] ≠ Terminal.epsilonText := by simp [Terminal.epsilonText]
  unfold Symbol.read NonTerminal.read Terminal.read
  rw [if_neg other]
  by_cases upper : isUppercase c = true
  · have name : NonTerminal.isName [c] = true := (NonTerminal.isName_singleton plain).trans upper
    simp [upper, name, Except.map]
  · by_cases terminal : Terminal.isSpelling c = true
    · simp [upper, terminal, Except.map]
    · simp [upper, terminal, Except.map]

theorem Symbol.exists_read_singleton_iff {c : Char} (plain : isBlank c = false) :
    (∃ s, Symbol.read [c] = .ok s) ↔ IsSpelling c := by
  have name := NonTerminal.isName_singleton plain
  rw [read_singleton plain, IsSpelling]
  by_cases upper : isUppercase c = true
  · simp [upper, name]
  · by_cases terminal : Terminal.isSpelling c = true
    · simp [upper, terminal]
    · simp [upper, terminal, name]

theorem Symbol.fault_of_read_singleton {c : Char} (plain : isBlank c = false) {cause : NameError}
    (failed : Symbol.read [c] = .error cause) : cause = .notTerminal [c] := by
  rw [read_singleton plain] at failed
  split at failed
  · exact nomatch failed
  · split at failed
    · exact nomatch failed
    · exact (Except.error.inj failed).symm

theorem Terminal.text_of_read {spelling : Text} {t : Terminal} (read : Terminal.read spelling = .ok t) :
    t.text = spelling := by
  unfold Terminal.read at read
  split at read
  · next same =>
      cases read
      exact same.symm
  · split at read
    · split at read
      · cases read
        rfl
      · exact nomatch read
    · exact nomatch read

/-- What is read from a spelling is spelled that way. -/
theorem Symbol.text_of_read {spelling : Text} {s : Symbol} (read : Symbol.read spelling = .ok s) :
    s.text = spelling := by
  unfold Symbol.read at read
  split at read
  · cases found : NonTerminal.read spelling with
    | error cause =>
        rw [found] at read
        exact nomatch read
    | ok n =>
        rw [found] at read
        cases read
        exact NonTerminal.read_eq_ok_iff.1 found
  · cases found : Terminal.read spelling with
    | error cause =>
        rw [found] at read
        exact nomatch read
    | ok t =>
        rw [found] at read
        cases read
        exact Terminal.text_of_read found

end StrongLL
