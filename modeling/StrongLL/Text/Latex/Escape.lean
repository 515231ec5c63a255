import StrongLL.Text.Latex

/-!
# An escape for LaTeX

The escape with which the program runs. It follows the table. Of the characters that are not active, an
exclamation mark gets an empty group behind it, and every other one stands for itself.
-/

namespace StrongLL.Latex

set_option autoImplicit false

/-- The form of a character, a dash that another dash follows aside. -/
def escapeChar (c : Char) : Text :=
  if c = '!' then "!\x7b\x7d".toList else (activeForms.lookup c).getD [c]

/-- The LaTeX form of a text. -/
def escape : Text → Text
  | [] => []
  | '-' :: '-' :: rest => "-\x7b\x7d".toList ++ escape ('-' :: rest)
  | c :: rest => escapeChar c ++ escape rest

theorem escape_cons {c : Char} {text : Text} (single : c = '-' → text.head? ≠ some '-') :
    escape (c :: text) = escapeChar c ++ escape text := by
  rw [escape]
  rintro rest rfl rfl
  exact single rfl rfl

theorem escape_singleton (c : Char) : escape [c] = escapeChar c := by
  rw [escape_cons fun _ => by decide, escape, List.append_nil]

theorem escapes_escape : Escapes escape where
  nil := rfl
  cons text other := by
    rw [escape_singleton, escape_cons fun dash => absurd dash other]
  dash text single := escape_cons fun _ => single
  dashes _ := rfl
  active := by
    intro c form member
    have rows : ∀ row ∈ activeForms, escapeChar row.1 = row.2 := by decide
    exact (escape_singleton c).trans (rows _ member)
  blank := rfl
  other := by
    intro c inactive
    rw [escape_singleton, escapeChar]
    split
    · next mark => exact .inr (mark ▸ rfl)
    · refine .inl ?_
      rw [List.lookup_eq_none_iff.2, Option.getD_none]
      intro row member
      rw [bne_iff_ne]
      rintro rfl
      exact inactive (List.mem_map_of_mem member)

end StrongLL.Latex
