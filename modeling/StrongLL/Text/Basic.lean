/-!
# Texts

A text is the list of its characters. This module holds the operations that reading and rendering
share: cutting a text at a character or at the first place where a pattern stands, replacing a
pattern everywhere, and writing a number or a truth value.
-/

namespace StrongLL

set_option autoImplicit false

/-- A text, character by character. -/
abbrev Text := List Char

namespace Text

def string (text : Text) : String := String.ofList text

/-- The decimal digits of a number, without leading zeros. -/
def ofNat (n : Nat) : Text := Nat.toDigits 10 n

def ofBool (b : Bool) : Text := if b then "true".toList else "false".toList

/-- The pieces of a text between the occurrences of `mark`: always one more than there are marks. -/
def pieces (mark : Char) : Text → List Text
  | [] => [[]]
  | c :: rest =>
    if c = mark then [] :: pieces mark rest
    else
      match pieces mark rest with
      | [] => [[c]]
      | first :: more => (c :: first) :: more

/-- What stands before and after the first occurrence of `pattern`. -/
def cutAt? (pattern : Text) : Text → Option (Text × Text)
  | [] => none
  | c :: rest =>
    if pattern.isPrefixOf (c :: rest) then some ([], (c :: rest).drop pattern.length)
    else (cutAt? pattern rest).map fun (before, after) => (c :: before, after)

/-- Replaces occurrences of `pattern` from left to right, after passing over `skip` characters. -/
def replaceFrom (pattern replacement : Text) : Nat → Text → Text
  | _, [] => []
  | skip + 1, _ :: rest => replaceFrom pattern replacement skip rest
  | 0, c :: rest =>
    if pattern.isPrefixOf (c :: rest) then
      replacement ++ replaceFrom pattern replacement (pattern.length - 1) rest
    else c :: replaceFrom pattern replacement 0 rest

/-- Replaces every occurrence of a non-empty pattern; occurrences are found from left to right and
do not overlap. -/
def replaceAll (pattern replacement text : Text) : Text := replaceFrom pattern replacement 0 text

/-- The text holds `pattern` somewhere. -/
def holds (pattern text : Text) : Bool := (cutAt? pattern text).isSome

theorem pieces_ne_nil (mark : Char) (text : Text) : pieces mark text ≠ [] := by
  cases text with
  | nil => simp [pieces]
  | cons c rest =>
    simp only [pieces]
    split
    · simp
    · split <;> simp

theorem pieces_of_not_mem (mark : Char) (text : Text) (absent : mark ∉ text) :
    pieces mark text = [text] := by
  induction text with
  | nil => rfl
  | cons c rest induction =>
    have head : c ≠ mark := fun same => absent (same ▸ List.mem_cons_self)
    have tail := induction fun member => absent (List.mem_cons_of_mem c member)
    simp [pieces, head, tail]

/-- Putting the marks back between the pieces gives the text again. -/
theorem intercalate_pieces (mark : Char) (text : Text) :
    [mark].intercalate (pieces mark text) = text := by
  induction text with
  | nil => rfl
  | cons c rest induction =>
    simp only [pieces]
    split
    · next same =>
      rcases found : pieces mark rest with _ | ⟨first, more⟩
      · exact absurd found (pieces_ne_nil mark rest)
      · rw [found] at induction
        subst same
        simpa [List.intercalate] using induction
    · rcases found : pieces mark rest with _ | ⟨first, more⟩
      · exact absurd found (pieces_ne_nil mark rest)
      · rw [found] at induction
        cases more <;> simp_all [List.intercalate]

end Text

end StrongLL
