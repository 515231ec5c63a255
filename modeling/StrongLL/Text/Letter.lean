import StrongLL.Text.Letter.Runs

/-!
# Letters

The derived properties Uppercase, Lowercase and Alphabetic of a character. Below U+0080 they are the
letters `A` to `Z` and `a` to `z`; above, the runs of `StrongLL.Text.Letter.Runs` decide. A
character may be alphabetic without being uppercase or lowercase.
-/

namespace StrongLL

set_option autoImplicit false

/-- Looks a character up in `runs`, unless it is below U+0080, where `basic` decides. -/
def inRuns (basic : Char → Bool) (runs : List CharRun) (c : Char) : Bool :=
  if c.toNat < 0x80 then basic c else runs.any (·.contains c.toNat)

/-- The character has the property Uppercase. -/
def isUppercase (c : Char) : Bool := inRuns Char.isUpper Letter.uppercaseRuns c

/-- The character has the property Lowercase. -/
def isLowercase (c : Char) : Bool := inRuns Char.isLower Letter.lowercaseRuns c

/-- The character has the property Alphabetic. -/
def isAlphabetic (c : Char) : Bool := inRuns Char.isAlpha Letter.alphabeticRuns c

theorem isUppercase_basic (c : Char) (basic : c.toNat < 0x80) : isUppercase c = c.isUpper := by
  simp [isUppercase, inRuns, basic]

theorem isLowercase_basic (c : Char) (basic : c.toNat < 0x80) : isLowercase c = c.isLower := by
  simp [isLowercase, inRuns, basic]

theorem isAlphabetic_basic (c : Char) (basic : c.toNat < 0x80) : isAlphabetic c = c.isAlpha := by
  simp [isAlphabetic, inRuns, basic]

end StrongLL
