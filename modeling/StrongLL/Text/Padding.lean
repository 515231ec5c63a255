import StrongLL.Text.Basic

/-!
# Padding

Columns are padded with spaces by the number of characters, while the width of a column is measured
in UTF-8 bytes: a column with characters above U+007F comes out wider than its longest text.
-/

namespace StrongLL.Text

set_option autoImplicit false

/-- The number of bytes of the UTF-8 encoding. -/
def utf8Width (text : Text) : Nat := text.foldr (fun c width => c.utf8Size + width) 0

/-- The greatest byte width of the texts, zero when there is none. -/
def columnWidth (texts : List Text) : Nat := (texts.map utf8Width).foldl max 0

/-- The spaces that bring a text to `width` characters. -/
def filler (width : Nat) (text : Text) : Text := List.replicate (width - text.length) ' '

/-- Puts the spaces first, so that the text ends where the column ends. -/
def alignRight (width : Nat) (text : Text) : Text := filler width text ++ text

/-- Puts the spaces last, so that the text begins where the column begins. -/
def alignLeft (width : Nat) (text : Text) : Text := text ++ filler width text

theorem length_alignRight (width : Nat) (text : Text) :
    (alignRight width text).length = max width text.length := by
  simp [alignRight, filler]
  omega

theorem length_alignLeft (width : Nat) (text : Text) :
    (alignLeft width text).length = max width text.length := by
  simp [alignLeft, filler]
  omega

end StrongLL.Text
