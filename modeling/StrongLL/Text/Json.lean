import StrongLL.Json

/-!
# Compact JSON

Values are written without spaces. Strings escape the quote, the backslash and the characters below
U+0020, the usual five of them by a letter and the others by four lowercase hexadecimal digits; every
other character stands for itself.
-/

namespace StrongLL.Json

set_option autoImplicit false

/-- The form of a character inside a string. -/
def escapeChar (c : Char) : Text :=
  if c = '"' then "\\\"".toList
  else if c = '\\' then "\\\\".toList
  else if c = '\x08' then "\\b".toList
  else if c = '\x0c' then "\\f".toList
  else if c = '\n' then "\\n".toList
  else if c = '\r' then "\\r".toList
  else if c = '\t' then "\\t".toList
  else if c.toNat < 0x20 then
    "\\u00".toList ++ [Nat.digitChar (c.toNat / 16), Nat.digitChar (c.toNat % 16)]
  else [c]

def quoted (text : Text) : Text := '"' :: text.flatMap escapeChar ++ ['"']

mutual

/-- The text of a value. -/
def compact : Json → Text
  | null => "null".toList
  | boolean value => Text.ofBool value
  | number value => Text.ofNat value
  | string text => quoted text
  | array values => '[' :: [','].intercalate (compactValues values) ++ [']']
  | object fields => '\x7b' :: [','].intercalate (compactFields fields) ++ ['\x7d']

def compactValues : List Json → List Text
  | [] => []
  | value :: values => compact value :: compactValues values

def compactFields : List (String × Json) → List Text
  | [] => []
  | (name, value) :: fields => (quoted name.toList ++ ':' :: compact value) :: compactFields fields

end

end StrongLL.Json
