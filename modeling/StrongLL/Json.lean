import StrongLL.Text.Basic

/-!
# JSON values

What is reported as JSON is a value first. How a value is written as text is left to who writes it.
Fields keep the order in which they are given.
-/

namespace StrongLL

set_option autoImplicit false

/-- A value. Numbers have no sign and no fraction. -/
inductive Json where
  | null
  | boolean (value : Bool)
  | number (value : Nat)
  | string (text : Text)
  | array (values : List Json)
  | object (fields : List (String × Json))

namespace Json

/-- What there may be, or null. -/
def optional {Item : Type} (value : Item → Json) (item : Option Item) : Json :=
  item.elim null value

def strings (texts : List Text) : Json := array (texts.map string)

end Json

end StrongLL
