import Reckoner.Entries

/-!
# JSON values

Integers of any size and doubles are kept apart, and so are the three doubles without a decimal
text. Objects keep the order of their members.
-/

namespace Reckoner

/-- A JSON value. -/
inductive Json where
  | null
  | bool (value : Bool)
  | integer (value : Int)
  | double (value : Float)
  | text (value : String)
  | array (items : List Json)
  | object (members : List (String × Json))

namespace Json

instance : Inhabited Json := ⟨null⟩

/-- A value counts as true unless it is null, false, zero or empty. -/
def isTrue : Json → Bool
  | null => false
  | bool value => value
  | integer value => value != 0
  | double value => value != 0
  | text value => !value.isEmpty
  | array items => !items.isEmpty
  | object members => !members.isEmpty

end Json

end Reckoner
