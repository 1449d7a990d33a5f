import Parley.Text.Basic

/-!
# JSON values

Numbers are integers or not: a number that is written with a fraction, with an exponent, or as `-0`
is kept by its spelling. A string denotes a text unless one of its escapes is half of a surrogate
pair; such a string is well formed but denotes nothing. The members of an object keep their order,
and a name may occur more than once.
-/

namespace Parley

/-- A JSON value. -/
inductive Json where
  | null
  | bool (b : Bool)
  | integer (n : Int)
  /-- Any other number, as it is spelled. -/
  | real (spelling : Text)
  /-- A string; `none` if it denotes no text. -/
  | string (text : Option Text)
  | array (items : List Json)
  | object (members : List (Option Text × Json))
deriving Repr, Inhabited

end Parley
