import Parley.Json.Reader
import Parley.Json.Writer
import Parley.Vocabulary
import Parley.Agent

/-!
# Wire format

Values travel as JSON. A number must be an integer in range; a word of a vocabulary is its name, or
an object whose only member has that name and the value null.

A record is an object that has every field exactly once, in any order, among members of other names,
which are ignored. It may also be the list of its fields in their order.
-/

namespace Parley

/-- A type whose values travel as JSON. -/
class Wire (α : Type) where
  toJson : α → Json
  ofJson? : Json → Option α

namespace Wire

variable {α : Type} [Wire α]

/-- The compact JSON text of a value. -/
def encode (a : α) : Text :=
  (toJson a).compact

/-- The value of a JSON text, if the text has one of this type. -/
def decode? (t : Text) : Option α := do
  ofJson? (← Json.ofText? t)

/-- The member of a record for one of its fields. -/
def member (name : String) (a : α) : Option Text × Json :=
  (some name.toList, toJson a)

end Wire

namespace Json

/-- The value of the only member of this name; `none` if there is none, or more than one. -/
def soleMember? (members : List (Option Text × Json)) (name : String) : Option Json :=
  match members.filter fun m => m.1 == some name.toList with
  | [(_, value)] => some value
  | _ => none

/-- The values of the fields of a record, in the order of the names given. -/
def fields? (names : List String) : Json → Option (List Json)
  | array items => if items.length = names.length then some items else none
  | object members =>
    if members.all fun m => m.1.isSome then names.mapM (soleMember? members) else none
  | _ => none

end Json

instance : Wire Int32 where
  toJson n := .integer n.toInt
  ofJson?
    | .integer n => int32? n
    | _ => none

instance : Wire Int64 where
  toJson n := .integer n.toInt
  ofJson?
    | .integer n => int64? n
    | _ => none

instance : Wire Text where
  toJson t := .string (some t)
  ofJson?
    | .string t => t
    | _ => none

instance : Wire Agent where
  toJson a := .integer a.index.toNat
  ofJson?
    | .integer n => Agent.ofInt? n
    | _ => none

instance {α : Type} [Vocabulary α] : Wire α where
  toJson a := .string (some (Vocabulary.spell a))
  ofJson?
    | .string (some t) => Vocabulary.ofName? t
    | .object [(some t, .null)] => Vocabulary.ofName? t
    | _ => none

end Parley
