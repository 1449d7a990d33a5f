import Parley.Json.Basic
import Parley.Text.Decimal

/-!
# Writing JSON

A value has a compact text without any space and a pretty text with one member or item on a line.
In strings the quote, the backslash and the control characters are escaped, and nothing else is.
-/

namespace Parley.Json

/-- How a character is written in a string. -/
def escape (c : Char) : Text :=
  if c = '"' then ['\\', '"']
  else if c = '\\' then ['\\', '\\']
  else if c = '\x08' then ['\\', 'b']
  else if c = '\x0c' then ['\\', 'f']
  else if c = '\n' then ['\\', 'n']
  else if c = '\r' then ['\\', 'r']
  else if c = '\t' then ['\\', 't']
  -- two hexadecimal digits are enough for the other control characters
  else if c.toNat < 0x20 then
    ['\\', 'u', '0', '0', (c.toNat / 16).digitChar, (c.toNat % 16).digitChar]
  else [c]

/-- A string, between quotes. One that denotes no text is written as a lone half of a pair. -/
def quote : Option Text → Text
  | some t => '"' :: t.flatMap escape ++ ['"']
  | none => "\"\\ud800\"".toList

/-- A value that has no parts. -/
def scalar : Json → Text
  | null => "null".toList
  | bool true => "true".toList
  | bool false => "false".toList
  | integer n => Text.ofInt n
  | real spelling => spelling
  | string t => quote t
  | array _ | object _ => []

mutual

/-- The text of a value without spaces. -/
def compact : Json → Text
  | array items => '[' :: [','].intercalate (compactItems items) ++ [']']
  | object members => '{' :: [','].intercalate (compactMembers members) ++ ['}']
  | value => scalar value

/-- The compact texts of the items of an array. -/
def compactItems : List Json → List Text
  | [] => []
  | item :: rest => compact item :: compactItems rest

/-- The compact texts of the members of an object, each with its name. -/
def compactMembers : List (Option Text × Json) → List Text
  | [] => []
  | (name, value) :: rest => (quote name ++ ':' :: compact value) :: compactMembers rest

end

/-- A line break and the indentation of a level: two spaces each. -/
def newline (level : Nat) : Text :=
  '\n' :: List.replicate (2 * level) ' '

/-- Parts between brackets, each on a line of its own one level deeper than the closing bracket. -/
def block (opening closing : Char) (level : Nat) : List Text → Text
  -- empty brackets stay on one line
  | [] => [opening, closing]
  | parts =>
    opening :: [','].intercalate (parts.map (newline (level + 1) ++ ·)) ++ newline level ++
      [closing]

mutual

/-- The text of a value at an indentation level, one part on a line. -/
def prettyAt (level : Nat) : Json → Text
  | array items => block '[' ']' level (prettyItems (level + 1) items)
  | object members => block '{' '}' level (prettyMembers (level + 1) members)
  | value => scalar value

/-- The texts of the items of an array at an indentation level. -/
def prettyItems (level : Nat) : List Json → List Text
  | [] => []
  | item :: rest => prettyAt level item :: prettyItems level rest

/-- The texts of the members of an object at an indentation level, each with its name. -/
def prettyMembers (level : Nat) : List (Option Text × Json) → List Text
  | [] => []
  | (name, value) :: rest =>
    (quote name ++ ':' :: ' ' :: prettyAt level value) :: prettyMembers level rest

end

/-- The text of a value with one part on a line. -/
def pretty (value : Json) : Text :=
  prettyAt 0 value

end Parley.Json
