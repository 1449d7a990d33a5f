import Parley.Json.Basic
import Parley.Text.Decimal

/-!
# Reading JSON

The reader is strict: only gaps may surround a token, no comma may be left over, control characters
must be escaped, and a whole text holds one value. Nesting is not limited.

A string is read in two steps. The first splits it into pieces, which are characters and sixteen-bit
escapes; the second joins escapes that form a surrogate pair.
-/

namespace Parley.Json

/-! ### Strings -/

/-- A piece of a string: a character, or an escape that gives a sixteen-bit unit. -/
inductive Piece where
  | char (c : Char)
  | unit (u : Nat)
deriving DecidableEq, Repr

/-- The value of a hexadecimal digit of either case. -/
def hexDigit? (c : Char) : Option Nat :=
  if '0' ≤ c ∧ c ≤ '9' then some (c.toNat - '0'.toNat)
  else if 'a' ≤ c ∧ c ≤ 'f' then some (c.toNat - 'a'.toNat + 10)
  else if 'A' ≤ c ∧ c ≤ 'F' then some (c.toNat - 'A'.toNat + 10)
  else none

/-- The value of four hexadecimal digits. -/
def unit? (a b c d : Char) : Option Nat := do
  return (((← hexDigit? a) * 16 + (← hexDigit? b)) * 16 + (← hexDigit? c)) * 16 + (← hexDigit? d)

/-- The character that a backslash and a letter stand for. -/
def unescape? : Char → Option Char
  | '"' => some '"'
  | '\\' => some '\\'
  | '/' => some '/'
  | 'b' => some '\x08'
  | 'f' => some '\x0c'
  | 'n' => some '\n'
  | 'r' => some '\r'
  | 't' => some '\t'
  | _ => none

/-- The pieces of a string up to its closing quote. -/
def readPieces : Reader (List Piece)
  | [] => none
  | '"' :: t => some ([], t)
  | '\\' :: 'u' :: a :: b :: c :: d :: t => do
    let u ← unit? a b c d
    let (pieces, t) ← readPieces t
    return (.unit u :: pieces, t)
  | '\\' :: letter :: t => do
    let c ← unescape? letter
    let (pieces, t) ← readPieces t
    return (.char c :: pieces, t)
  | c :: t =>
    if c.toNat < 0x20 then none else do
      let (pieces, t) ← readPieces t
      return (.char c :: pieces, t)

/-- Whether a unit is the first half of a surrogate pair. -/
def isHighHalf (u : Nat) : Bool :=
  0xD800 ≤ u && u < 0xDC00

/-- Whether a unit is the second half of a surrogate pair. -/
def isLowHalf (u : Nat) : Bool :=
  0xDC00 ≤ u && u < 0xE000

/-- The text that pieces denote; `none` if half of a pair stands alone. -/
def joinPieces? : List Piece → Option Text
  | [] => some []
  | .char c :: rest => (joinPieces? rest).map (c :: ·)
  | .unit u :: .unit v :: rest =>
    -- both halves of a pair make one character
    if isHighHalf u then
      if isLowHalf v then
        (joinPieces? rest).map (Char.ofNat (0x10000 + (u - 0xD800) * 0x400 + (v - 0xDC00)) :: ·)
      else none
    else if isLowHalf u then none
    else (joinPieces? (.unit v :: rest)).map (Char.ofNat u :: ·)
  | .unit u :: rest =>
    if isHighHalf u || isLowHalf u then none else (joinPieces? rest).map (Char.ofNat u :: ·)

/-- Reads a string from its opening quote on. -/
def readString : Reader (Option Text) := fun t => do
  let (pieces, t) ← readPieces (← Text.after ['"'] t)
  return (joinPieces? pieces, t)

/-! ### Numbers -/

/-- Reads the digits before the point: a zero stands alone. -/
def readWhole : Reader Text := fun t => do
  let (digits, t) ← Text.digits t
  -- no zeros may stand in front
  if digits.head? = some '0' ∧ digits ≠ ['0'] then none else some (digits, t)

/-- Reads a point and digits, if there is a point. -/
def readFraction : Reader Text
  | '.' :: t => do
    let (digits, t) ← Text.digits t
    return ('.' :: digits, t)
  | t => some ([], t)

/-- Reads digits with an optional sign before them. -/
def readSignedDigits : Reader Text
  | '+' :: t => do
    let (digits, t) ← Text.digits t
    return ('+' :: digits, t)
  | '-' :: t => do
    let (digits, t) ← Text.digits t
    return ('-' :: digits, t)
  | t => Text.digits t

/-- Reads an exponent, if there is one. -/
def readExponent : Reader Text
  | [] => some ([], [])
  | c :: t =>
    if c = 'e' ∨ c = 'E' then do
      let (digits, t) ← readSignedDigits t
      return (c :: digits, t)
    else some ([], c :: t)

/-- The number of this spelling. A zero with a minus sign is no integer. -/
def number (negative : Bool) (whole fraction exponent : Text) : Json :=
  let magnitude := Nat.ofDigitChars 10 whole 0
  -- a fraction or an exponent makes a number no integer, even if its value is one
  if fraction = [] ∧ exponent = [] ∧ ¬ (negative ∧ magnitude = 0) then
    integer (if negative then -magnitude else magnitude)
  else
    real ((if negative then ['-'] else []) ++ whole ++ fraction ++ exponent)

/-- Reads a number after its sign. -/
def readUnsigned (negative : Bool) : Reader Json := fun t => do
  let (whole, t) ← readWhole t
  let (fraction, t) ← readFraction t
  let (exponent, t) ← readExponent t
  return (number negative whole fraction exponent, t)

/-- Reads a number. -/
def readNumber : Reader Json
  | '-' :: t => readUnsigned true t
  | t => readUnsigned false t

/-! ### Values -/

/-- Reads a value that has no parts. -/
def readScalar : Reader Json := fun t =>
  match t with
  | '"' :: _ => (readString t).map fun (s, t) => (string s, t)
  | 'n' :: _ => (Text.after "null".toList t).map (null, ·)
  | 't' :: _ => (Text.after "true".toList t).map (bool true, ·)
  | 'f' :: _ => (Text.after "false".toList t).map (bool false, ·)
  | _ => readNumber t

/-- Reads the name of a member and the colon after it. -/
def readName : Reader (Option Text) := fun t => do
  let (name, t) ← readString (Text.skipGap t)
  return (name, ← Text.after [':'] (Text.skipGap t))

mutual

/-- Reads a value, which may be nested less deeply than `fuel`. -/
def readValue : (fuel : Nat) → Reader Json
  | 0, _ => none
  | fuel + 1, t =>
    match Text.skipGap t with
    | '[' :: t =>
      match Text.skipGap t with
      | ']' :: t => some (array [], t)
      | t => (readItems fuel t).map fun (items, t) => (array items, t)
    | '{' :: t =>
      match Text.skipGap t with
      | '}' :: t => some (object [], t)
      | t => (readMembers fuel t).map fun (members, t) => (object members, t)
    | t => readScalar t

/-- Reads the items of an array up to its closing bracket. -/
def readItems : (fuel : Nat) → Reader (List Json)
  | 0, _ => none
  | fuel + 1, t => do
    let (item, t) ← readValue fuel t
    match Text.skipGap t with
    | ',' :: t =>
      -- behind a comma there is another item
      let (items, t) ← readItems fuel t
      return (item :: items, t)
    | ']' :: t => return ([item], t)
    | _ => none

/-- Reads the members of an object up to its closing bracket. -/
def readMembers : (fuel : Nat) → Reader (List (Option Text × Json))
  | 0, _ => none
  | fuel + 1, t => do
    let (name, t) ← readName t
    let (value, t) ← readValue fuel t
    match Text.skipGap t with
    | ',' :: t =>
      let (members, t) ← readMembers fuel t
      return ((name, value) :: members, t)
    | '}' :: t => return ([(name, value)], t)
    | _ => none

end

/-- The value of a whole text. Every two units of fuel pay for at least one character, so twice the
length of the text is enough. -/
def ofText? (t : Text) : Option Json := do
  let (value, rest) ← readValue (2 * t.length + 1) t
  if (Text.skipGap rest).isEmpty then some value else none

end Parley.Json
