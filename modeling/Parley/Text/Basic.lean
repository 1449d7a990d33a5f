/-!
# Texts

Chat reaches the library as a list of characters, because every reader below consumes it from the
front and every printer builds it from the front.

Two classes of blank are kept apart. *Blanks* are the characters of Unicode's `White_Space`
property; they may surround a statement. *Gaps* are the four characters that may stand between two
tokens of a statement, or between two tokens of a JSON document.

* `after_eq_some_iff`  `after w t = some r ↔ t = w ++ r`
-/

namespace Parley

/-- A text, character by character. -/
abbrev Text := List Char

/-- Reads a value off the front of a text and returns it with the text that follows, or `none` when
the text does not begin with such a value. -/
abbrev Reader (α : Type) := Text → Option (α × Text)

namespace Text

/-- The characters of Unicode's `White_Space` property. -/
def isBlank (c : Char) : Bool :=
  let n := c.toNat
  (0x9 ≤ n && n ≤ 0xD) || n == 0x20 || n == 0x85 || n == 0xA0 || n == 0x1680 ||
    (0x2000 ≤ n && n ≤ 0x200A) || n == 0x2028 || n == 0x2029 || n == 0x202F || n == 0x205F ||
    n == 0x3000

/-- The characters that may separate two tokens: space, tab, carriage return and line feed. -/
def isGap (c : Char) : Bool :=
  c == ' ' || c == '\t' || c == '\r' || c == '\n'

/-- Every gap is a blank, so trimming a text never stops at a character that separates tokens. -/
theorem isBlank_of_isGap {c : Char} (h : isGap c) : isBlank c := by
  simp only [isGap, Bool.or_eq_true, beq_iff_eq] at h
  rcases h with ((rfl | rfl) | rfl) | rfl <;> decide

/-- The text without its leading blanks. -/
def trimStart (t : Text) : Text :=
  t.dropWhile isBlank

/-- The text without its trailing blanks. -/
def trimEnd (t : Text) : Text :=
  (t.reverse.dropWhile isBlank).reverse

/-- The text without the blanks around it. -/
def trim (t : Text) : Text :=
  trimEnd (trimStart t)

/-- The text without the gap it begins with, if any. -/
def skipGap (t : Text) : Text :=
  t.dropWhile isGap

/-- The text after the gap it begins with; `none` when it begins with none. -/
def afterGap? : Text → Option Text
  | [] => none
  | c :: t => if isGap c then some (skipGap t) else none

/-- What follows the word `w` at the front of a text; `none` when the text begins otherwise. -/
def after : Text → Text → Option Text
  | [], t => some t
  | _ :: _, [] => none
  | c :: w, d :: t => if c = d then after w t else none

/-- A word is read off the front of the texts that begin with it, and nothing else is. -/
theorem after_eq_some_iff {w t r : Text} : after w t = some r ↔ t = w ++ r := by
  induction w generalizing t with
  | nil => simp [after]
  | cons c w ih =>
    -- the word and the text are taken apart together
    cases t with
    | nil => simp [after]
    | cons d t =>
      by_cases h : c = d
      · subst h; simp [after, ih]
      · simp [after, h, Ne.symm h]

/-- The text after the word `w` if it begins with `w`, and the whole text otherwise. -/
def skipWord (w t : Text) : Text :=
  (after w t).getD t

/-- The longest run of upper-case ASCII letters at the front of a text, which must not be empty. -/
def keyword : Reader Text := fun t =>
  match t.takeWhile Char.isUpper with
  | [] => none
  | w => some (w, t.dropWhile Char.isUpper)

end Text

end Parley
