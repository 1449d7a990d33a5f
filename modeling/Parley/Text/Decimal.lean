import Parley.Bounded
import Parley.Text.Basic

/-!
# Decimal numbers in texts

Numbers are written without leading zeros and read with any number of them. A reader takes the
longest run of ASCII digits, so what follows a number never begins with a digit.

* `digits_append`  a run of digits is read as a whole when no digit follows it
-/

namespace Parley

namespace Text

/-- The decimal digits of a number, without leading zeros. -/
def ofNat (n : Nat) : Text :=
  Nat.toDigits 10 n

/-- The decimal digits of an integer, after a minus sign if it is negative. -/
def ofInt (n : Int) : Text :=
  if n < 0 then '-' :: ofNat n.natAbs else ofNat n.natAbs

/-- Reads the longest run of digits, which must not be empty. -/
def digits : Reader Text := fun t =>
  match t.takeWhile Char.isDigit with
  | [] => none
  | ds => some (ds, t.dropWhile Char.isDigit)

/-- Reads the number that the longest run of digits stands for. -/
def natural : Reader Nat := fun t =>
  (digits t).map fun (ds, rest) => (Nat.ofDigitChars 10 ds 0, rest)

/-- Reads an optional minus sign and digits. -/
def integer : Reader Int
  | '-' :: t => (natural t).map fun (n, rest) => (-n, rest)
  | t => (natural t).map fun (n, rest) => (n, rest)

/-- Reads an integer that fits into 32 bits. -/
def readInt32 : Reader Int32 := fun t => do
  let (n, t) ← integer t
  let n ← int32? n
  return (n, t)

/-- A run of digits is read as a whole when no digit follows it. -/
theorem digits_append {ds rest : Text} (hne : ds ≠ []) (hds : ∀ c ∈ ds, c.isDigit)
    (hrest : ∀ c ∈ rest.head?, ¬ c.isDigit) : digits (ds ++ rest) = some (ds, rest) := by
  have stop : rest.takeWhile Char.isDigit = [] ∧ rest.dropWhile Char.isDigit = rest := by
    cases rest with
    | nil => simp
    | cons c r =>
      have : c.isDigit = false := by simpa using hrest
      simp [this]
  unfold digits
  rw [List.takeWhile_append_of_pos hds, List.dropWhile_append_of_pos hds, stop.1, stop.2,
    List.append_nil]
  split
  · contradiction
  · rfl

end Text

end Parley
