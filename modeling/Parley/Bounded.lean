/-!
# Integers of bounded width

Days, indices and turns are 32-bit integers, the numbers in records are 64-bit integers, and the
index of a player is an unsigned 32-bit integer. A number that is out of range is refused, never
wrapped.

* `int32?_eq_some_iff`  `int32? n = some k ↔ k.toInt = n`
* `int64?_eq_some_iff`  `int64? n = some k ↔ k.toInt = n`
* `uint32?_eq_some_iff`  `uint32? n = some k ↔ k.toNat = n`
* `isSome_int32?_iff`, `isSome_int64?_iff`, `isSome_uint32?_iff`  the numbers that fit
-/

namespace Parley

/-- The 32-bit integer of this value, if there is one. -/
def int32? (n : Int) : Option Int32 :=
  if Int32.minValue.toInt ≤ n ∧ n ≤ Int32.maxValue.toInt then some (Int32.ofInt n) else none

/-- The 64-bit integer of this value, if there is one. -/
def int64? (n : Int) : Option Int64 :=
  if Int64.minValue.toInt ≤ n ∧ n ≤ Int64.maxValue.toInt then some (Int64.ofInt n) else none

/-- The unsigned 32-bit integer of this value, if there is one. -/
def uint32? (n : Int) : Option UInt32 :=
  if 0 ≤ n ∧ n < UInt32.size then some (UInt32.ofNat n.toNat) else none

/-- A number is narrowed to the 32-bit integer of its value, and to no other one. -/
theorem int32?_eq_some_iff {n : Int} {k : Int32} : int32? n = some k ↔ k.toInt = n := by
  unfold int32?
  split
  · next h =>
    have value : (Int32.ofInt n).toInt = n :=
      Int32.toInt_ofInt_of_le h.1 (Int.lt_add_one_of_le h.2)
    constructor
    · rintro ⟨⟩; exact value
    · rintro rfl; simp
  · next h =>
    constructor
    · rintro ⟨⟩
    · rintro rfl
      -- the value of an integer is never out of its range
      exact absurd ⟨k.le_toInt, Int.le_of_lt_add_one k.toInt_lt⟩ h

/-- A number is narrowed to the 64-bit integer of its value, and to no other one. -/
theorem int64?_eq_some_iff {n : Int} {k : Int64} : int64? n = some k ↔ k.toInt = n := by
  unfold int64?
  split
  · next h =>
    have value : (Int64.ofInt n).toInt = n :=
      Int64.toInt_ofInt_of_le h.1 (Int.lt_add_one_of_le h.2)
    constructor
    · rintro ⟨⟩; exact value
    · rintro rfl; simp
  · next h =>
    constructor
    · rintro ⟨⟩
    · rintro rfl
      exact absurd ⟨k.le_toInt, Int.le_of_lt_add_one k.toInt_lt⟩ h

/-- A number is narrowed to the unsigned 32-bit integer of its value, and to no other one. -/
theorem uint32?_eq_some_iff {n : Int} {k : UInt32} : uint32? n = some k ↔ k.toNat = n := by
  unfold uint32?
  split
  · next h =>
    -- a number in range is not negative, so nothing is lost on the way through the naturals
    have fits : n.toNat < UInt32.size := by omega
    have value : (UInt32.ofNat n.toNat).toNat = n.toNat := UInt32.toNat_ofNat_of_lt fits
    constructor
    · rintro ⟨⟩; omega
    · rintro rfl; simp
  · next h =>
    constructor
    · rintro ⟨⟩
    · rintro rfl
      have : k.toNat < UInt32.size := k.toNat_lt_size
      exact absurd ⟨by omega, by omega⟩ h

/-- The numbers that fit into 32 bits with a sign. -/
theorem isSome_int32?_iff {n : Int} :
    (int32? n).isSome ↔ -2147483648 ≤ n ∧ n ≤ 2147483647 := by
  rw [int32?, Option.isSome_ite, Int32.toInt_minValue, Int32.toInt_maxValue]
  omega

/-- The numbers that fit into 64 bits with a sign. -/
theorem isSome_int64?_iff {n : Int} :
    (int64? n).isSome ↔ -9223372036854775808 ≤ n ∧ n ≤ 9223372036854775807 := by
  rw [int64?, Option.isSome_ite, Int64.toInt_minValue, Int64.toInt_maxValue]
  omega

/-- The numbers that fit into 32 bits without a sign. -/
theorem isSome_uint32?_iff {n : Int} : (uint32? n).isSome ↔ 0 ≤ n ∧ n ≤ 4294967295 := by
  rw [uint32?, Option.isSome_ite, UInt32.size]
  omega

end Parley
