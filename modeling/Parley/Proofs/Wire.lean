import Mathlib.Logic.Function.Basic
import Parley.Wire

/-!
# Values on the wire

A value is read back from what it travels as, so different values travel as different JSON. A record
travels as an object, whose rows can be told from the members that are written as long as no two of
them have the same name.

## Key results

- `Wire.toJson_injective`: different values travel as different JSON
- `Json.withoutMembers_filterMap_written?`: what is left of an object without the members of a name
- `Json.rows_eq_of_written_eq`: the rows of an object are known from its members
-/

namespace Parley

/-- A type whose values are read back from what they travel as. -/
class LawfulWire (α : Type) [Wire α] : Prop where
  ofJson?_toJson (a : α) : Wire.ofJson? (Wire.toJson a) = some a

/-- Different values travel as different JSON. -/
theorem Wire.toJson_injective {α : Type} [Wire α] [LawfulWire α] :
    Function.Injective (Wire.toJson (α := α)) := by
  intro a b h
  have hread := congrArg (Wire.ofJson? (α := α)) h
  rwa [LawfulWire.ofJson?_toJson, LawfulWire.ofJson?_toJson, Option.some.injEq] at hread

instance : LawfulWire Int32 where
  ofJson?_toJson _ := int32?_eq_some_iff.mpr rfl

instance : LawfulWire Int64 where
  ofJson?_toJson _ := int64?_eq_some_iff.mpr rfl

instance : LawfulWire Text where
  ofJson?_toJson _ := rfl

instance : LawfulWire Agent where
  ofJson?_toJson a := by
    show Agent.ofInt? a.index.toNat = some a
    rw [Agent.ofInt?, uint32?_eq_some_iff.mpr rfl]
    rfl

instance {α : Type} [Vocabulary α] : LawfulWire α where
  ofJson?_toJson _ := Vocabulary.ofName?_eq_some_iff.mpr rfl

namespace Json

/-! ### Leaving out members -/

mutual

/-- The value without the members of a name, at every level. -/
def without (name : String) : Json → Json
  | array items => array (withoutItems name items)
  | object members => object (withoutMembers name members)
  | value => value

/-- The items of an array, each without the members of a name. -/
def withoutItems (name : String) : List Json → List Json
  | [] => []
  | item :: rest => without name item :: withoutItems name rest

/-- The members of an object that have another name, each without the members of that name. -/
def withoutMembers (name : String) : List (Option Text × Json) → List (Option Text × Json)
  | [] => []
  | (key, value) :: rest =>
    if key = some name.toList then withoutMembers name rest
    else (key, without name value) :: withoutMembers name rest

end

/-- The items are changed one by one. -/
theorem withoutItems_eq_map (name : String) (items : List Json) :
    withoutItems name items = items.map (without name) := by
  induction items with
  | nil => rfl
  | cons item rest ih => rw [withoutItems, ih, List.map_cons]

/-! ### Rows of an object -/

/-- A row of an object as a member, unless it has no value. -/
def written? (row : String × Option Json) : Option (Option Text × Json) :=
  row.2.map (Prod.mk (some row.1.toList))

/-- What is left of the rows of an object without the members of a name. -/
def rowsWithout (name : String) (rows : List (String × Option Json)) :
    List (String × Option Json) :=
  (rows.filter fun row => row.1 ≠ name).map fun row => (row.1, row.2.map (without name))

/-- Leaving members out of an object is leaving rows out before it is written. -/
theorem withoutMembers_filterMap_written? (name : String) (rows : List (String × Option Json)) :
    withoutMembers name (rows.filterMap written?) = (rowsWithout name rows).filterMap written? := by
  induction rows with
  | nil => rfl
  | cons row rows ih =>
    obtain ⟨key, value⟩ := row
    -- a row of that name goes in any case, any other one stays if it has a value
    by_cases hkey : key = name
    · have hleft : rowsWithout name ((key, value) :: rows) = rowsWithout name rows := by
        simp [rowsWithout, hkey]
      rw [hleft, ← ih]
      cases value with
      | none => rfl
      | some value => exact if_pos (by rw [hkey])
    · have hleft : rowsWithout name ((key, value) :: rows) =
          (key, value.map (without name)) :: rowsWithout name rows := by
        simp [rowsWithout, hkey]
      rw [hleft]
      cases value with
      | none => exact ih
      | some value =>
        -- names are compared as texts in the object
        have hkeys : some key.toList ≠ some name.toList := by
          simpa [String.toList_inj] using hkey
        show withoutMembers name ((some key.toList, value) :: rows.filterMap written?) =
          (some key.toList, without name value) :: (rowsWithout name rows).filterMap written?
        rw [withoutMembers, if_neg hkeys, ih]

/-- A member that is written has the name of a row. -/
theorem mem_names_of_mem_written {rows : List (String × Option Json)} {name : String} {value : Json}
    (h : (some name.toList, value) ∈ rows.filterMap written?) : name ∈ rows.map Prod.fst := by
  obtain ⟨row, hrow, hwritten⟩ := List.mem_filterMap.mp h
  obtain ⟨_, -, heq⟩ := Option.map_eq_some_iff.mp hwritten
  have hname : row.1 = name := String.toList_inj.mp (Option.some.inj (Prod.mk.inj heq).1)
  exact hname ▸ List.mem_map_of_mem hrow

/-- If no two rows have the same name, then the rows are known from the members that are written. -/
theorem rows_eq_of_written_eq {first second : List (String × Option Json)}
    (hnames : first.map Prod.fst = second.map Prod.fst) (hnodup : (first.map Prod.fst).Nodup)
    (h : first.filterMap written? = second.filterMap written?) : first = second := by
  -- both lists of rows have the same names, so they are taken apart together
  induction first generalizing second with
  | nil => exact (List.map_eq_nil_iff.mp hnames.symm).symm
  | cons row rows ih =>
    obtain ⟨name, value⟩ := row
    cases second with
    | nil => simp at hnames
    | cons row' rows' =>
      obtain ⟨name', value'⟩ := row'
      obtain ⟨rfl, hrest⟩ := List.cons.inj hnames
      obtain ⟨hnew, hdistinct⟩ := List.nodup_cons.mp hnodup
      -- a name that is written on one side only would come up again on the other
      cases value with
      | none =>
        cases value' with
        | none => rw [ih hrest hdistinct h]
        | some value' =>
          have hmem : (some name.toList, value') ∈ rows.filterMap written? := by
            rw [show rows.filterMap written? = _ from h]
            exact List.mem_cons_self
          exact absurd (mem_names_of_mem_written hmem) hnew
      | some value =>
        cases value' with
        | none =>
          have hmem : (some name.toList, value) ∈ rows'.filterMap written? := by
            rw [show rows'.filterMap written? = _ from h.symm]
            exact List.mem_cons_self
          exact absurd (mem_names_of_mem_written hmem) (hrest ▸ hnew)
        | some value' =>
          obtain ⟨heq, hrows⟩ := List.cons.inj h
          rw [(Prod.mk.inj heq).2, ih hrest hdistinct hrows]

end Json

end Parley
