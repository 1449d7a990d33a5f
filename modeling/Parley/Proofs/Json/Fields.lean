import Parley.Proofs.List
import Parley.Wire

/-!
# Fields among the members of an object

A field is found by its name alone. So neither the order of the members nor members of other names
make a difference, while a field that comes twice or not at all cannot be overlooked.

A reader that goes through the members once, with a slot for each field, finds the same: it refuses
a member whose slot is taken, passes over a member without a slot, and demands at the end that no
slot is empty.

## Key results

- `Json.soleMember?_eq_some_iff_mem`: the member of a name that comes at most once
- `Json.fields?_perm`: the fields do not depend on the order, nor on members of other names
- `Json.collect_eq_fields?`: one pass over the members finds the fields
-/

namespace Parley.Json

variable {members members' extra : List (Option Text × Json)} {name : String} {v : Json}

/-! ### The member of a name -/

/-- How many members have this name. -/
def occurrences (members : List (Option Text × Json)) (name : String) : Nat :=
  (members.map Prod.fst).count (some name.toList)

/-- A name comes as often as there are members that it selects. -/
theorem occurrences_eq_length (members : List (Option Text × Json)) (name : String) :
    occurrences members name = (members.filter fun m => m.1 == some name.toList).length := by
  rw [occurrences, List.count, List.countP_map, List.countP_eq_length_filter]
  rfl

/-- A name has a value if it selects one member, and no other one. -/
theorem soleMember?_eq_some_iff : soleMember? members name = some v ↔
    (members.filter fun m => m.1 == some name.toList) = [(some name.toList, v)] := by
  unfold soleMember?
  constructor
  · intro h
    split at h
    · next key value hfilter =>
      cases h
      -- the member that is left has been selected, so the name is its own
      have hmem : (key, v) ∈ members.filter fun m => m.1 == some name.toList := by simp [hfilter]
      obtain rfl : key = some name.toList := by simpa using (List.mem_filter.mp hmem).2
      exact hfilter
    · contradiction
  · intro h
    rw [h]

/-- A name that comes more than once has no value. -/
theorem soleMember?_eq_none (h : 2 ≤ occurrences members name) :
    soleMember? members name = none := by
  rw [Option.eq_none_iff_forall_ne_some]
  intro v hsole
  rw [occurrences_eq_length, soleMember?_eq_some_iff.mp hsole, List.length_singleton] at h
  omega

/-- If a name comes at most once, then its member is any member of that name. -/
theorem soleMember?_eq_some_iff_mem (h : occurrences members name ≤ 1) :
    soleMember? members name = some v ↔ (some name.toList, v) ∈ members := by
  have hfilter : (some name.toList, v) ∈ members ↔
      (some name.toList, v) ∈ members.filter fun m => m.1 == some name.toList := by
    simp [List.mem_filter]
  rw [occurrences_eq_length] at h
  rw [soleMember?_eq_some_iff, hfilter]
  constructor
  · intro heq
    simp [heq]
  · intro hmem
    -- there is one member of the name, and so no other
    obtain ⟨m, hm⟩ := List.length_eq_one_iff.mp (Nat.le_antisymm h (List.length_pos_of_mem hmem))
    rw [hm, List.mem_singleton] at hmem
    rw [hm, hmem]

/-- Neither the order of the members nor members of other names make a difference. -/
theorem soleMember?_perm (hperm : members'.Perm (members ++ extra))
    (hextra : ∀ m ∈ extra, m.1 ≠ some name.toList) :
    soleMember? members' name = soleMember? members name := by
  -- the name selects none of the others
  have hnone : (extra.filter fun m => m.1 == some name.toList) = [] := by
    simpa using hextra
  have hfilter := hperm.filter fun m => m.1 == some name.toList
  rw [List.filter_append, hnone, List.append_nil] at hfilter
  -- a list of one member has no other order
  refine Option.ext fun v => ?_
  rw [soleMember?_eq_some_iff, soleMember?_eq_some_iff, ← List.perm_singleton,
    ← List.perm_singleton]
  exact ⟨hfilter.symm.trans, hfilter.trans⟩

/-! ### The values of fields -/

/-- An object has the fields if every name of a member is a text and every field has its value. -/
theorem fields?_object_eq_some_iff {names : List String} {values : List Json} :
    fields? names (object members) = some values ↔ (∀ m ∈ members, m.1.isSome) ∧
      List.Forall₂ (fun name v => soleMember? members name = some v) names values := by
  rw [fields?, ← List.all_eq_true]
  split
  · next hnamed => rw [mapM_eq_some_iff, hnamed, eq_self, true_and]
  · next hnamed => simp [hnamed]

/-- The fields depend neither on the order of the members nor on members of other names. -/
theorem fields?_perm {names : List String} (hperm : members'.Perm (members ++ extra))
    (hextra : ∀ m ∈ extra, ∃ key : Text, m.1 = some key ∧ ∀ name ∈ names, key ≠ name.toList) :
    fields? names (object members') = fields? names (object members) := by
  have hsole : ∀ name ∈ names, soleMember? members' name = soleMember? members name := by
    intro name hname
    refine soleMember?_perm hperm fun m hm => ?_
    obtain ⟨key, hkey, hne⟩ := hextra m hm
    simpa [hkey] using hne name hname
  -- the others have names, so they do not spoil the object
  have hnamed : extra.all (fun m => m.1.isSome) = true := by
    rw [List.all_eq_true]
    intro m hm
    obtain ⟨key, hkey, -⟩ := hextra m hm
    rw [hkey, Option.isSome_some]
  rw [fields?, fields?, hperm.all_eq, List.all_append, hnamed, Bool.and_true, mapM_congr hsole]

/-! ### One pass over the members -/

/-- The slot of a field after a member has been read; `none` if the member comes too late. -/
def fillSlot (key : Text) (v : Json) (slot : String × Option Json) :
    Option (String × Option Json) :=
  if key = slot.1.toList then
    if slot.2.isSome then none else some (slot.1, some v)
  else some slot

/-- Goes through the members, with slots for the fields, and gives what is in the slots at the
end. -/
def collectInto : List (String × Option Json) → List (Option Text × Json) → Option (List Json)
  | slots, [] => slots.mapM Prod.snd
  | _, (none, _) :: _ => none
  | slots, (some key, v) :: members => do
    collectInto (← slots.mapM (fillSlot key v)) members

/-- Goes through the members of an object once, and gives the values of the fields. -/
def collect (names : List String) (members : List (Option Text × Json)) : Option (List Json) :=
  collectInto (names.map fun name => (name, none)) members

/-- What a slot holds, as a member that has been read already. -/
def held (slot : String × Option Json) : List (Option Text × Json) :=
  slot.2.toList.map fun v => (some slot.1.toList, v)

/-- One step: what is read after a member into the slot that it leaves is what is read from the
member on into the slot before. -/
theorem exists_fillSlot_iff {key : Text} {w : Json} (slot : String × Option Json) :
    (∃ filled, fillSlot key w slot = some filled ∧
      soleMember? (held filled ++ members) filled.1 = some v) ↔
    soleMember? (held slot ++ (some key, w) :: members) slot.1 = some v := by
  obtain ⟨name, content⟩ := slot
  by_cases hkey : key = name.toList
  · subst hkey
    cases content with
    | none => simp [fillSlot, held]
    | some u =>
      -- the slot is taken, so the name comes twice
      have htwice : 2 ≤ occurrences ((some name.toList, u) :: (some name.toList, w) :: members)
          name := by
        simp [occurrences]
      simp [fillSlot, held, soleMember?_eq_none htwice]
  -- a member of another name leaves the slot, and it can as well come last
  · have hperm : (held (name, content) ++ (some key, w) :: members).Perm
        ((held (name, content) ++ members) ++ [(some key, w)]) :=
      List.perm_middle.trans (List.perm_append_singleton _ _).symm
    have hother : soleMember? (held (name, content) ++ (some key, w) :: members) name =
        soleMember? (held (name, content) ++ members) name :=
      soleMember?_perm hperm (by simpa using hkey)
    simp [fillSlot, hkey, hother]

/-- What one pass collects is, for each slot, the only member of its name, be it in the slot already
or yet to come. -/
theorem collectInto_eq_some_iff {slots : List (String × Option Json)} {values : List Json} :
    collectInto slots members = some values ↔ (∀ m ∈ members, m.1.isSome) ∧
      List.Forall₂ (fun slot v => soleMember? (held slot ++ members) slot.1 = some v)
        slots values := by
  induction members generalizing slots with
  | nil =>
    -- in the end a slot is its own and only member
    have hheld : ∀ (slot : String × Option Json) (v : Json),
        soleMember? (held slot) slot.1 = some v ↔ slot.2 = some v := by
      rintro ⟨name, content⟩ v
      cases content <;> simp [held, soleMember?]
    simp [collectInto, mapM_eq_some_iff, hheld]
  | cons m members ih =>
    obtain ⟨_ | key, w⟩ := m
    · simp [collectInto]
    · simp only [collectInto, Option.bind_eq_bind, Option.bind_eq_some_iff, ih, mapM_eq_some_iff,
        List.forall_mem_cons, Option.isSome_some, true_and, ← exists_fillSlot_iff,
        ← exists_forall₂_comp_iff]
      constructor
      · rintro ⟨filled, hfill, hnamed, hrest⟩
        exact ⟨hnamed, filled, hfill, hrest⟩
      · rintro ⟨hnamed, filled, hfill, hrest⟩
        exact ⟨filled, hfill, hnamed, hrest⟩

/-- One pass over the members, with a slot for each field, finds the fields. -/
theorem collect_eq_fields? (names : List String) (members : List (Option Text × Json)) :
    collect names members = fields? names (object members) := by
  refine Option.ext fun values => ?_
  rw [collect, collectInto_eq_some_iff, fields?_object_eq_some_iff, List.forall₂_map_left_iff]
  rfl

end Parley.Json
