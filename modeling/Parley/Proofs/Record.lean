import Mathlib.Data.List.Nodup
import Parley.Proofs.Json.Fields
import Parley.Proofs.Json.RoundTrip
import Parley.Proofs.Wire
import Parley.Record

/-!
# Records on the wire

A record travels as an object with one member for each of its fields. As the names of the fields
differ, each is found again under its name, and no field is a number with a fraction. So the text
that is sent gives the record back, whatever the integers and the texts in it are.

## Key results

- `Json.fields?_object`: the fields of a record are found in an object
- `Wire.decode?_encode`: what is sent as text is received
- `Wire.decode?_encode_records`: records and references to utterances are received as they are sent
-/

namespace Parley

/-! ### Fields -/

namespace Json

/-- If no two rows have the same name, then the name of a row has the value of that row. -/
theorem soleMember?_of_mem {rows : List (String × Json)} (hnodup : (rows.map Prod.fst).Nodup)
    {row : String × Json} (hrow : row ∈ rows) :
    soleMember? (rows.map (Prod.map (some ·.toList) id)) row.1 = some row.2 := by
  -- the names are compared as texts, and different names are different texts
  have hinjective : Function.Injective fun name : String => some name.toList :=
    fun _ _ h => String.toList_inj.mp (Option.some.inj h)
  have hnames : (rows.map (Prod.map (some ·.toList) id)).map Prod.fst =
      (rows.map Prod.fst).map (some ·.toList) := by
    simp
  have hdistinct : occurrences (rows.map (Prod.map (some ·.toList) id)) row.1 ≤ 1 := by
    rw [occurrences, hnames]
    exact List.nodup_iff_count_le_one.mp (hnodup.map hinjective) _
  exact (soleMember?_eq_some_iff_mem hdistinct).mpr (List.mem_map.mpr ⟨row, hrow, rfl⟩)

/-- An object is read as a record, field by field, if its members have the names of the fields and
these differ. -/
theorem fields?_object (rows : List (String × Json)) {names : List String}
    (hnames : rows.map Prod.fst = names) (hnodup : names.Nodup) :
    fields? names (object (rows.map (Prod.map (some ·.toList) id))) = some (rows.map Prod.snd) := by
  subst hnames
  have hnamed : (rows.map (Prod.map (some ·.toList) id)).all (fun m => m.1.isSome) = true := by
    simp
  -- every name is that of a row, and so it has one value
  have hsole : ∀ row ∈ rows, (soleMember? (rows.map (Prod.map (some ·.toList) id)) ∘ Prod.fst) row =
      pure row.2 :=
    fun row hrow => soleMember?_of_mem hnodup hrow
  rw [fields?, if_pos hnamed, List.mapM_map, mapM_eq_pure hsole]
  rfl

end Json

/-! ### Records as JSON -/

instance : LawfulWire UtteranceRecord where
  ofJson?_toJson r := by
    have hfields : (Wire.toJson r).fields? ["day", "agent", "idx", "text", "turn"] =
        some [Wire.toJson r.day, Wire.toJson r.agent, Wire.toJson r.index, Wire.toJson r.text,
          Wire.toJson r.turn] :=
      Json.fields?_object
        [("day", _), ("agent", _), ("idx", _), ("text", _), ("turn", _)] rfl (by decide)
    show ((Wire.toJson r).fields? ["day", "agent", "idx", "text", "turn"]).bind _ = some r
    simp only [hfields, Option.bind_some, LawfulWire.ofJson?_toJson, Option.bind_eq_bind]
    rfl

instance : LawfulWire Utterance where
  ofJson?_toJson u := by
    have hfields : (Wire.toJson u).fields? ["kind", "day", "speaker", "index", "text", "turn"] =
        some [Wire.toJson u.channel, Wire.toJson u.day, Wire.toJson u.speaker,
          Wire.toJson u.index, Wire.toJson u.text, Wire.toJson u.turn] :=
      Json.fields?_object
        [("kind", _), ("day", _), ("speaker", _), ("index", _), ("text", _), ("turn", _)]
        rfl (by decide)
    show ((Wire.toJson u).fields?
      ["kind", "day", "speaker", "index", "text", "turn"]).bind _ = some u
    simp only [hfields, Option.bind_some, LawfulWire.ofJson?_toJson, Option.bind_eq_bind]
    rfl

instance : LawfulWire JudgeRecord where
  ofJson?_toJson r := by
    have hfields : (Wire.toJson r).fields? ["agent", "day", "target", "result"] =
        some [Wire.toJson r.agent, Wire.toJson r.day, Wire.toJson r.target,
          Wire.toJson r.result] :=
      Json.fields?_object
        [("agent", _), ("day", _), ("target", _), ("result", _)] rfl (by decide)
    show ((Wire.toJson r).fields? ["agent", "day", "target", "result"]).bind _ = some r
    simp only [hfields, Option.bind_some, LawfulWire.ofJson?_toJson, Option.bind_eq_bind]
    rfl

instance : LawfulWire VoteRecord where
  ofJson?_toJson r := by
    have hfields : (Wire.toJson r).fields? ["agent", "day", "target"] =
        some [Wire.toJson r.agent, Wire.toJson r.day, Wire.toJson r.target] :=
      Json.fields?_object [("agent", _), ("day", _), ("target", _)] rfl (by decide)
    show ((Wire.toJson r).fields? ["agent", "day", "target"]).bind _ = some r
    simp only [hfields, Option.bind_some, LawfulWire.ofJson?_toJson, Option.bind_eq_bind]
    rfl

/-! ### Records as texts -/

/-- A type whose values travel without any number that is no integer. -/
class IntegralWire (α : Type) [Wire α] : Prop where
  integral_toJson (a : α) : (Wire.toJson a).Integral

instance : IntegralWire Int32 := ⟨fun n => .integer n.toInt⟩

instance : IntegralWire Int64 := ⟨fun n => .integer n.toInt⟩

instance : IntegralWire Text := ⟨fun t => .string (some t)⟩

instance : IntegralWire Agent := ⟨fun a => .integer a.index.toNat⟩

instance {α : Type} [Vocabulary α] : IntegralWire α :=
  ⟨fun a => .string (some (Vocabulary.spell a))⟩

instance : IntegralWire UtteranceRecord :=
  ⟨fun r => .object (by simp [Wire.member, IntegralWire.integral_toJson])⟩

instance : IntegralWire Utterance :=
  ⟨fun u => .object (by simp [Wire.member, IntegralWire.integral_toJson])⟩

instance : IntegralWire JudgeRecord :=
  ⟨fun r => .object (by simp [Wire.member, IntegralWire.integral_toJson])⟩

instance : IntegralWire VoteRecord :=
  ⟨fun r => .object (by simp [Wire.member, IntegralWire.integral_toJson])⟩

/-- What is sent as text is received. -/
theorem Wire.decode?_encode {α : Type} [Wire α] [LawfulWire α] [IntegralWire α] (a : α) :
    decode? (encode a) = some a := by
  -- the text is read back as the JSON that was written, and the JSON as the value
  have htext : Json.ofText? (encode a) = some (toJson a) :=
    Json.ofText?_compact (IntegralWire.integral_toJson a)
  rw [decode?, htext]
  exact LawfulWire.ofJson?_toJson a

/-- Records of the server, and references to utterances, are received as they are sent, with any
integers their fields can hold and any characters in their texts. -/
theorem Wire.decode?_encode_records :
    (∀ r : UtteranceRecord, decode? (encode r) = some r) ∧
      (∀ r : JudgeRecord, decode? (encode r) = some r) ∧
      (∀ r : VoteRecord, decode? (encode r) = some r) ∧
      ∀ u : Utterance, decode? (encode u) = some u :=
  ⟨decode?_encode, decode?_encode, decode?_encode, decode?_encode⟩

end Parley
