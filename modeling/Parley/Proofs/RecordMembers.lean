import Parley.Proofs.Json.Fields
import Parley.Proofs.Json.ObjectText
import Parley.Proofs.Record

/-!
# Records by the names of their members

The server may send the members of a record in any order, and among them members of other names. A
field is found by its name alone, so neither makes a difference, while a field that comes twice or
not at all cannot be overlooked. What a member holds is read after that, field by field.

## Key results

- `BuiltFrom.readByName`: what follows for every type that is built from the values of its fields
- `isSome_nextField_iff`: a type is built from its fields one field at a time
- `Wire.records_read_by_name`: the records of the server and the references to utterances
-/

namespace Parley

/-! ### Fields -/

/-- A field of a record: its name, and the values that it can hold. -/
structure Field where
  name : String
  takes : Json → Prop

namespace Json

/-- An integer from the low bound to the high one. A number that is written with a fraction or with
an exponent is none, and neither is `-0`. -/
def IsInteger (low high : Int) (v : Json) : Prop :=
  ∃ n, v = integer n ∧ low ≤ n ∧ n ≤ high

/-- An integer of 32 bits. -/
def IsInt32 : Json → Prop :=
  IsInteger (-2147483648) 2147483647

/-- An integer of 64 bits. -/
def IsInt64 : Json → Prop :=
  IsInteger (-9223372036854775808) 9223372036854775807

/-- The index of a player. -/
def IsIndex : Json → Prop :=
  IsInteger 0 4294967295

/-- A string that denotes a text. -/
def IsText (v : Json) : Prop :=
  ∃ t : Text, v = string (some t)

/-- One of these words, as a string or as the name of the only member of an object, with null. -/
def IsWord (words : List String) (v : Json) : Prop :=
  ∃ word ∈ words, v = string (some word.toList) ∨ v = object [(some word.toList, null)]

end Json

open Json (IsInt32 IsInt64 IsIndex IsText IsWord)

/-- The fields of an utterance as the server tells it. -/
def UtteranceRecord.fields : List Field :=
  [⟨"day", IsInt32⟩, ⟨"agent", IsInt64⟩, ⟨"idx", IsInt32⟩, ⟨"text", IsText⟩,
    ⟨"turn", IsInt32⟩]

/-- The fields of a reference to an utterance. -/
def Utterance.fields : List Field :=
  [⟨"kind", IsWord ["TALK", "WHISPER"]⟩, ⟨"day", IsInt32⟩, ⟨"speaker", IsIndex⟩,
    ⟨"index", IsInt32⟩, ⟨"text", IsText⟩, ⟨"turn", IsInt32⟩]

/-- The fields of a finding as the server tells it. -/
def JudgeRecord.fields : List Field :=
  [⟨"agent", IsInt64⟩, ⟨"day", IsInt32⟩, ⟨"target", IsInt64⟩, ⟨"result", IsText⟩]

/-- The fields of a vote as the server tells it. -/
def VoteRecord.fields : List Field :=
  [⟨"agent", IsInt64⟩, ⟨"day", IsInt32⟩, ⟨"target", IsInt64⟩]

/-- Values of a type are read from the members of an object by the names of these fields. -/
structure ReadByName (α : Type) [Wire α] (fields : List Field) : Prop where
  /-- The members may be in any order, and there may be more, of other names. -/
  reorder {t t' : Text} {members members' extra : List (Option Text × Json)} :
    Json.ofText? t = some (.object members) → Json.ofText? t' = some (.object members') →
    members'.Perm (members ++ extra) →
    (∀ m ∈ extra, ∃ name : Text, m.1 = some name ∧ ∀ f ∈ fields, name ≠ f.name.toList) →
      (Wire.decode? t' : Option α) = Wire.decode? t
  /-- If no field comes twice, then there is a value exactly if every field is there and holds what
  it can hold. A name that denotes no text names no member, and the object is refused. -/
  isSome_iff {t : Text} {members : List (Option Text × Json)} :
    Json.ofText? t = some (.object members) →
    (∀ f ∈ fields, Json.occurrences members f.name ≤ 1) →
      ((Wire.decode? t : Option α).isSome ↔ (∀ m ∈ members, m.1.isSome) ∧
        ∀ f ∈ fields, ∃ v, (some f.name.toList, v) ∈ members ∧ f.takes v)
  /-- If a field comes more than once, then there is no value. -/
  repeated {t : Text} {members : List (Option Text × Json)} {f : Field} :
    Json.ofText? t = some (.object members) → f ∈ fields → 2 ≤ Json.occurrences members f.name →
      (Wire.decode? t : Option α) = none

/-! ### Types that are built from fields -/

/-- Values of a type are built from the values of its fields, and exactly if these are such as the
fields can hold. -/
structure BuiltFrom (α : Type) [Wire α] (fields : List Field) (build : List Json → Option α) :
    Prop where
  ofJson?_eq (json : Json) :
    Wire.ofJson? json = (json.fields? (fields.map Field.name)).bind build
  isSome_build (values : List Json) :
    (build values).isSome ↔ List.Forall₂ Field.takes fields values

section BuiltFrom

variable {α : Type} [Wire α] {fields : List Field} {build : List Json → Option α}

/-- What is read from the text of an object is built from the values of the fields in it. -/
theorem BuiltFrom.decode?_eq (h : BuiltFrom α fields build) {t : Text}
    {members : List (Option Text × Json)} (ht : Json.ofText? t = some (.object members)) :
    Wire.decode? t = ((Json.object members).fields? (fields.map Field.name)).bind build := by
  rw [Wire.decode?, ht, ← h.ofJson?_eq]
  rfl

/-- There is a value if every name of a member is a text and every field has one value that it can
hold. -/
theorem BuiltFrom.isSome_decode?_iff (h : BuiltFrom α fields build) {t : Text}
    {members : List (Option Text × Json)} (ht : Json.ofText? t = some (.object members)) :
    (Wire.decode? t : Option α).isSome ↔ (∀ m ∈ members, m.1.isSome) ∧
      ∀ f ∈ fields, ∃ v, Json.soleMember? members f.name = some v ∧ f.takes v := by
  -- one list of values both stands in the object and is such as the fields can hold
  rw [h.decode?_eq ht, ← exists_forall₂_iff]
  constructor
  · intro hsome
    obtain ⟨a, ha⟩ := Option.isSome_iff_exists.mp hsome
    obtain ⟨values, hfields, hbuild⟩ := Option.bind_eq_some_iff.mp ha
    obtain ⟨hnamed, hsole⟩ := Json.fields?_object_eq_some_iff.mp hfields
    refine ⟨hnamed, values, List.forall₂_map_left_iff.mp hsole, ?_⟩
    rw [← h.isSome_build, hbuild, Option.isSome_some]
  · rintro ⟨hnamed, values, hsole, htakes⟩
    have hfields : (Json.object members).fields? (fields.map Field.name) = some values :=
      Json.fields?_object_eq_some_iff.mpr ⟨hnamed, List.forall₂_map_left_iff.mpr hsole⟩
    rw [hfields, Option.bind_some, h.isSome_build]
    exact htakes

/-- Whatever is built from the values of its fields is read by their names. -/
theorem BuiltFrom.readByName (h : BuiltFrom α fields build) : ReadByName α fields where
  reorder ht ht' hperm hextra := by
    -- the fields do not see the order, nor members of other names
    rw [h.decode?_eq ht, h.decode?_eq ht', Json.fields?_perm hperm]
    intro m hm
    obtain ⟨key, hkey, hne⟩ := hextra m hm
    refine ⟨key, hkey, fun name hname => ?_⟩
    obtain ⟨f, hf, rfl⟩ := List.mem_map.mp hname
    exact hne f hf
  isSome_iff ht hdistinct := by
    rw [h.isSome_decode?_iff ht]
    refine and_congr_right fun _ => forall₂_congr fun f hf => exists_congr fun v => ?_
    -- a name that comes once at most has the value that stands under it
    rw [Json.soleMember?_eq_some_iff_mem (hdistinct f hf)]
  repeated ht hf htwice := by
    rw [← Option.not_isSome_iff_eq_none, h.isSome_decode?_iff ht]
    rintro ⟨-, hall⟩
    obtain ⟨v, hsole, -⟩ := hall _ hf
    rw [Json.soleMember?_eq_none htwice] at hsole
    contradiction

end BuiltFrom

/-! ### What a field can hold -/

/-- A text is the name of a value if it is one of the words. -/
theorem Vocabulary.isSome_ofName?_iff {α : Type} [Vocabulary α] {t : Text} :
    (ofName? t : Option α).isSome ↔ ∃ word ∈ (words (α := α)).map name, t = word.toList := by
  simp [Option.isSome_iff_exists, ofName?_eq_some_iff, spell, mem_words]

namespace Wire

/-- An integer of 32 bits is read exactly from an integer in its range. -/
theorem isSome_ofJson?_int32_iff (v : Json) :
    (ofJson? v : Option Int32).isSome ↔ IsInt32 v := by
  cases v with
  | integer n => simpa [ofJson?, IsInt32, Json.IsInteger] using isSome_int32?_iff
  | _ => simp [ofJson?, IsInt32, Json.IsInteger]

/-- An integer of 64 bits is read exactly from an integer in its range. -/
theorem isSome_ofJson?_int64_iff (v : Json) :
    (ofJson? v : Option Int64).isSome ↔ IsInt64 v := by
  cases v with
  | integer n => simpa [ofJson?, IsInt64, Json.IsInteger] using isSome_int64?_iff
  | _ => simp [ofJson?, IsInt64, Json.IsInteger]

/-- An agent is read exactly from an index. -/
theorem isSome_ofJson?_agent_iff (v : Json) :
    (ofJson? v : Option Agent).isSome ↔ IsIndex v := by
  cases v with
  | integer n => simpa [ofJson?, Agent.ofInt?, IsIndex, Json.IsInteger] using isSome_uint32?_iff
  | _ => simp [ofJson?, IsIndex, Json.IsInteger]

/-- A text is read exactly from a string that denotes one. -/
theorem isSome_ofJson?_text_iff (v : Json) : (ofJson? v : Option Text).isSome ↔ IsText v := by
  cases v with
  | string t => cases t <;> simp [ofJson?, IsText]
  | _ => simp [ofJson?, IsText]

/-- A word is read exactly from its name, as a string or in an object of its own. -/
theorem isSome_ofJson?_word_iff {α : Type} [Vocabulary α] (v : Json) :
    (ofJson? v : Option α).isSome ↔
      IsWord ((Vocabulary.words (α := α)).map Vocabulary.name) v := by
  cases v with
  | string t => cases t <;> simp [ofJson?, IsWord, Vocabulary.isSome_ofName?_iff]
  | object members =>
    -- only an object of one named member stands for a word
    obtain _ | ⟨⟨_ | key, value⟩, _ | ⟨next, rest⟩⟩ := members
    · simp [ofJson?, IsWord]
    · simp [ofJson?, IsWord]
    · simp [ofJson?, IsWord]
    · cases value <;> simp [ofJson?, IsWord, Vocabulary.isSome_ofName?_iff]
    · simp [ofJson?, IsWord]
  | _ => simp [ofJson?, IsWord]

end Wire

/-! ### Records -/

section Building

variable {α β : Type} [Wire β] {f : Field} {fields : List Field}

/-- Builds a value when no field is left. -/
def built (a : α) : List Json → Option α
  | [] => some a
  | _ :: _ => none

/-- Builds a value from that of the next field and from those behind it. -/
def nextField (build : β → List Json → Option α) : List Json → Option α
  | [] => none
  | v :: values => (Wire.ofJson? v).bind fun b => build b values

/-- When no field is left, no value may be left either. -/
theorem isSome_built_iff (a : α) (values : List Json) :
    (built a values).isSome ↔ List.Forall₂ Field.takes [] values := by
  cases values <;> simp [built]

/-- A field in front wants a value that it can hold, and the fields behind it want the others. -/
theorem isSome_nextField_iff {build : β → List Json → Option α}
    (hf : ∀ v, (Wire.ofJson? v : Option β).isSome ↔ f.takes v)
    (hfields : ∀ b values, (build b values).isSome ↔ List.Forall₂ Field.takes fields values)
    (values : List Json) :
    (nextField build values).isSome ↔ List.Forall₂ Field.takes (f :: fields) values := by
  -- the value of this field is read first
  cases values with
  | nil => simp [nextField]
  | cons v values =>
    rw [List.forall₂_cons, ← hf, nextField]
    cases hv : (Wire.ofJson? v : Option β) with
    | none => simp
    | some b => simp [hfields]

end Building

/-- An utterance from the values of its fields. -/
def UtteranceRecord.ofValues? : List Json → Option UtteranceRecord :=
  nextField fun day => nextField fun agent => nextField fun index => nextField fun text =>
    nextField fun turn => built { day, agent, index, text, turn }

/-- Utterances are built from the values of their fields. -/
theorem UtteranceRecord.builtFrom : BuiltFrom UtteranceRecord fields ofValues? where
  ofJson?_eq json := by
    refine Option.bind_congr fun values _ => ?_
    -- as many values as fields make a record, and no other number of them does
    obtain _ | ⟨day, _ | ⟨agent, _ | ⟨index, _ | ⟨text, _ | ⟨turn, _ | ⟨_, _⟩⟩⟩⟩⟩⟩ := values <;>
      simp [ofValues?, nextField, built]
  isSome_build := isSome_nextField_iff Wire.isSome_ofJson?_int32_iff fun _ =>
    isSome_nextField_iff Wire.isSome_ofJson?_int64_iff fun _ =>
    isSome_nextField_iff Wire.isSome_ofJson?_int32_iff fun _ =>
    isSome_nextField_iff Wire.isSome_ofJson?_text_iff fun _ =>
    isSome_nextField_iff Wire.isSome_ofJson?_int32_iff fun _ => isSome_built_iff _

/-- A reference to an utterance from the values of its fields. -/
def Utterance.ofValues? : List Json → Option Utterance :=
  nextField fun channel => nextField fun day => nextField fun speaker => nextField fun index =>
    nextField fun text => nextField fun turn => built { channel, day, speaker, index, text, turn }

/-- References to utterances are built from the values of their fields. -/
theorem Utterance.builtFrom : BuiltFrom Utterance fields ofValues? where
  ofJson?_eq json := by
    refine Option.bind_congr fun values _ => ?_
    obtain _ | ⟨channel, _ | ⟨day, _ | ⟨speaker, _ | ⟨index, _ | ⟨text, _ | ⟨turn,
      _ | ⟨_, _⟩⟩⟩⟩⟩⟩⟩ := values <;> simp [ofValues?, nextField, built]
  isSome_build := isSome_nextField_iff Wire.isSome_ofJson?_word_iff fun _ =>
    isSome_nextField_iff Wire.isSome_ofJson?_int32_iff fun _ =>
    isSome_nextField_iff Wire.isSome_ofJson?_agent_iff fun _ =>
    isSome_nextField_iff Wire.isSome_ofJson?_int32_iff fun _ =>
    isSome_nextField_iff Wire.isSome_ofJson?_text_iff fun _ =>
    isSome_nextField_iff Wire.isSome_ofJson?_int32_iff fun _ => isSome_built_iff _

/-- A finding from the values of its fields. -/
def JudgeRecord.ofValues? : List Json → Option JudgeRecord :=
  nextField fun agent => nextField fun day => nextField fun target => nextField fun result =>
    built { agent, day, target, result }

/-- Findings are built from the values of their fields. -/
theorem JudgeRecord.builtFrom : BuiltFrom JudgeRecord fields ofValues? where
  ofJson?_eq json := by
    refine Option.bind_congr fun values _ => ?_
    obtain _ | ⟨agent, _ | ⟨day, _ | ⟨target, _ | ⟨result, _ | ⟨_, _⟩⟩⟩⟩⟩ := values <;>
      simp [ofValues?, nextField, built]
  isSome_build := isSome_nextField_iff Wire.isSome_ofJson?_int64_iff fun _ =>
    isSome_nextField_iff Wire.isSome_ofJson?_int32_iff fun _ =>
    isSome_nextField_iff Wire.isSome_ofJson?_int64_iff fun _ =>
    isSome_nextField_iff Wire.isSome_ofJson?_text_iff fun _ => isSome_built_iff _

/-- A vote from the values of its fields. -/
def VoteRecord.ofValues? : List Json → Option VoteRecord :=
  nextField fun agent => nextField fun day => nextField fun target => built { agent, day, target }

/-- Votes are built from the values of their fields. -/
theorem VoteRecord.builtFrom : BuiltFrom VoteRecord fields ofValues? where
  ofJson?_eq json := by
    refine Option.bind_congr fun values _ => ?_
    obtain _ | ⟨agent, _ | ⟨day, _ | ⟨target, _ | ⟨_, _⟩⟩⟩⟩ := values <;>
      simp [ofValues?, nextField, built]
  isSome_build := isSome_nextField_iff Wire.isSome_ofJson?_int64_iff fun _ =>
    isSome_nextField_iff Wire.isSome_ofJson?_int32_iff fun _ =>
    isSome_nextField_iff Wire.isSome_ofJson?_int64_iff fun _ => isSome_built_iff _

/-- Records of the server, and references to utterances, are read from the members of an object by
their names. The members can be written in any order, with members of any other names among them,
as every object that is written from texts of names and of values is the object of these members;
and one pass over the members, with a slot for each field, finds the fields. -/
theorem Wire.records_read_by_name :
    ReadByName UtteranceRecord UtteranceRecord.fields ∧
    ReadByName JudgeRecord JudgeRecord.fields ∧
    ReadByName VoteRecord VoteRecord.fields ∧
    ReadByName Utterance Utterance.fields ∧
    (∀ members : List Json.Member,
      Json.ofText? (Json.objectText members) = some (.object (members.map Json.Member.entry))) ∧
    ∀ names members, Json.collect names members = Json.fields? names (.object members) :=
  ⟨UtteranceRecord.builtFrom.readByName, JudgeRecord.builtFrom.readByName,
    VoteRecord.builtFrom.readByName, Utterance.builtFrom.readByName, Json.ofText?_objectText,
    Json.collect_eq_fields?⟩

/-- A vote is read with its members in another order and one of another name among them, whose value
has a member `day` of its own. It is not read without its target, nor with two days. -/
theorem Wire.records_read_by_name_shuffled :
    let agent : Json.Member := .compact "agent" (.integer 1)
    let day : Json.Member := .compact "day" (.integer 2)
    let target : Json.Member := .compact "target" (.integer 3)
    let note : Json.Member := .compact "note" (.object (List.forall_mem_singleton.mpr (.integer 9))
      : (Json.object [(some "day".toList, .integer 9)]).Integral)
    decode? (Json.objectText [note, target, day, agent]) = some (⟨1, 2, 3⟩ : VoteRecord) ∧
    ¬ (decode? (Json.objectText [day, agent]) : Option VoteRecord).isSome ∧
    (decode? (Json.objectText [day, agent, day, target]) : Option VoteRecord) = none := by
  intro agent day target note
  obtain ⟨-, -, hvote, -, hwritten, -⟩ := records_read_by_name
  refine ⟨?_, ?_, ?_⟩
  · have hplain : decode? (Json.objectText [agent, day, target]) = some (⟨1, 2, 3⟩ : VoteRecord) :=
      decode?_encode (⟨1, 2, 3⟩ : VoteRecord)
    have hperm := List.reverse_perm ([agent, day, target].map Json.Member.entry ++ [note.entry])
    rw [← hplain]
    refine hvote.reorder (hwritten _) (hwritten _) hperm ?_
    simp [VoteRecord.fields, note]
  · rw [hvote.isSome_iff (hwritten _)]
    · rintro ⟨-, hfields⟩
      obtain ⟨v, hmem, -⟩ := hfields ⟨"target", IsInt64⟩ (by simp [VoteRecord.fields])
      simp [day, agent] at hmem
    · simp [VoteRecord.fields, Json.occurrences, day, agent]
  · refine hvote.repeated (hwritten _) (f := ⟨"day", IsInt32⟩) (by simp [VoteRecord.fields]) ?_
    simp [Json.occurrences, day, agent, target]

end Parley
