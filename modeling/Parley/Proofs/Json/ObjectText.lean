import Parley.Proofs.Json.Continuation

/-!
# Objects written member by member

An object can be written from texts of its names and of its values, whatever the texts are: with
gaps around them, with escapes in the names, with values nested to any depth. Any members can stand
in any order, so what is read of such a text is known member by member.

## Key results

- `Json.Member.read`: a member is read off the front of a text
- `Json.ofText?_objectText`: the members of a written object are read in their order
-/

namespace Parley.Json

/-- A member of an object as it is written. -/
structure Member where
  nameText : Text
  valueText : Text
  name : Text
  value : Json
  read_name : ofText? nameText = some (string (some name))
  read_value : ofText? valueText = some value

namespace Member

/-- The text of a member. -/
def text (m : Member) : Text :=
  m.nameText ++ ':' :: m.valueText

/-- The name and the value of a member. -/
def entry (m : Member) : Option Text × Json :=
  (some m.name, m.value)

/-- A member that is written without any gap. -/
def compact (name : String) {v : Json} (h : v.Integral) : Member where
  nameText := (string (some name.toList)).compact
  valueText := v.compact
  name := name.toList
  value := v
  read_name := ofText?_compact (.string _)
  read_value := ofText?_compact h

/-- The name and the value of a member that is written without any gap. -/
@[simp]
theorem entry_compact (name : String) {v : Json} (h : v.Integral) :
    (Member.compact name h).entry = (some name.toList, v) :=
  rfl

end Member

/-- The text of an object with these members. -/
def objectText (members : List Member) : Text :=
  '{' :: [','].intercalate (members.map Member.text) ++ ['}']

/-! ### Names -/

/-- A number is no string. -/
theorem number_ne_string (negative : Bool) (whole fraction exponent : Text) (s : Option Text) :
    number negative whole fraction exponent ≠ string s := by
  unfold number
  dsimp only
  split <;> simp

/-- So no string is read as a number. -/
theorem readUnsigned_ne_string {negative : Bool} {t r : Text} {s : Option Text} :
    readUnsigned negative t ≠ some (string s, r) := by
  intro h
  simp only [readUnsigned, Option.bind_eq_bind, Option.bind_eq_some_iff, Option.pure_def,
    Option.some.injEq, Prod.mk.injEq] at h
  obtain ⟨_, -, _, -, _, -, hvalue, -⟩ := h
  exact number_ne_string _ _ _ _ s hvalue

/-- A string among the values without parts is read as a string. -/
theorem readString_of_readScalar {t r : Text} {s : Option Text}
    (h : readScalar t = some (string s, r)) : readString t = some (s, r) := by
  unfold readScalar at h
  split at h
  · obtain ⟨⟨_, _⟩, hstring, heq⟩ := Option.map_eq_some_iff.mp h
    cases heq
    exact hstring
  -- a word is no string
  iterate 3
    · obtain ⟨_, -, heq⟩ := Option.map_eq_some_iff.mp h
      exact nomatch heq
  · unfold readNumber at h
    split at h <;> exact absurd h readUnsigned_ne_string

/-- A string is read as a string, not as a value of another kind. -/
theorem readString_of_readValue {fuel : Nat} {t r : Text} {s : Option Text}
    (h : readValue fuel t = some (string s, r)) : readString (Text.skipGap t) = some (s, r) := by
  rw [← readValue_skipGap] at h
  cases hskip : Text.skipGap t with
  | nil =>
    rw [hskip, readValue_nil] at h
    contradiction
  | cons c u =>
    rw [hskip] at h
    obtain ⟨fuel, rfl⟩ : ∃ n, fuel = n + 1 := by
      cases fuel with
      | zero => exact nomatch h
      | succ fuel => exact ⟨fuel, rfl⟩
    -- brackets begin values of other kinds
    by_cases harray : c = '['
    · rw [harray, readValue_array] at h
      obtain ⟨_, -, heq⟩ := Option.map_eq_some_iff.mp h
      exact nomatch heq
    by_cases hobject : c = '{'
    · rw [hobject, readValue_object] at h
      obtain ⟨_, -, heq⟩ := Option.map_eq_some_iff.mp h
      exact nomatch heq
    rw [readValue_scalar (Text.not_isGap_of_skipGap hskip) harray hobject] at h
    exact readString_of_readScalar h

namespace Member

/-- The name of a member begins with a quote. -/
theorem exists_quote (m : Member) : ∃ u, Text.skipGap m.nameText = '"' :: u := by
  obtain ⟨gap, -, hread⟩ := readValue_of_ofText? m.read_name
  -- the name stands in a text of its own
  have hvalue := hread (2 * m.nameText.length + 1) [] (by omega) (by simp)
  rw [List.append_nil] at hvalue
  exact exists_cons_of_readString (readString_of_readValue hvalue)

/-- The name of a member is read off the front of a text, with its colon. -/
theorem readName_nameText (m : Member) (t : Text) :
    readName (m.nameText ++ ':' :: t) = some (some m.name, t) := by
  obtain ⟨gap, hgap, hread⟩ := readValue_of_ofText? m.read_name
  have hvalue := hread (2 * m.nameText.length + 1) (':' :: t) (by omega) (stop_cons (by decide) t)
  -- a gap may be left behind the name, in front of the colon
  have hcolon : Text.skipGap (gap ++ ':' :: t) = ':' :: t := by
    rw [Text.skipGap_gap_append hgap, skipGap_cons (by decide)]
  simp [readName, readString_of_readValue hvalue, hcolon, Text.after]

/-- A member is read off the front of a text, but for a gap behind its value. -/
theorem read (m : Member) (fuel : Nat) (rest : Text) (hfuel : 2 * m.text.length ≤ fuel)
    (hrest : ∀ c ∈ rest.head?, ¬ goesOn c) :
    ∃ u, readMember fuel (m.text ++ rest) = some (m.entry, u) ∧
      Text.skipGap u = Text.skipGap rest := by
  obtain ⟨gap, hgap, hread⟩ := readValue_of_ofText? m.read_value
  have hlength : m.text.length = m.nameText.length + (m.valueText.length + 1) := by
    rw [text, List.length_append, List.length_cons]
  refine ⟨gap ++ rest, ?_, Text.skipGap_gap_append hgap rest⟩
  rw [readMember_eq_some_iff, text, List.append_assoc, List.cons_append]
  exact ⟨_, m.readName_nameText _, hread fuel rest (by omega) hrest⟩

end Member

/-! ### Objects -/

/-- Members are read behind the gap in front of them. -/
theorem readMembers_skipGap (fuel : Nat) (t : Text) :
    readMembers fuel (Text.skipGap t) = readMembers fuel t := by
  cases fuel with
  | zero => rfl
  | succ fuel => simp only [readMembers, readName, Text.skipGap_skipGap]

/-- What stands between the brackets of a written object is read up to the closing one. -/
theorem readBetween_objectText (members : List Member) (fuel : Nat)
    (hfuel : 2 * ([','].intercalate (members.map Member.text)).length < fuel) :
    readBetween (readMembers fuel) '}' ([','].intercalate (members.map Member.text) ++ ['}']) =
      some (members.map Member.entry, []) := by
  cases members with
  | nil => rfl
  | cons m members =>
    -- the quote of the first name does not close the object
    obtain ⟨u, hquote⟩ := m.exists_quote
    obtain ⟨v, hv⟩ := exists_intercalate_eq_append [','] m.text (members.map Member.text)
    have hskip : Text.skipGap ([','].intercalate ((m :: members).map Member.text) ++ ['}']) =
        '"' :: (u ++ ':' :: m.valueText ++ v ++ ['}']) := by
      rw [List.map_cons, hv, Member.text, List.append_assoc, List.append_assoc,
        Text.skipGap_append (by simp [hquote]), hquote]
      simp
    rw [readBetween_of_ne _ hskip (by decide), ← hskip, readMembers_skipGap]
    exact read_intercalate readMembers_succ (by decide) Member.text Member.entry (by simp)
      (fun m _ => m.read) fuel [] hfuel

/-- The members of a written object are read in the order in which they are written. -/
theorem ofText?_objectText (members : List Member) :
    ofText? (objectText members) = some (object (members.map Member.entry)) := by
  -- the two brackets leave some fuel over for what stands between them
  have hlength : (objectText members).length =
      ([','].intercalate (members.map Member.text)).length + 2 := by
    simp [objectText]
  have hvalue : readValue (2 * (objectText members).length + 1) (objectText members) =
      some (object (members.map Member.entry), []) := by
    rw [hlength, objectText, List.cons_append, readValue_object,
      readBetween_objectText members _ (by omega), Option.map_some]
  rw [ofText?, hvalue]
  rfl

end Parley.Json
