import Parley.Proofs.List
import Parley.Proofs.Json.Scalar

/-!
# Values are read back

The compact text of a value gives the value back. A value is read back wherever its text stands in
front of a comma, a closing bracket or the end, and by induction so is everything that is made of
such values. A number that is no integer is left out: its spelling need not be that of a number.

## Key results

- `Json.read_intercalate`: parts with commas between them are read back
- `Json.Integral.readBack`: a value is read off the front of a text that begins with it
- `Json.ofText?_compact`: the compact text of a value gives the value
-/

namespace Parley.Json

/-- All numbers of a value are integers, at every level. -/
inductive Integral : Json → Prop where
  | null : Integral null
  | bool (b : Bool) : Integral (bool b)
  | integer (n : Int) : Integral (integer n)
  | string (t : Option Text) : Integral (string t)
  | array {items : List Json} (h : ∀ item ∈ items, Integral item) : Integral (array items)
  | object {members : List (Option Text × Json)} (h : ∀ m ∈ members, Integral m.2) :
      Integral (object members)

/-- A value is read off the front of a text that begins with its compact text, if no number goes on
with what follows. -/
structure ReadBack (v : Json) : Prop where
  /-- The text is not taken for the end of an array. -/
  head : ∃ c t, compact v = c :: t ∧ ¬ Text.isGap c ∧ c ≠ ']'
  /-- Two units of fuel for each character are enough. -/
  read : ∀ (fuel : Nat) (rest : Text), 2 * (compact v).length ≤ fuel →
    (∀ c ∈ rest.head?, ¬ goesOn c) → readValue fuel (compact v ++ rest) = some (v, rest)

/-- No gap is skipped in front of a character that is none. -/
theorem skipGap_cons {c : Char} (h : ¬ Text.isGap c) (t : Text) :
    Text.skipGap (c :: t) = c :: t :=
  List.dropWhile_cons_of_neg h

/-- A text does not go on with a number if its first character does not. -/
theorem stop_cons {c : Char} (h : ¬ goesOn c) (t : Text) : ∀ d ∈ (c :: t).head?, ¬ goesOn d := by
  simpa using h

/-! ### Scalars -/

/-- A value that begins with no bracket is read as one without parts. -/
theorem readValue_scalar {c : Char} (hgap : ¬ Text.isGap c) (harray : c ≠ '[') (hobject : c ≠ '{')
    (fuel : Nat) (t : Text) : readValue (fuel + 1) (c :: t) = readScalar (c :: t) := by
  simp [readValue, skipGap_cons hgap, harray, hobject]

/-- A value that begins with no bracket is read as a scalar. -/
theorem ReadBack.of_readScalar {v : Json} {c : Char} {t : Text} (hv : compact v = c :: t)
    (hgap : ¬ Text.isGap c) (hbracket : c ∉ ['[', ']', '{'])
    (hread : ∀ {rest : Text}, (∀ c ∈ rest.head?, ¬ goesOn c) →
      readScalar (compact v ++ rest) = some (v, rest)) : ReadBack v := by
  simp only [List.mem_cons, List.not_mem_nil, or_false, not_or] at hbracket
  obtain ⟨harray, hclose, hobject⟩ := hbracket
  refine ⟨⟨c, t, hv, hgap, hclose⟩, fun fuel rest hfuel hrest => ?_⟩
  have hscalar := hread hrest
  rw [hv] at hfuel
  rw [hv, List.cons_append] at hscalar ⊢
  -- the text is not empty, so there is fuel
  cases fuel with
  | zero => simp at hfuel
  | succ fuel => rw [readValue_scalar hgap harray hobject, hscalar]

/-- A string is read back. -/
theorem readBack_string (s : Option Text) : ReadBack (string s) := by
  obtain ⟨t, ht⟩ := exists_quote_eq_cons s
  have hcompact : compact (string s) = '"' :: t := by simp only [compact, scalar, ht]
  refine .of_readScalar hcompact (by decide) (by decide) fun {rest} _ => ?_
  have hread := readString_quote s rest
  rw [ht, List.cons_append] at hread
  rw [hcompact, List.cons_append]
  simp [readScalar, hread]

/-- An integer is read back. -/
theorem readBack_integer (n : Int) : ReadBack (integer n) := by
  obtain ⟨c, t, ht, hc⟩ := exists_ofInt_eq_cons n
  have hcompact : compact (integer n) = c :: t := by simp only [compact, scalar, ht]
  -- a digit or a minus sign is no bracket
  have hbracket : c ∉ ['[', ']', '{'] := fun hmem => by
    simp only [List.mem_cons, List.not_mem_nil, or_false] at hmem
    rcases hmem with rfl | rfl | rfl <;> exact absurd hc (by decide)
  refine .of_readScalar hcompact (not_isGap_of_beginsNumber hc) hbracket fun {rest} hrest => ?_
  have hread := readNumber_ofInt n hrest
  rw [ht, List.cons_append] at hread
  rw [hcompact, List.cons_append, readScalar_number hc, hread]

/-! ### Parts of a value -/

/-- Reads one part, and behind it either the closing bracket or a comma and the parts left. -/
def readParts {α : Type} (part : Reader α) (parts : Reader (List α)) (closing : Char) :
    Reader (List α) := fun t => do
  let (a, t) ← part t
  match Text.skipGap t with
  | [] => none
  | c :: t =>
    if c = ',' then (parts t).map (Prod.map (a :: ·) id)
    else if c = closing then some ([a], t)
    else none

/-- What the reader of parts has found: a part, and behind it either the closing bracket or a comma
and more parts. -/
theorem readParts_eq_some_iff {α : Type} {part : Reader α} {parts : Reader (List α)}
    {closing : Char} (hclosing : closing ≠ ',') {t rest : Text} {items : List α} :
    readParts part parts closing t = some (items, rest) ↔ ∃ a u, part t = some (a, u) ∧
      ((Text.skipGap u = closing :: rest ∧ items = [a]) ∨
        ∃ v others, Text.skipGap u = ',' :: v ∧ parts v = some (others, rest) ∧
          items = a :: others) := by
  simp only [readParts, Option.bind_eq_bind, Option.bind_eq_some_iff]
  constructor
  · rintro ⟨⟨a, u⟩, hpart, hbehind⟩
    refine ⟨a, u, hpart, ?_⟩
    split at hbehind
    · contradiction
    · next c v hskip =>
      split_ifs at hbehind with hcomma hclose
      · obtain ⟨⟨others, r⟩, hothers, heq⟩ := Option.map_eq_some_iff.mp hbehind
        cases heq
        exact .inr ⟨v, others, by rw [hskip, hcomma], hothers, rfl⟩
      · cases hbehind
        exact .inl ⟨by rw [hskip, hclose], rfl⟩
  · rintro ⟨a, u, hpart, ⟨hskip, rfl⟩ | ⟨v, others, hskip, hothers, rfl⟩⟩
    · exact ⟨(a, u), hpart, by simp [hskip, hclosing]⟩
    · exact ⟨(a, u), hpart, by simp [hskip, hothers]⟩

/-- If every part is read off its text, up to a gap behind it, then so are the parts with commas
between them, up to the closing bracket. -/
theorem read_intercalate {α β : Type} {part : Nat → Reader β} {parts : Nat → Reader (List β)}
    {closing : Char} (hsucc : ∀ fuel, parts (fuel + 1) = readParts (part fuel) (parts fuel) closing)
    (hclosing : ¬ goesOn closing ∧ closing ≠ ',' ∧ ¬ Text.isGap closing)
    (text : α → Text) (value : α → β) {items : List α} (hne : items ≠ [])
    (hpart : ∀ a ∈ items, ∀ (fuel : Nat) (rest : Text), 2 * (text a).length ≤ fuel →
      (∀ c ∈ rest.head?, ¬ goesOn c) →
        ∃ u, part fuel (text a ++ rest) = some (value a, u) ∧ Text.skipGap u = Text.skipGap rest)
    (fuel : Nat) (rest : Text) (hfuel : 2 * ([','].intercalate (items.map text)).length < fuel) :
    parts fuel ([','].intercalate (items.map text) ++ closing :: rest) =
      some (items.map value, rest) := by
  obtain ⟨hstop, hcomma, hgap⟩ := hclosing
  induction items generalizing fuel with
  | nil => exact absurd rfl hne
  | cons a items ih =>
    obtain ⟨fuel, rfl⟩ := Nat.exists_eq_add_one_of_ne_zero (Nat.ne_zero_of_lt hfuel)
    have hread := hpart a List.mem_cons_self fuel
    rw [hsucc, readParts_eq_some_iff hcomma]
    cases items with
    | nil =>
      rw [List.map_singleton, List.intercalate_singleton] at hfuel ⊢
      obtain ⟨u, hu, hskip⟩ := hread _ (by omega) (stop_cons hstop rest)
      exact ⟨value a, u, hu, .inl ⟨hskip.trans (skipGap_cons hgap rest), rfl⟩⟩
    | cons next items =>
      have hsplit : [','].intercalate ((a :: next :: items).map text) =
          text a ++ ',' :: [','].intercalate ((next :: items).map text) := by
        simp [List.intercalate_cons_cons]
      -- the part and its comma pay for this step, so there is fuel for the others
      rw [hsplit, List.length_append, List.length_cons] at hfuel
      rw [hsplit, List.append_assoc, List.cons_append]
      have hothers := ih (by simp) (fun b hb => hpart b (List.mem_cons_of_mem _ hb)) fuel
        (by omega)
      obtain ⟨u, hu, hskip⟩ := hread _ (by omega) (stop_cons (show ¬ goesOn ',' by decide) _)
      exact ⟨value a, u, hu, .inr ⟨_, _, hskip.trans (skipGap_cons (by decide) _), hothers, rfl⟩⟩

/-- Reads parts up to their closing bracket; there may be none. -/
def readBetween {α : Type} (parts : Reader (List α)) (closing : Char) : Reader (List α) := fun t =>
  match Text.skipGap t with
  | [] => parts []
  | c :: t => if c = closing then some ([], t) else parts (c :: t)

/-- Where something else stands than the closing bracket, there are parts. -/
theorem readBetween_of_ne {α : Type} (parts : Reader (List α)) {closing c : Char} {t u : Text}
    (hskip : Text.skipGap t = c :: u) (hc : c ≠ closing) :
    readBetween parts closing t = parts (c :: u) := by
  simp [readBetween, hskip, hc]

/-! ### Arrays -/

/-- The items of an array are written one by one. -/
theorem compactItems_eq_map (items : List Json) : compactItems items = items.map compact := by
  induction items with
  | nil => rfl
  | cons item rest ih => rw [compactItems, ih, List.map_cons]

/-- The items of an array are parts up to a square bracket. -/
theorem readItems_succ (fuel : Nat) :
    readItems (fuel + 1) = readParts (readValue fuel) (readItems fuel) ']' := by
  funext t
  simp only [readItems, readParts, Option.bind_eq_bind]
  refine Option.bind_congr fun ⟨item, u⟩ _ => ?_
  -- both readers look at the first character behind the gap
  cases hskip : Text.skipGap u with
  | nil => simp
  | cons c v =>
    by_cases hcomma : c = ','
    · subst hcomma
      cases hothers : readItems fuel v <;> simp [hothers, Prod.map]
    · by_cases hclose : c = ']' <;> simp [hcomma, hclose]

/-- Behind an opening square bracket stand the items of an array. -/
theorem readValue_array (fuel : Nat) (t : Text) : readValue (fuel + 1) ('[' :: t) =
    (readBetween (readItems fuel) ']' t).map fun (items, rest) => (array items, rest) := by
  simp only [readValue, readBetween, skipGap_cons (show ¬ Text.isGap '[' by decide)]
  cases hskip : Text.skipGap t with
  | nil => rfl
  | cons c v => by_cases hclose : c = ']' <;> simp [hclose]

/-- An array is read back if its items are. -/
theorem readBack_array {items : List Json} (h : ∀ item ∈ items, ReadBack item) :
    ReadBack (array items) := by
  have hcompact : compact (array items) =
      '[' :: ([','].intercalate (items.map compact) ++ [']']) := by
    rw [compact, compactItems_eq_map, List.cons_append]
  refine ⟨⟨'[', _, hcompact, by decide, by decide⟩, fun fuel rest hfuel _ => ?_⟩
  rw [hcompact, List.length_cons, List.length_append, List.length_singleton] at hfuel
  obtain ⟨fuel, rfl⟩ := Nat.exists_eq_add_one_of_ne_zero (n := fuel) (by omega)
  rw [hcompact, List.cons_append, List.append_assoc, List.singleton_append]
  cases items with
  | nil => rfl
  | cons item items =>
    have hread := read_intercalate readItems_succ (by decide) compact id (by simp)
      (fun item hitem fuel rest hfuel hrest =>
        ⟨rest, (h item hitem).read fuel rest hfuel hrest, rfl⟩)
      fuel rest (by omega)
    rw [List.map_id] at hread
    -- the first item does not close the array, so the reader goes on to the items
    obtain ⟨c, t, hc, hgap, hclose⟩ := (h item List.mem_cons_self).head
    obtain ⟨u, hu⟩ := exists_intercalate_eq_append [','] (compact item) (items.map compact)
    rw [List.map_cons, hu, hc, List.cons_append, List.cons_append] at hread ⊢
    rw [readValue_array, readBetween_of_ne _ (skipGap_cons hgap _) hclose, hread, Option.map_some]

/-! ### Objects -/

/-- What is written for a member. -/
def memberText (m : Option Text × Json) : Text :=
  quote m.1 ++ ':' :: compact m.2

/-- The members of an object are written one by one. -/
theorem compactMembers_eq_map (members : List (Option Text × Json)) :
    compactMembers members = members.map memberText := by
  induction members with
  | nil => rfl
  | cons m rest ih => rw [compactMembers, ih, List.map_cons, memberText]

/-- Reads a member. -/
def readMember (fuel : Nat) : Reader (Option Text × Json) := fun t => do
  let (name, t) ← readName t
  let (value, t) ← readValue fuel t
  return ((name, value), t)

/-- A member is a name and the value behind it. -/
theorem readMember_eq_some_iff {fuel : Nat} {t rest : Text} {m : Option Text × Json} :
    readMember fuel t = some (m, rest) ↔
      ∃ u, readName t = some (m.1, u) ∧ readValue fuel u = some (m.2, rest) := by
  simp only [readMember, Option.bind_eq_bind, Option.bind_eq_some_iff]
  constructor
  · rintro ⟨⟨name, u⟩, hname, ⟨value, _⟩, hvalue, ⟨⟩⟩
    exact ⟨u, hname, hvalue⟩
  · rintro ⟨u, hname, hvalue⟩
    exact ⟨(m.1, u), hname, (m.2, rest), hvalue, rfl⟩

/-- The members of an object are parts up to a curly bracket. -/
theorem readMembers_succ (fuel : Nat) :
    readMembers (fuel + 1) = readParts (readMember fuel) (readMembers fuel) '}' := by
  funext t
  simp only [readMembers, readParts, readMember, Option.bind_eq_bind, Option.bind_assoc]
  -- the name and the value are read alike on both sides
  refine Option.bind_congr fun ⟨name, u⟩ _ => Option.bind_congr fun ⟨value, v⟩ _ => ?_
  simp only [Option.pure_def, Option.bind_some]
  cases hskip : Text.skipGap v with
  | nil => simp
  | cons c w =>
    by_cases hcomma : c = ','
    · subst hcomma
      cases hothers : readMembers fuel w <;> simp [hothers, Prod.map]
    · by_cases hclose : c = '}' <;> simp [hcomma, hclose]

/-- A quoted name is read back, with its colon. -/
theorem readName_quote (name : Option Text) (t : Text) :
    readName (quote name ++ ':' :: t) = some (name, t) := by
  obtain ⟨w, hw⟩ := exists_quote_eq_cons name
  have hread := readString_quote name (':' :: t)
  have hgap : Text.skipGap (quote name ++ ':' :: t) = quote name ++ ':' :: t := by
    rw [hw, List.cons_append, skipGap_cons (by decide)]
  simp [readName, hgap, hread, skipGap_cons (show ¬ Text.isGap ':' by decide), Text.after]

/-- A member is read back if its value is. -/
theorem readMember_memberText {m : Option Text × Json} (h : ReadBack m.2) (fuel : Nat)
    (rest : Text) (hfuel : 2 * (memberText m).length ≤ fuel)
    (hrest : ∀ c ∈ rest.head?, ¬ goesOn c) :
    readMember fuel (memberText m ++ rest) = some (m, rest) := by
  -- the text of the value is a part of that of the member, so the fuel is enough
  have hlength : (compact m.2).length ≤ (memberText m).length := by
    rw [memberText, List.length_append, List.length_cons]
    omega
  rw [readMember_eq_some_iff, memberText, List.append_assoc, List.cons_append]
  exact ⟨_, readName_quote m.1 _, h.read fuel rest (by omega) hrest⟩

/-- Behind an opening curly bracket stand the members of an object. -/
theorem readValue_object (fuel : Nat) (t : Text) : readValue (fuel + 1) ('{' :: t) =
    (readBetween (readMembers fuel) '}' t).map fun (members, rest) => (object members, rest) := by
  simp only [readValue, readBetween, skipGap_cons (show ¬ Text.isGap '{' by decide)]
  cases hskip : Text.skipGap t with
  | nil => rfl
  | cons c v => by_cases hclose : c = '}' <;> simp [hclose]

/-- An object is read back if the values of its members are. -/
theorem readBack_object {members : List (Option Text × Json)} (h : ∀ m ∈ members, ReadBack m.2) :
    ReadBack (object members) := by
  have hcompact : compact (object members) =
      '{' :: ([','].intercalate (members.map memberText) ++ ['}']) := by
    rw [compact, compactMembers_eq_map, List.cons_append]
  refine ⟨⟨'{', _, hcompact, by decide, by decide⟩, fun fuel rest hfuel _ => ?_⟩
  rw [hcompact, List.length_cons, List.length_append, List.length_singleton] at hfuel
  obtain ⟨fuel, rfl⟩ := Nat.exists_eq_add_one_of_ne_zero (n := fuel) (by omega)
  rw [hcompact, List.cons_append, List.append_assoc, List.singleton_append]
  cases members with
  | nil => rfl
  | cons m members =>
    have hread := read_intercalate readMembers_succ (by decide) memberText id (by simp)
      (fun m hm fuel rest hfuel hrest =>
        ⟨rest, readMember_memberText (h m hm) fuel rest hfuel hrest, rfl⟩)
      fuel rest (by omega)
    rw [List.map_id] at hread
    -- the quote of the first name does not close the object
    obtain ⟨t, ht⟩ := exists_quote_eq_cons m.1
    obtain ⟨u, hu⟩ := exists_intercalate_eq_append [','] (memberText m) (members.map memberText)
    rw [List.map_cons, hu, memberText, ht, List.cons_append, List.cons_append,
      List.cons_append] at hread ⊢
    rw [readValue_object, readBetween_of_ne _ (skipGap_cons (by decide) _) (by decide), hread,
      Option.map_some]

/-! ### Whole values -/

/-- Values all of whose numbers are integers are read back. -/
theorem Integral.readBack {v : Json} (h : Integral v) : ReadBack v := by
  induction h with
  | null => exact .of_readScalar (c := 'n') rfl (by decide) (by decide) fun _ => rfl
  | bool b =>
    cases b with
    | false => exact .of_readScalar (c := 'f') rfl (by decide) (by decide) fun _ => rfl
    | true => exact .of_readScalar (c := 't') rfl (by decide) (by decide) fun _ => rfl
  | integer n => exact readBack_integer n
  | string t => exact readBack_string t
  | array _ ih => exact readBack_array ih
  | object _ ih => exact readBack_object ih

/-- The compact text of a value is a text of that value. -/
theorem ofText?_compact {v : Json} (h : Integral v) : ofText? (compact v) = some v := by
  -- the value is read back with nothing behind it
  have hread : readValue (2 * (compact v).length + 1) (compact v ++ []) = some (v, []) :=
    h.readBack.read _ [] (by omega) (by simp)
  rw [List.append_nil] at hread
  rw [ofText?, hread]
  rfl

end Parley.Json
