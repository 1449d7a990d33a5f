import Parley.Proofs.Json.RoundTrip
import Parley.Proofs.Text.Recognition

/-!
# Reading in front of more text

What a reader takes off a text it takes off every longer text as well, and leaves the rest of it
alone, provided that no number goes on with what is added. With more fuel nothing changes either. So
a value that is read from a text of its own is read wherever that text stands among others.

## Key results

- `Json.continues_readValue`: a value is read off a longer text, with more fuel
- `Json.readValue_of_ofText?`: the value of a text is read wherever the text stands
-/

namespace Parley

/-! ### Words and gaps -/

namespace Text

/-- What follows a word is longer by what is added. -/
theorem after_append {w t r : Text} (h : after w t = some r) (rest : Text) :
    after w (t ++ rest) = some (r ++ rest) := by
  rw [after_eq_some_iff] at h ⊢
  rw [h, List.append_assoc]

/-- What is left behind a gap does not begin with one. -/
theorem not_isGap_of_skipGap {t u : Text} {c : Char} (h : skipGap t = c :: u) : ¬ isGap c := by
  obtain ⟨-, -, hstop⟩ := takeWhile_and_dropWhile_iff (p := isGap).mp ⟨rfl, h⟩
  exact hstop c rfl

/-- Behind a gap there is no gap. -/
theorem skipGap_skipGap (t : Text) : skipGap (skipGap t) = skipGap t := by
  cases h : skipGap t with
  | nil => rfl
  | cons c u => exact Json.skipGap_cons (not_isGap_of_skipGap h) u

/-- Where something is left behind a gap, more text does not change what is left. -/
theorem skipGap_append {t : Text} (h : skipGap t ≠ []) (rest : Text) :
    skipGap (t ++ rest) = skipGap t ++ rest := by
  -- the gap ends within the text, in front of what is left
  have hne : (t.dropWhile isGap).isEmpty = false := List.isEmpty_eq_false_iff.mpr h
  rw [skipGap, List.dropWhile_append, hne, if_neg Bool.false_ne_true, skipGap]

/-- A text that is a gap runs together with the gap behind it. -/
theorem skipGap_gap_append {gap : Text} (h : skipGap gap = []) (rest : Text) :
    skipGap (gap ++ rest) = skipGap rest := by
  have hempty : (gap.dropWhile isGap).isEmpty = true := List.isEmpty_iff.mpr h
  rw [skipGap, List.dropWhile_append, hempty, if_pos rfl, skipGap]

end Text

namespace Json

/-- What the first reader takes off a text, the second one takes off every longer text, if no number
goes on with what is added. -/
def Continues {α : Type} (short long : Reader α) : Prop :=
  ∀ {t : Text} {a : α} {r : Text}, short t = some (a, r) →
    ∀ {rest : Text}, (∀ c ∈ rest.head?, ¬ goesOn c) → long (t ++ rest) = some (a, r ++ rest)

/-- If neither of two texts begins with a character of a kind, then the two together do not. -/
theorem head?_append_stop {p : Char → Prop} {r rest : Text} (hr : ∀ c ∈ r.head?, ¬ p c)
    (hrest : ∀ c ∈ rest.head?, ¬ p c) : ∀ c ∈ (r ++ rest).head?, ¬ p c := by
  cases r with
  | nil => exact hrest
  | cons c r => exact hr

/-! ### Numbers -/

/-- Digits end where they end in front of more text. -/
theorem continues_digits : Continues Text.digits Text.digits := by
  intro t ds r h rest hrest
  obtain ⟨hds, rfl, hstop⟩ := Text.digits_eq_some_iff.mp h
  refine Text.digits_eq_some_iff.mpr ⟨hds, List.append_assoc .., head?_append_stop hstop ?_⟩
  intro c hc hdigit
  exact hrest c hc (by simp [goesOn, hdigit])

/-- So do the digits in front of the point. -/
theorem continues_readWhole : Continues readWhole readWhole := by
  intro t whole r h rest hrest
  simp only [readWhole, Option.bind_eq_bind, Option.bind_eq_some_iff] at h
  obtain ⟨⟨ds, u⟩, hdigits, h⟩ := h
  split at h
  · contradiction
  · next hzero =>
    cases h
    simp [readWhole, continues_digits hdigits hrest, hzero]

/-- A fraction, or the lack of one, is the same in front of more text. -/
theorem continues_readFraction : Continues readFraction readFraction := by
  intro t fraction r h rest hrest
  unfold readFraction at h
  split at h
  · simp only [Option.bind_eq_bind, Option.bind_eq_some_iff, Option.pure_def,
      Option.some.injEq] at h
    obtain ⟨⟨ds, u⟩, hdigits, heq⟩ := h
    cases heq
    simp [readFraction, continues_digits hdigits hrest]
  · next hpoint =>
    -- there is no point, and none comes first in what is added
    cases h
    refine readFraction_of_head (head?_append_stop ?_ ?_)
    · rintro c hc rfl
      obtain ⟨u, rfl⟩ := List.head?_eq_some_iff.mp hc
      exact hpoint u rfl
    · rintro c hc rfl
      exact hrest _ hc rfl

/-- Without a sign the digits begin at once. -/
theorem readSignedDigits_of_ne {c : Char} (hplus : c ≠ '+') (hminus : c ≠ '-') (t : Text) :
    readSignedDigits (c :: t) = Text.digits (c :: t) := by
  simp [readSignedDigits, hplus, hminus]

/-- Digits with a sign or without are read off a longer text. -/
theorem continues_readSignedDigits : Continues readSignedDigits readSignedDigits := by
  intro t ds r h rest hrest
  unfold readSignedDigits at h
  split at h
  iterate 2
    · simp only [Option.bind_eq_bind, Option.bind_eq_some_iff, Option.pure_def,
        Option.some.injEq] at h
      obtain ⟨⟨ds, u⟩, hdigits, heq⟩ := h
      cases heq
      simp [readSignedDigits, continues_digits hdigits hrest]
  · next hplus hminus =>
    cases t with
    | nil => exact nomatch h
    | cons c t =>
      have hc : c ≠ '+' ∧ c ≠ '-' :=
        ⟨by rintro rfl; exact hplus t rfl, by rintro rfl; exact hminus t rfl⟩
      rw [List.cons_append, readSignedDigits_of_ne hc.1 hc.2]
      exact continues_digits h hrest

/-- An exponent, or the lack of one, is the same in front of more text. -/
theorem continues_readExponent : Continues readExponent readExponent := by
  intro t exponent r h rest hrest
  cases t with
  | nil =>
    -- nothing is left, and no exponent begins in what is added
    cases h
    refine readExponent_of_head fun c hc => ?_
    have hgoes := hrest c hc
    constructor <;> rintro rfl <;> exact hgoes rfl
  | cons c t =>
    simp only [readExponent] at h
    split at h
    · next hc =>
      simp only [Option.bind_eq_bind, Option.bind_eq_some_iff, Option.pure_def,
        Option.some.injEq] at h
      obtain ⟨⟨ds, u⟩, hdigits, heq⟩ := h
      cases heq
      simp [readExponent, hc, continues_readSignedDigits hdigits hrest]
    · next hc =>
      cases h
      simp [readExponent, hc]

/-- The parts of a number are read off a longer text one after the other. -/
theorem continues_readUnsigned (negative : Bool) :
    Continues (readUnsigned negative) (readUnsigned negative) := by
  intro t v r h rest hrest
  simp only [readUnsigned, Option.bind_eq_bind, Option.bind_eq_some_iff, Option.pure_def,
    Option.some.injEq] at h
  obtain ⟨⟨whole, _⟩, hwhole, ⟨fraction, _⟩, hfraction, ⟨exponent, _⟩, hexponent, heq⟩ := h
  cases heq
  simp [readUnsigned, continues_readWhole hwhole hrest, continues_readFraction hfraction hrest,
    continues_readExponent hexponent hrest]

/-- Without a minus sign the number begins at once. -/
theorem readNumber_of_ne {c : Char} (hminus : c ≠ '-') (t : Text) :
    readNumber (c :: t) = readUnsigned false (c :: t) := by
  simp [readNumber, hminus]

/-- A number is read off a longer text, unless it goes on there. -/
theorem continues_readNumber : Continues readNumber readNumber := by
  intro t v r h rest hrest
  unfold readNumber at h
  split at h
  · exact continues_readUnsigned true h hrest
  · next hminus =>
    cases t with
    | nil => exact nomatch h
    | cons c t =>
      have hc : c ≠ '-' := by rintro rfl; exact hminus t rfl
      rw [List.cons_append, readNumber_of_ne hc]
      exact continues_readUnsigned false h hrest

/-! ### Strings -/

/-- The pieces of a string are read off a longer text. -/
theorem continues_readPieces : Continues readPieces readPieces := by
  intro t pieces r h rest _
  -- the closing quote ends a string, so what is added does not matter here
  fun_induction readPieces t generalizing pieces r with
  | case1 => exact nomatch h
  | case2 t =>
    cases h
    rfl
  | case3 a b c d t ih =>
    simp only [Option.bind_eq_bind, Option.bind_eq_some_iff, Option.pure_def,
      Option.some.injEq] at h
    -- an escape of four digits
    obtain ⟨u, hu, ⟨others, _⟩, hothers, heq⟩ := h
    cases heq
    simp only [List.cons_append]
    rw [readPieces_unit hu, ih hothers]
    rfl
  | case4 letter t _ ih =>
    simp only [Option.bind_eq_bind, Option.bind_eq_some_iff, Option.pure_def,
      Option.some.injEq] at h
    -- an escape of one letter
    obtain ⟨c, hc, ⟨others, _⟩, hothers, heq⟩ := h
    cases heq
    simp only [List.cons_append]
    rw [readPieces_letter hc, ih hothers]
    rfl
  | case5 => exact nomatch h
  | case6 c t hquote _ hletter hcontrol ih =>
    simp only [Option.bind_eq_bind, Option.bind_eq_some_iff, Option.pure_def,
      Option.some.injEq] at h
    obtain ⟨⟨others, _⟩, hothers, heq⟩ := h
    cases heq
    -- a backslash would have a letter behind it, as the string does not end there
    have hslash : c ≠ '\\' := by
      rintro rfl
      cases t with
      | nil => exact nomatch hothers
      | cons letter t => exact hletter letter t rfl rfl
    rw [List.cons_append, readPieces_char hquote hslash (by omega), ih hothers]
    rfl

/-- A string is read off a longer text. -/
theorem continues_readString : Continues readString readString := by
  intro t s r h rest hrest
  simp only [readString, Option.bind_eq_bind, Option.bind_eq_some_iff, Option.pure_def,
    Option.some.injEq] at h
  obtain ⟨u, hquote, ⟨pieces, _⟩, hpieces, heq⟩ := h
  cases heq
  simp [readString, Text.after_append hquote, continues_readPieces hpieces hrest]

/-- A string begins with its quote. -/
theorem exists_cons_of_readString {t r : Text} {s : Option Text} (h : readString t = some (s, r)) :
    ∃ u, t = '"' :: u := by
  simp only [readString, Option.bind_eq_bind, Option.bind_eq_some_iff] at h
  obtain ⟨u, hquote, -⟩ := h
  exact ⟨u, Text.after_eq_some_iff.mp hquote⟩

/-! ### Values -/

/-- A value without parts is read off a longer text. -/
theorem continues_readScalar : Continues readScalar readScalar := by
  intro t v r h rest hrest
  unfold readScalar at h
  split at h
  · -- a string
    obtain ⟨⟨s, _⟩, hstring, heq⟩ := Option.map_eq_some_iff.mp h
    cases heq
    have hread := continues_readString hstring hrest
    rw [List.cons_append] at hread ⊢
    simp [readScalar, hread]
  -- null and the truth values
  iterate 3
    · obtain ⟨_, hword, heq⟩ := Option.map_eq_some_iff.mp h
      cases heq
      have hread := Text.after_append hword rest
      rw [List.cons_append] at hread ⊢
      simp only [readScalar, hread, Option.map_some]
  · next hquote hnull htrue hfalse =>
    cases t with
    | nil => cases h
    | cons c t =>
      -- the first character is the same, so the longer text is read as a number too
      rw [← continues_readNumber h hrest, List.cons_append]
      unfold readScalar
      split
      · next heq => cases heq; exact absurd rfl (hquote t)
      · next heq => cases heq; exact absurd rfl (hnull t)
      · next heq => cases heq; exact absurd rfl (htrue t)
      · next heq => cases heq; exact absurd rfl (hfalse t)
      · rfl

/-- The name of a member, with its colon, is read off a longer text. -/
theorem continues_readName : Continues readName readName := by
  intro t name r h rest hrest
  simp only [readName, Option.bind_eq_bind, Option.bind_eq_some_iff, Option.pure_def,
    Option.some.injEq] at h
  obtain ⟨⟨name, u⟩, hstring, v, hcolon, heq⟩ := h
  cases heq
  -- the quote stands behind the first gap, and the colon behind the second
  obtain ⟨w, hw⟩ := exists_cons_of_readString hstring
  have hu : Text.skipGap u = ':' :: r := Text.after_eq_some_iff.mp hcolon
  rw [readName, Text.skipGap_append (by simp [hw])]
  simp [continues_readString hstring hrest,
    Text.skipGap_append (show Text.skipGap u ≠ [] by simp [hu]), Text.after_append hcolon]

/-- A member is read off a longer text if its value is. -/
theorem continues_readMember {fuel more : Nat} (h : Continues (readValue fuel) (readValue more)) :
    Continues (readMember fuel) (readMember more) := by
  intro t m r hread rest hrest
  obtain ⟨u, hname, hvalue⟩ := readMember_eq_some_iff.mp hread
  exact readMember_eq_some_iff.mpr ⟨_, continues_readName hname hrest, h hvalue hrest⟩

section Parts

variable {α : Type} {part part' : Reader α} {parts parts' : Reader (List α)} {closing : Char}

/-- Parts up to their closing bracket are read off a longer text if a part is, and the parts behind
it are. -/
theorem continues_readParts (hclosing : closing ≠ ',') (hpart : Continues part part')
    (hparts : Continues parts parts') :
    Continues (readParts part parts closing) (readParts part' parts' closing) := by
  intro t items r h rest hrest
  rw [readParts_eq_some_iff hclosing] at h ⊢
  obtain ⟨a, u, hu, ⟨hskip, rfl⟩ | ⟨v, others, hskip, hothers, rfl⟩⟩ := h
  all_goals
    have happend := Text.skipGap_append (show Text.skipGap u ≠ [] by simp [hskip]) rest
    rw [hskip, List.cons_append] at happend
  · -- the closing bracket follows the part
    exact ⟨a, u ++ rest, hpart hu hrest, .inl ⟨happend, rfl⟩⟩
  · -- a comma follows it, and more parts
    exact ⟨a, u ++ rest, hpart hu hrest,
      .inr ⟨v ++ rest, others, happend, hparts hothers hrest, rfl⟩⟩

/-- So is what stands between brackets, be it nothing. -/
theorem continues_readBetween (hnil : parts [] = none) (hparts : Continues parts parts') :
    Continues (readBetween parts closing) (readBetween parts' closing) := by
  intro t items r h rest hrest
  unfold readBetween at h
  split at h
  · rw [hnil] at h
    contradiction
  · next c u hskip =>
    have happend := Text.skipGap_append (show Text.skipGap t ≠ [] by simp [hskip]) rest
    rw [hskip, List.cons_append] at happend
    split at h
    · next hclose =>
      cases h
      simp [readBetween, happend, hclose]
    · next hclose =>
      rw [readBetween_of_ne _ happend hclose]
      exact hparts h hrest

end Parts

/-- There is no value in the empty text. -/
theorem readValue_nil (fuel : Nat) : readValue fuel [] = none := by
  cases fuel <;> rfl

/-- The items of an array do not end with the text. -/
theorem readItems_nil (fuel : Nat) : readItems fuel [] = none := by
  cases fuel with
  | zero => rfl
  | succ fuel => simp [readItems_succ, readParts, readValue_nil]

/-- The members of an object do not end with the text. -/
theorem readMembers_nil (fuel : Nat) : readMembers fuel [] = none := by
  cases fuel <;> rfl

/-- A value is read behind the gap in front of it. -/
theorem readValue_skipGap (fuel : Nat) (t : Text) :
    readValue fuel (Text.skipGap t) = readValue fuel t := by
  cases fuel with
  | zero => rfl
  | succ fuel => simp only [readValue, Text.skipGap_skipGap]

/-- One level of nesting: what stands between brackets is read off a longer text. -/
theorem continues_readValue_succ {fuel more : Nat}
    (hitems : Continues (readItems fuel) (readItems more))
    (hmembers : Continues (readMembers fuel) (readMembers more)) :
    Continues (readValue (fuel + 1)) (readValue (more + 1)) := by
  intro t v r h rest hrest
  -- the first character behind the gap says which reader goes on
  rw [← readValue_skipGap] at h ⊢
  cases hskip : Text.skipGap t with
  | nil =>
    rw [hskip, readValue_nil] at h
    contradiction
  | cons c u =>
    rw [Text.skipGap_append (by simp [hskip]), hskip, List.cons_append]
    rw [hskip] at h
    by_cases harray : c = '['
    · subst harray
      rw [readValue_array] at h ⊢
      obtain ⟨⟨items, _⟩, hread, heq⟩ := Option.map_eq_some_iff.mp h
      cases heq
      rw [continues_readBetween (readItems_nil fuel) hitems hread hrest, Option.map_some]
    by_cases hobject : c = '{'
    · subst hobject
      rw [readValue_object] at h ⊢
      obtain ⟨⟨members, _⟩, hread, heq⟩ := Option.map_eq_some_iff.mp h
      cases heq
      rw [continues_readBetween (readMembers_nil fuel) hmembers hread hrest, Option.map_some]
    have hgap := Text.not_isGap_of_skipGap hskip
    rw [readValue_scalar hgap harray hobject] at h ⊢
    exact continues_readScalar h hrest

/-- A value, the items of an array and the members of an object are read off a longer text, and
with more fuel. -/
theorem continues_readers (fuel : Nat) : ∀ more, fuel ≤ more →
    Continues (readValue fuel) (readValue more) ∧ Continues (readItems fuel) (readItems more) ∧
      Continues (readMembers fuel) (readMembers more) := by
  induction fuel with
  | zero => exact fun more _ => ⟨nofun, nofun, nofun⟩
  | succ fuel ih =>
    intro more hmore
    -- every reader spends one unit of fuel and goes on with the others
    obtain ⟨more, rfl⟩ := Nat.exists_eq_add_one_of_ne_zero (n := more) (by omega)
    obtain ⟨hvalue, hitems, hmembers⟩ := ih more (by omega)
    refine ⟨continues_readValue_succ hitems hmembers, ?_, ?_⟩
    · rw [readItems_succ, readItems_succ]
      exact continues_readParts (by decide) hvalue hitems
    · rw [readMembers_succ, readMembers_succ]
      exact continues_readParts (by decide) (continues_readMember hvalue) hmembers

/-- A value is read off a longer text, and with more fuel. -/
theorem continues_readValue {fuel more : Nat} (h : fuel ≤ more) :
    Continues (readValue fuel) (readValue more) :=
  (continues_readers fuel more h).1

/-- The value of a text is read wherever the text stands, but for a gap at its end. -/
theorem readValue_of_ofText? {t : Text} {v : Json} (h : ofText? t = some v) :
    ∃ gap, Text.skipGap gap = [] ∧ ∀ (fuel : Nat) (rest : Text), 2 * t.length < fuel →
      (∀ c ∈ rest.head?, ¬ goesOn c) → readValue fuel (t ++ rest) = some (v, gap ++ rest) := by
  simp only [ofText?, Option.bind_eq_bind, Option.bind_eq_some_iff] at h
  obtain ⟨⟨v, gap⟩, hread, h⟩ := h
  split at h
  · next hgap =>
    cases h
    -- the text of its own has less fuel, and nothing behind it
    exact ⟨gap, List.isEmpty_iff.mp hgap, fun fuel rest hfuel hrest =>
      continues_readValue (by omega) hread hrest⟩
  · contradiction

end Json

end Parley
