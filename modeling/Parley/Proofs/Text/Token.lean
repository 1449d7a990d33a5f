import Mathlib.Data.List.TakeWhile
import Parley.Game
import Parley.Statement.Canonical

/-!
# Tokens at the front of a text

A token is a piece of a text without blanks in it. Trimming stops in front of one, and the reader of
keywords takes a run of capital letters as a whole.

## Key results

- `trim_eq_self_of_ends`: a text without a blank at either end is left alone by trimming
- `trim_eq_self`: so is a text that begins and ends with a token
- `trim_surround`: blanks around a text are trimmed away
- `trim_token_append`: a text behind a token and a space survives trimming
- `takeWhile_and_dropWhile_iff`: where a run of characters ends
- `keyword_eq_some_iff`: what the reader of keywords takes, and where it stops
- `trim_token_append_append`: how a text is trimmed when a token stands in front
- `skipGap_blank_append`: when the blanks in front of a text are a gap
- `isKeyword_spell`: the words of the vocabularies are keywords
-/

namespace Parley

namespace Text

/-! ### Blanks and gaps -/

/-- Trimming stops at once in front of a character that is no blank. -/
theorem trimStart_of_head {t : Text} (h : ∀ c ∈ t.head?, ¬ isBlank c) : trimStart t = t := by
  cases t with
  | nil => rfl
  | cons c t =>
    have hc : isBlank c = false := by simpa using h
    simp [trimStart, hc]

/-- A piece of text that is written and read as a whole: it has characters, and no blanks. -/
def IsToken (w : Text) : Prop :=
  w ≠ [] ∧ ∀ c ∈ w, ¬ isBlank c

instance (w : Text) : Decidable (IsToken w) :=
  decidable_of_decidable_of_iff (p := w ≠ [] ∧ w.all fun c => !isBlank c) (by simp [IsToken])

/-- A text that begins with a token begins without a blank. -/
theorem IsToken.not_isBlank_head {w : Text} (hw : IsToken w) (rest : Text) :
    ∀ c ∈ (w ++ rest).head?, ¬ isBlank c := by
  obtain ⟨hne, hblank⟩ := hw
  cases w with
  | nil => exact absurd rfl hne
  | cons c w => simpa using hblank c List.mem_cons_self

/-- A text without a blank at either end is not changed by trimming. -/
theorem trim_eq_self_of_ends {t : Text} (hfirst : ∀ c ∈ t.head?, ¬ isBlank c)
    (hlast : ∀ c ∈ t.getLast?, ¬ isBlank c) : trim t = t := by
  -- trimming at the end is trimming the reversed text, which begins with the last character
  have hrev : trimStart t.reverse = t.reverse := by
    apply trimStart_of_head
    rwa [List.head?_reverse]
  rw [trim, trimStart_of_head hfirst, trimEnd, ← trimStart, hrev, List.reverse_reverse]

/-- A text that begins and ends with a token is not changed by trimming. -/
theorem trim_eq_self {front rest before back : Text} (hfront : IsToken front)
    (hback : IsToken back) (heq : front ++ rest = before ++ back) :
    trim (front ++ rest) = front ++ rest := by
  refine trim_eq_self_of_ends (hfront.not_isBlank_head rest) ?_
  have hlast : (before ++ back).getLast? = some (back.getLast hback.1) := by
    rw [List.getLast?_append, List.getLast?_eq_some_getLast hback.1, Option.some_or]
  -- seen from its end, the text ends in the other token
  rw [heq, hlast]
  rintro c ⟨⟩
  exact hback.2 _ (List.getLast_mem hback.1)

/-- A token is left alone by trimming. -/
theorem IsToken.trim_eq {w : Text} (hw : IsToken w) : trim w = w := by
  -- the token stands at both ends of the text
  have hends : w ++ [] = [] ++ w := (List.append_nil w).trans (List.nil_append w).symm
  have htrim : trim (w ++ []) = w ++ [] := trim_eq_self hw hw hends
  rwa [List.append_nil] at htrim

/-- Blanks at the end of a text are trimmed away. -/
theorem trimEnd_append_of_blank (t : Text) {back : Text} (h : ∀ c ∈ back, isBlank c) :
    trimEnd (t ++ back) = trimEnd t := by
  have hrev : ∀ c ∈ back.reverse, isBlank c := by simpa using h
  rw [trimEnd, List.reverse_append, List.dropWhile_append_of_pos hrev, ← trimEnd]

/-- Blanks around a text are trimmed away, whatever the text is. -/
theorem trim_surround {front back : Text} (hfront : ∀ c ∈ front, isBlank c) (t : Text)
    (hback : ∀ c ∈ back, isBlank c) : trim (front ++ t ++ back) = trim t := by
  have hstart : trimStart (front ++ t ++ back) = trimStart (t ++ back) := by
    rw [List.append_assoc, trimStart, List.dropWhile_append_of_pos hfront, ← trimStart]
  have hend : trimEnd (trimStart (t ++ back)) = trimEnd (trimStart t) := by
    rw [trimStart, List.dropWhile_append, ← trimStart]
    split
    · -- the text is blank itself, and nothing is left on either side
      next hblank =>
      rw [List.isEmpty_iff.mp hblank, List.dropWhile_eq_nil_iff.mpr hback]
    · exact trimEnd_append_of_blank _ hback
  rw [trim, hstart, hend, ← trim]

/-! ### Keywords -/

/-- A word that the reader of keywords takes as a whole: upper-case letters, and at least one. -/
def IsKeyword (w : Text) : Prop :=
  w ≠ [] ∧ ∀ c ∈ w, c.isUpper

instance (w : Text) : Decidable (IsKeyword w) :=
  decidable_of_decidable_of_iff (p := w ≠ [] ∧ w.all Char.isUpper) (by simp [IsKeyword])

/-- The code points of the upper-case letters. -/
theorem toNat_of_isUpper {c : Char} (h : c.isUpper) : 65 ≤ c.toNat ∧ c.toNat ≤ 90 := by
  have hbounds : c.val ≥ 'A'.val ∧ c.val ≤ 'Z'.val := of_decide_eq_true h
  simpa [UInt32.le_iff_toNat_le] using hbounds

/-- No upper-case letter is a blank. -/
theorem not_isBlank_of_isUpper {c : Char} (h : c.isUpper) : ¬ isBlank c := by
  have hrange := toNat_of_isUpper h
  simp only [isBlank, Bool.or_eq_true, Bool.and_eq_true, decide_eq_true_eq, beq_iff_eq]
  omega

/-- A keyword is a token. -/
theorem IsKeyword.isToken {w : Text} (hw : IsKeyword w) : IsToken w :=
  ⟨hw.1, fun c hc => not_isBlank_of_isUpper (hw.2 c hc)⟩

/-- A text splits in one way into a run of characters of a kind and a rest that does not go on with
that kind. -/
theorem takeWhile_and_dropWhile_iff {p : Char → Bool} {t w rest : Text} :
    (t.takeWhile p = w ∧ t.dropWhile p = rest) ↔
      (∀ c ∈ w, p c) ∧ t = w ++ rest ∧ ∀ c ∈ rest.head?, ¬ p c := by
  constructor
  · rintro ⟨rfl, rfl⟩
    refine ⟨fun c hc => List.mem_takeWhile_imp hc, List.takeWhile_append_dropWhile.symm, ?_⟩
    intro c hc
    have hstop := List.head?_dropWhile_not p t
    rw [Option.mem_def.mp hc] at hstop
    simpa using hstop
  · rintro ⟨hw, rfl, hrest⟩
    -- the run goes through the word and stops at the rest
    have hstop : rest.takeWhile p = [] ∧ rest.dropWhile p = rest := by
      cases rest with
      | nil => simp
      | cons c r =>
        have hc : p c = false := by simpa using hrest
        simp [hc]
    rw [List.takeWhile_append_of_pos hw, List.dropWhile_append_of_pos hw, hstop.1, hstop.2,
      List.append_nil]
    exact ⟨rfl, rfl⟩

/-- The reader of keywords takes a keyword that does not go on in the rest. -/
theorem keyword_eq_some_iff {t w rest : Text} :
    keyword t = some (w, rest) ↔
      w.IsKeyword ∧ t = w ++ rest ∧ ∀ c ∈ rest.head?, ¬ c.isUpper := by
  unfold keyword
  constructor
  · intro h
    split at h
    · exact nomatch h
    · next hne =>
      cases h
      obtain ⟨hupper, htext, hstop⟩ := takeWhile_and_dropWhile_iff.mp ⟨rfl, rfl⟩
      exact ⟨⟨hne, hupper⟩, htext, hstop⟩
  · rintro ⟨⟨hne, hupper⟩, htext, hstop⟩
    -- conversely, the longest run is the keyword, and so it is not empty
    obtain ⟨htake, hdrop⟩ := takeWhile_and_dropWhile_iff.mpr ⟨hupper, htext, hstop⟩
    rw [htake, hdrop]
    split
    · contradiction
    · rfl

/-- A single space in front of a text is a gap of its own. -/
theorem skipGap_space {t : Text} (h : ∀ c ∈ t.head?, ¬ isBlank c) : skipGap (' ' :: t) = t := by
  have hstop : ∀ c ∈ t.head?, ¬ isGap c := fun c hc hgap => h c hc (isBlank_of_isGap hgap)
  have hspace : ∀ c ∈ [' '], isGap c := List.forall_mem_singleton.mpr (by decide)
  exact (takeWhile_and_dropWhile_iff.mpr ⟨hspace, rfl, hstop⟩).2

/-- Behind a token and a space, a text that begins and ends without a blank is left as it is when
the whole is trimmed. Of the space nothing is left if there is no text. -/
theorem trim_token_append {w t : Text} (hw : IsToken w) (hfirst : ∀ c ∈ t.head?, ¬ isBlank c)
    (hlast : ∀ c ∈ t.getLast?, ¬ isBlank c) :
    ∃ rest, trim (w ++ ' ' :: t) = w ++ rest ∧ skipGap rest = t := by
  cases t with
  | nil =>
    -- nothing follows the space, so it is trimmed away
    have hspace : ∀ c ∈ [' '], isBlank c := List.forall_mem_singleton.mpr (by decide)
    have htrim : trim (w ++ [' ']) = trim w := trim_surround (List.forall_mem_nil _) w hspace
    exact ⟨[], by rw [htrim, hw.trim_eq, List.append_nil], rfl⟩
  | cons c t =>
    -- the text behind the space is the end of the whole
    have hend : (w ++ ' ' :: c :: t).getLast? = (c :: t).getLast? := by
      rw [List.append_cons, List.getLast?_append, List.getLast?_cons, Option.some_or]
    rw [← hend] at hlast
    exact ⟨' ' :: c :: t, trim_eq_self_of_ends (hw.not_isBlank_head _) hlast, skipGap_space hfirst⟩

/-! ### Trimming behind a token -/

/-- What trimming cuts off the end of a text are blanks, and it leaves none there. -/
theorem exists_trimEnd_append (t : Text) :
    ∃ back, (∀ c ∈ back, isBlank c) ∧ (∀ c ∈ (trimEnd t).getLast?, ¬ isBlank c) ∧
      t = trimEnd t ++ back := by
  -- trimming at the end is cutting a run of blanks off the reversed text
  obtain ⟨hblank, htext, hstop⟩ := takeWhile_and_dropWhile_iff.mp
    (⟨rfl, rfl⟩ : t.reverse.takeWhile isBlank = _ ∧ t.reverse.dropWhile isBlank = _)
  refine ⟨(t.reverse.takeWhile isBlank).reverse, by simpa using hblank, ?_, ?_⟩
  · rwa [trimEnd, List.getLast?_reverse]
  · rw [trimEnd, ← List.reverse_append, ← htext, List.reverse_reverse]

/-- Trimming cuts off both ends only. -/
theorem trim_infix (t : Text) : trim t <:+: t := by
  obtain ⟨back, -, -, hback⟩ := exists_trimEnd_append (trimStart t)
  refine ⟨t.takeWhile isBlank, back, ?_⟩
  rw [trim, List.append_assoc, ← hback]
  exact List.takeWhile_append_dropWhile

/-- Trimming leaves a text alone if and only if there is no blank at either end. -/
theorem trim_eq_self_iff {t : Text} :
    trim t = t ↔ (∀ c ∈ t.head?, ¬ isBlank c) ∧ ∀ c ∈ t.getLast?, ¬ isBlank c := by
  constructor
  · intro h
    obtain ⟨back, -, hlast, -⟩ := exists_trimEnd_append (trimStart t)
    rw [← trim, h] at hlast
    refine ⟨?_, hlast⟩
    -- without a blank at its front the text would be shorter
    rintro c hc hblank
    obtain ⟨rest, rfl⟩ := List.head?_eq_some_iff.mp hc
    have hdrop : trim (c :: rest) = trim rest := by simp [trim, trimStart, hblank]
    have hlength := (Text.trim_infix rest).length_le
    rw [← hdrop, h, List.length_cons] at hlength
    omega
  · rintro ⟨hfirst, hlast⟩
    exact trim_eq_self_of_ends hfirst hlast

/-- A text whose first character is known to be no blank begins without a blank. -/
theorem not_isBlank_of_head? {t : Text} {c : Char} (hfirst : t.head? = some c)
    (hc : ¬ isBlank c) : ∀ d ∈ t.head?, ¬ isBlank d := by
  rw [hfirst]
  rintro d ⟨⟩
  exact hc

/-- A text that begins without a blank begins so when its end is trimmed. -/
theorem head?_trimEnd {t : Text} {c : Char} (hfirst : t.head? = some c) (hc : ¬ isBlank c) :
    (trimEnd t).head? = some c := by
  obtain ⟨back, hback, -, htext⟩ := exists_trimEnd_append t
  rw [htext, List.head?_append] at hfirst
  -- if nothing were kept, then the first character would be one of the blanks cut off
  cases hkept : (trimEnd t).head? with
  | some d => rwa [hkept, Option.some_or] at hfirst
  | none =>
    rw [hkept, Option.none_or] at hfirst
    exact absurd (hback c (List.mem_of_mem_head? hfirst)) hc

/-- Behind a token, whatever comes in between, a text that begins without a blank is trimmed at its
end only. -/
theorem trim_token_append_append {w t : Text} (hw : IsToken w) (between : Text) {c : Char}
    (hfirst : t.head? = some c) (hc : ¬ isBlank c) :
    trim (w ++ (between ++ t)) = w ++ (between ++ trimEnd t) := by
  obtain ⟨back, hback, hlast, htext⟩ := exists_trimEnd_append t
  -- something is left of the text: at least its first character
  have hne : trimEnd t ≠ [] := by
    intro hnil
    have hhead := head?_trimEnd hfirst hc
    rw [hnil] at hhead
    exact nomatch hhead
  -- so the whole ends as what is left does, without a blank
  have hends : ∀ c ∈ (w ++ (between ++ trimEnd t)).getLast?, ¬ isBlank c := by
    rw [List.getLast?_eq_some_getLast hne] at hlast
    rwa [← List.append_assoc, List.getLast?_append, List.getLast?_eq_some_getLast hne,
      Option.some_or]
  calc trim (w ++ (between ++ t))
      = trim ([] ++ (w ++ (between ++ trimEnd t)) ++ back) := by
        rw [List.nil_append, List.append_assoc, List.append_assoc, ← htext]
    _ = trim (w ++ (between ++ trimEnd t)) := trim_surround (List.forall_mem_nil _) _ hback
    _ = w ++ (between ++ trimEnd t) := trim_eq_self_of_ends (hw.not_isBlank_head _) hends

/-- Where nothing blank is left behind the gap in front of a text, trimming drops the gap only. -/
theorem trimStart_eq_skipGap {t : Text} (h : ∀ c ∈ (skipGap t).head?, ¬ isBlank c) :
    trimStart t = skipGap t := by
  -- every gap consists of blanks
  have hgap : ∀ c ∈ t.takeWhile isGap, isBlank c := fun c hc =>
    isBlank_of_isGap (List.mem_takeWhile_imp hc)
  have hsplit : t = t.takeWhile isGap ++ skipGap t := List.takeWhile_append_dropWhile.symm
  calc trimStart t = trimStart (t.takeWhile isGap ++ skipGap t) := by rw [← hsplit]
    _ = trimStart (skipGap t) := List.dropWhile_append_of_pos hgap
    _ = skipGap t := trimStart_of_head h

/-- So the blanks in front of a text are the gap there. -/
theorem skipGap_blank_append {blanks t : Text} (hblanks : ∀ c ∈ blanks, isBlank c)
    (ht : ∀ c ∈ t.head?, ¬ isBlank c) (h : ∀ c ∈ (skipGap (blanks ++ t)).head?, ¬ isBlank c) :
    skipGap (blanks ++ t) = t := by
  calc skipGap (blanks ++ t) = trimStart (blanks ++ t) := (trimStart_eq_skipGap h).symm
    _ = trimStart t := List.dropWhile_append_of_pos hblanks
    _ = t := trimStart_of_head ht

/-! ### Digits -/

/-- The code points of the digits. -/
theorem toNat_of_isDigit {c : Char} (h : c.isDigit) : 48 ≤ c.toNat ∧ c.toNat ≤ 57 := by
  simpa [Char.isDigit, UInt32.le_iff_toNat_le] using h

/-- No digit is a blank. -/
theorem not_isBlank_of_isDigit {c : Char} (h : c.isDigit) : ¬ isBlank c := by
  have hrange := toNat_of_isDigit h
  simp only [isBlank, Bool.or_eq_true, Bool.and_eq_true, decide_eq_true_eq, beq_iff_eq]
  omega

/-- A number is written in digits. -/
theorem isDigit_of_mem_ofNat {n : Nat} {c : Char} (h : c ∈ ofNat n) : c.isDigit :=
  Nat.isDigit_of_mem_toDigits (by decide) (by decide) h

end Text

/-! ### Words -/

/-- Roles are spelled as keywords. -/
theorem Role.isKeyword_spell (r : Role) : Text.IsKeyword (Vocabulary.spell r) := by
  cases r <;> decide

/-- Species are spelled as keywords. -/
theorem Species.isKeyword_spell (s : Species) : Text.IsKeyword (Vocabulary.spell s) := by
  cases s <;> decide

/-- Channels are spelled as keywords. -/
theorem Channel.isKeyword_spell (c : Channel) : Text.IsKeyword (Vocabulary.spell c) := by
  cases c <;> decide

/-- Operators are spelled as keywords. -/
theorem Operator.isKeyword_spell (o : Operator) : Text.IsKeyword (Vocabulary.spell o) := by
  cases o <;> decide

/-- Every topic but the bare ones is spelled as a keyword. -/
theorem Topic.isKeyword_spell {t : Topic} (h : t.form ≠ .bare) :
    Text.IsKeyword (Vocabulary.spell t) := by
  cases t <;> first | decide | exact absurd rfl h

end Parley
