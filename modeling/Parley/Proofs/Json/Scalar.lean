import Parley.Json.Reader
import Parley.Json.Writer
import Parley.Proofs.Text.Token

/-!
# Scalars are read back

A string is written character by character, and what is written for a character is read back as one
piece, which stands for that character whatever piece comes next. A number is read up to the first
character that no number goes on with, and an integer is written without a zero in front, as the
reader demands.

## Key results

- `Json.readString_quote`: a quoted string is read back, with any characters in it
- `Json.readNumber_ofInt`: an integer is read back, whatever its size
-/

namespace Parley

namespace Json

/-! ### Strings -/

/-- A piece stands for a character by itself: it is no half of a surrogate pair. -/
inductive Piece.Denotes : Piece → Char → Prop where
  | char (c : Char) : Denotes (.char c) c
  | unit {c : Char} (h : c.toNat < 0xD800) : Denotes (.unit c.toNat) c

/-- A piece that stands for a character by itself gives that character, whatever comes next. -/
theorem joinPieces?_cons {p : Piece} {c : Char} (h : p.Denotes c) (pieces : List Piece) :
    joinPieces? (p :: pieces) = (joinPieces? pieces).map (c :: ·) := by
  cases h with
  | char c => simp only [joinPieces?]
  | unit h =>
    -- characters below the surrogates are no halves of a pair
    have hhigh : isHighHalf c.toNat = false := by simp [isHighHalf]; omega
    have hlow : isLowHalf c.toNat = false := by simp [isLowHalf]; omega
    -- a unit in front of another one is joined by a rule of its own
    cases pieces with
    | nil => simp [joinPieces?, hhigh, hlow]
    | cons next rest => cases next <;> simp [joinPieces?, hhigh, hlow]

/-- What is written for a character: a letter that stands for it, its number, or the character. -/
theorem escape_cases (c : Char) :
    (∃ letter, unescape? letter = some c ∧ escape c = ['\\', letter]) ∨
    (c.toNat < 0x20 ∧ escape c =
      ['\\', 'u', '0', '0', (c.toNat / 16).digitChar, (c.toNat % 16).digitChar]) ∨
    (c ≠ '"' ∧ c ≠ '\\' ∧ 0x20 ≤ c.toNat ∧ escape c = [c]) := by
  unfold escape
  split_ifs with hquote hslash _ _ _ _ _ hcontrol
  -- seven characters have letters of their own
  iterate 7 exact .inl ⟨_, by subst c; rfl, rfl⟩
  · exact .inr (.inl ⟨hcontrol, rfl⟩)
  · exact .inr (.inr ⟨hquote, hslash, by omega, rfl⟩)

/-- A backslash and a letter are one piece. -/
theorem readPieces_letter {letter c : Char} (h : unescape? letter = some c) (t : Text) :
    readPieces ('\\' :: letter :: t) = (readPieces t).map (Prod.map (.char c :: ·) id) := by
  -- the letter u is not among these
  have hletter : letter ≠ 'u' := by rintro rfl; simp [unescape?] at h
  rw [readPieces, h]
  · cases readPieces t <;> rfl
  · exact fun _ _ _ _ _ hu => absurd hu hletter

/-- A backslash, the letter u and four digits are one piece. -/
theorem readPieces_unit {a b c d : Char} {u : Nat} (h : unit? a b c d = some u) (t : Text) :
    readPieces ('\\' :: 'u' :: a :: b :: c :: d :: t) =
      (readPieces t).map (Prod.map (.unit u :: ·) id) := by
  rw [readPieces, h]
  cases readPieces t <;> rfl

/-- Any other character is a piece by itself, unless it is a control character. -/
theorem readPieces_char {c : Char} (hquote : c ≠ '"') (hslash : c ≠ '\\')
    (hcontrol : 0x20 ≤ c.toNat) (t : Text) :
    readPieces (c :: t) = (readPieces t).map (Prod.map (.char c :: ·) id) := by
  rw [readPieces, if_neg (by omega)]
  · cases readPieces t <;> rfl
  · exact hquote
  · exact fun _ _ _ _ _ hc => absurd hc hslash
  · exact fun _ _ hc => absurd hc hslash

/-- The digits written for a control character give its number. -/
theorem unit?_digitChar {n : Nat} (h : n < 0x20) :
    unit? '0' '0' (n / 16).digitChar (n % 16).digitChar = some n := by
  revert n
  decide

/-- What is written for a character is read as one piece that stands for it. -/
theorem readPieces_escape (c : Char) : ∃ p : Piece, p.Denotes c ∧
    ∀ t, readPieces (escape c ++ t) = (readPieces t).map (Prod.map (p :: ·) id) := by
  rcases escape_cases c with ⟨letter, hletter, hc⟩ | ⟨hcontrol, hc⟩ | ⟨hquote, hslash, hge, hc⟩
  · exact ⟨.char c, .char c, fun t => by rw [hc]; exact readPieces_letter hletter t⟩
  · exact ⟨.unit c.toNat, .unit (by omega), fun t => by
      rw [hc]; exact readPieces_unit (unit?_digitChar hcontrol) t⟩
  · exact ⟨.char c, .char c, fun t => by rw [hc]; exact readPieces_char hquote hslash hge t⟩

/-- What is written for a text is read as pieces that denote it, up to the closing quote. -/
theorem readPieces_flatMap_escape (t rest : Text) : ∃ pieces, joinPieces? pieces = some t ∧
    readPieces (t.flatMap escape ++ '"' :: rest) = some (pieces, rest) := by
  induction t with
  | nil => exact ⟨[], rfl, rfl⟩
  | cons c t ih =>
    -- the piece of the first character stands in front of those of the others
    obtain ⟨p, hp, hread⟩ := readPieces_escape c
    obtain ⟨pieces, hjoin, hpieces⟩ := ih
    refine ⟨p :: pieces, by rw [joinPieces?_cons hp, hjoin, Option.map_some], ?_⟩
    rw [List.flatMap_cons, List.append_assoc, hread, hpieces]
    rfl

/-- A quoted string begins with a quote. -/
theorem exists_quote_eq_cons (s : Option Text) : ∃ t, quote s = '"' :: t := by
  cases s with
  | none => exact ⟨_, rfl⟩
  | some t => exact ⟨_, rfl⟩

/-- A string in quotes is read back. -/
theorem readString_quote (t : Option Text) (rest : Text) :
    readString (quote t ++ rest) = some (t, rest) := by
  cases t with
  | none => rfl
  | some t =>
    obtain ⟨pieces, hjoin, hread⟩ := readPieces_flatMap_escape t rest
    have hquote : quote (some t) ++ rest = '"' :: (t.flatMap escape ++ '"' :: rest) := by
      show ('"' :: t.flatMap escape ++ ['"']) ++ rest = _
      simp
    rw [hquote]
    simp [readString, Text.after, hread, hjoin]

end Json

/-! ### Numbers -/

/-- A number has a first digit. -/
theorem Text.exists_ofNat_eq_cons (n : Nat) : ∃ c t, ofNat n = c :: t ∧ c.isDigit := by
  obtain ⟨c, t, h⟩ : ∃ c t, ofNat n = c :: t := List.exists_cons_of_ne_nil Nat.toDigits_ne_nil
  exact ⟨c, t, h, isDigit_of_mem_ofNat (h ▸ List.mem_cons_self)⟩

/-- No number but zero is written with a zero in front. -/
theorem Text.eq_zero_of_head?_ofNat {n : Nat} (h : (ofNat n).head? = some '0') : n = 0 := by
  induction n using Nat.strongRecOn with
  | ind n ih =>
    rw [ofNat, Nat.toDigits_eq_if (by decide)] at h
    split at h
    · simpa using h
    · -- the first digit is that of a tenth of the number
      have hhead : (Nat.toDigits 10 (n / 10)).head?.isSome := by simp
      rw [List.head?_append, Option.or_of_isSome hhead] at h
      have htenth : n / 10 = 0 := ih (n / 10) (by omega) h
      omega

namespace Json

/-- The characters that a number goes on with. -/
def goesOn (c : Char) : Bool :=
  c.isDigit || c == '.' || c == 'e' || c == 'E'

/-- A number is written as the reader of the digits in front of the point demands. -/
theorem readWhole_ofNat (n : Nat) {rest : Text} (hrest : ∀ c ∈ rest.head?, ¬ c.isDigit) :
    readWhole (Text.ofNat n ++ rest) = some (Text.ofNat n, rest) := by
  have hdigits : Text.digits (Text.ofNat n ++ rest) = some (Text.ofNat n, rest) :=
    Text.digits_append Nat.toDigits_ne_nil (fun _ => Text.isDigit_of_mem_ofNat) hrest
  -- only the number zero begins with a zero
  have hzero : ¬ ((Text.ofNat n).head? = some '0' ∧ Text.ofNat n ≠ ['0']) := by
    rintro ⟨hhead, hne⟩
    exact hne (by rw [Text.eq_zero_of_head?_ofNat hhead]; rfl)
  simp [readWhole, hdigits, hzero]

/-- Where no point comes first, there is no fraction. -/
theorem readFraction_of_head {rest : Text} (h : ∀ c ∈ rest.head?, c ≠ '.') :
    readFraction rest = some ([], rest) := by
  rw [readFraction]
  rintro t rfl
  simp at h

/-- Where no letter of an exponent comes first, there is none. -/
theorem readExponent_of_head {rest : Text} (h : ∀ c ∈ rest.head?, c ≠ 'e' ∧ c ≠ 'E') :
    readExponent rest = some ([], rest) := by
  cases rest with
  | nil => rfl
  | cons c t =>
    have hc : c ≠ 'e' ∧ c ≠ 'E' := h c rfl
    simp [readExponent, hc]

/-- A number is read back behind its sign. Zero must not have one. -/
theorem readUnsigned_ofNat {negative : Bool} {n : Nat} (hn : negative = true → n ≠ 0)
    {rest : Text} (hrest : ∀ c ∈ rest.head?, ¬ goesOn c) :
    readUnsigned negative (Text.ofNat n ++ rest) =
      some (integer (if negative then -n else n), rest) := by
  simp only [goesOn, Bool.or_eq_true, beq_iff_eq, not_or] at hrest
  -- the digits end where the number ends, and neither a fraction nor an exponent begins there
  have hwhole := readWhole_ofNat n fun c hc => (hrest c hc).1.1.1
  have hfraction := readFraction_of_head fun c hc => (hrest c hc).1.1.2
  have hexponent := readExponent_of_head fun c hc => ⟨(hrest c hc).1.2, (hrest c hc).2⟩
  have hvalue : Nat.ofDigitChars 10 (Text.ofNat n) 0 = n := Nat.ofDigitChars_ten_toDigits
  have hnumber : number negative (Text.ofNat n) [] [] = integer (if negative then -n else n) := by
    rw [number, hvalue, if_pos]
    · simpa using hn
  simp [readUnsigned, hwhole, hfraction, hexponent, hnumber]

/-- An integer is read back, if nothing follows that a number goes on with. -/
theorem readNumber_ofInt (n : Int) {rest : Text} (hrest : ∀ c ∈ rest.head?, ¬ goesOn c) :
    readNumber (Text.ofInt n ++ rest) = some (integer n, rest) := by
  rw [Text.ofInt]
  split
  · next hneg =>
    -- the sign is taken off, and the absolute value is left
    show readUnsigned true (Text.ofNat n.natAbs ++ rest) = _
    have hvalue : (if true then -(n.natAbs : Int) else n.natAbs) = n := by rw [if_pos rfl]; omega
    rw [readUnsigned_ofNat (fun _ => by omega) hrest, hvalue]
  · next hpos =>
    have hvalue : (if false then -(n.natAbs : Int) else n.natAbs) = n := by
      rw [if_neg (by decide)]
      omega
    rw [readNumber]
    · rw [readUnsigned_ofNat (by simp) hrest, hvalue]
    · -- a digit comes first, so there is no minus sign
      intro t ht
      obtain ⟨c, ds, hds, hc⟩ := Text.exists_ofNat_eq_cons n.natAbs
      rw [hds] at ht
      obtain rfl : c = '-' := (List.cons.inj ht).1
      exact absurd hc (by decide)

/-- The characters that a number begins with. -/
def beginsNumber (c : Char) : Bool :=
  c == '-' || c.isDigit

/-- An integer begins with a digit or with a minus sign. -/
theorem exists_ofInt_eq_cons (n : Int) : ∃ c t, Text.ofInt n = c :: t ∧ beginsNumber c := by
  rw [Text.ofInt]
  split
  · exact ⟨'-', _, rfl, rfl⟩
  · obtain ⟨c, t, ht, hc⟩ := Text.exists_ofNat_eq_cons n.natAbs
    exact ⟨c, t, ht, by simp [beginsNumber, hc]⟩

/-- Where a number begins, no other character stands. -/
theorem ne_of_beginsNumber {c d : Char} (hc : beginsNumber c) (hd : ¬ beginsNumber d) : c ≠ d := by
  rintro rfl
  exact hd hc

/-- No number begins with a gap. -/
theorem not_isGap_of_beginsNumber {c : Char} (h : beginsNumber c) : ¬ Text.isGap c := by
  simp only [Text.isGap, Bool.or_eq_true, beq_iff_eq]
  rintro (((rfl | rfl) | rfl) | rfl) <;> exact absurd h (by decide)

/-- What begins like a number is read as one. -/
theorem readScalar_number {c : Char} (hc : beginsNumber c) (t : Text) :
    readScalar (c :: t) = readNumber (c :: t) := by
  -- none of the letters and quotes that begin other values begins a number
  have hne : ∀ d : Char, beginsNumber d = false → c ≠ d := fun d hd =>
    ne_of_beginsNumber hc (by simp [hd])
  have hquote : c ≠ '"' := hne _ rfl
  have hnull : c ≠ 'n' := hne _ rfl
  have htrue : c ≠ 't' := hne _ rfl
  have hfalse : c ≠ 'f' := hne _ rfl
  simp [readScalar, hquote, hnull, htrue, hfalse]

end Json

end Parley
