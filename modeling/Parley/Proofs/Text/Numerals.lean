import Parley.Proofs.Text.Recognition

/-!
# Numbers and tokens, to the last digit

Runs of digits may be of any length, and the readers decide by the value alone: leading zeros do not
count, and a value that is out of range is refused. So what is printed is read back as it was,
whatever stands around it, and nothing else is taken for a number or an agent.

## Key results

- `Text.readInt32_spelling`: an integer is read, in any spelling, exactly if it fits into 32 bits
- `Agent.ofText_of_spelling` / `Agent.ofText_cases`: the texts that name an agent
- `Agent.tokens_and_integers_exact`: printing and reading are inverse, and the ranges are exact
-/

namespace Parley

namespace Text

/-- Zeros in front of digits do not change the number. -/
theorem ofDigitChars_pad (zeros : Nat) (ds : Text) :
    Nat.ofDigitChars 10 (List.replicate zeros '0' ++ ds) 0 = Nat.ofDigitChars 10 ds 0 := by
  rw [Nat.ofDigitChars_append, Nat.ofDigitChars_replicate_zero, Nat.mul_zero]

/-- Digits with zeros in front of them are digits. -/
theorem IsNumeral.pad {ds : Text} (h : ds.IsNumeral) (zeros : Nat) :
    IsNumeral (List.replicate zeros '0' ++ ds) := by
  obtain ⟨hne, hdigits⟩ := h
  refine ⟨by simp [hne], ?_⟩
  intro c hc
  rcases List.mem_append.mp hc with hc | hc
  · rw [List.eq_of_mem_replicate hc]
    decide
  · exact hdigits c hc

/-- Behind every spelling of an integer the reader stops, and it takes the integer if that fits. -/
theorem readInt32_spelling {n : Int} {w rest : Text} (hw : IntSpelling n w)
    (hstop : ∀ c ∈ rest.head?, ¬ c.isDigit) :
    readInt32 (w ++ rest) = (int32? n).map fun d => (d, rest) := by
  -- the reader of integers takes all of the spelling
  have hread : integer (w ++ rest) = some (n, rest) :=
    recognises_integer.read_iff.mpr ⟨w, hw, rfl, hstop⟩
  simp only [readInt32, hread, Option.bind_eq_bind, Option.bind_some]
  cases int32? n <;> rfl

end Text

namespace Agent

/-- Digits in the brackets of a token. -/
def bracketed (ds : Text) : Text :=
  "Agent[".toList ++ ds ++ "]".toList

/-- A token holds the index, in digits. -/
theorem exists_bracketed_token (a : Agent) :
    ∃ ds : Text, a.token = bracketed ds ∧ ds.IsNumeral ∧
      Nat.ofDigitChars 10 ds 0 = a.index.toNat := by
  generalize htoken : a.token = w
  have hspelling : a.Spelling w := htoken ▸ spelling_token a
  -- a token is a spelling of its agent, and it never says `ANY`
  cases hspelling with
  | any => exact absurd htoken (by decide)
  | @index _ ds hne hdigits hvalue => exact ⟨ds, rfl, ⟨hne, hdigits⟩, hvalue⟩

/-- A text names an agent if it is a spelling of the agent when blanks are dropped. -/
theorem ofText_of_spelling {a : Agent} {t : Text} (h : a.Spelling t.trim) : ofText t = a := by
  have hread : read t.trim = some (a, []) :=
    recognises_read.read_iff.mpr ⟨t.trim, h, (List.append_nil _).symm, by simp⟩
  rw [ofText, hread]

/-- A text that names somebody is a spelling of that agent when blanks are dropped. -/
theorem ofText_cases (t : Text) : ofText t = unspec ∨ (ofText t).Spelling t.trim := by
  unfold ofText
  split
  · next a hread =>
    obtain ⟨w, hw, htext, -⟩ := recognises_read.read_iff.mp hread
    rw [List.append_nil] at htext
    exact Or.inr (htext ▸ hw)
  · exact Or.inl rfl

/-- The agent of digits in brackets is the one whose index they are, if there is such an index. -/
theorem index_ofText_bracketed {t ds : Text} (hds : ds.IsNumeral) (htext : t.trim = bracketed ds)
    (hfits : Nat.ofDigitChars 10 ds 0 ≤ 4294967295) :
    (ofText t).index.toNat = Nat.ofDigitChars 10 ds 0 := by
  have hindex : (UInt32.ofNat (Nat.ofDigitChars 10 ds 0)).toNat = Nat.ofDigitChars 10 ds 0 :=
    UInt32.toNat_ofNat_of_lt (Nat.lt_add_one_of_le hfits)
  have hspelling : Spelling ⟨UInt32.ofNat (Nat.ofDigitChars 10 ds 0)⟩ t.trim :=
    htext ▸ .index hds.1 hds.2 hindex.symm
  rw [ofText_of_spelling hspelling, hindex]

/-- A text names somebody if and only if it is `ANY` or digits in brackets, and these stand for an
index other than zero that fits. -/
theorem ofText_ne_unspec_iff {t : Text} :
    ofText t ≠ unspec ↔ t.trim = "ANY".toList ∨
      ∃ ds : Text, ds.IsNumeral ∧ t.trim = bracketed ds ∧
        0 < Nat.ofDigitChars 10 ds 0 ∧ Nat.ofDigitChars 10 ds 0 ≤ 4294967295 := by
  constructor
  · intro hne
    have hspelling := (ofText_cases t).resolve_left hne
    generalize ofText t = a at hne hspelling
    generalize t.trim = w at hspelling
    cases hspelling with
    | any => exact Or.inl rfl
    | @index _ ds hds hdigits hvalue =>
      -- the agent is somebody, so its index is not zero
      have hpos : a.index.toNat ≠ 0 := fun hzero =>
        hne (congrArg Agent.mk (UInt32.toNat_inj.mp hzero))
      have hfits : a.index.toNat < 4294967296 := a.index.toNat_lt
      exact Or.inr ⟨ds, ⟨hds, hdigits⟩, rfl, by omega, by omega⟩
  · rintro (hany | ⟨ds, hds, htext, hpos, hfits⟩) hunspec
    · have hread : ofText t = any := ofText_of_spelling (hany ▸ .any)
      rw [hunspec] at hread
      exact absurd hread (by decide)
    -- the agent would have the index zero
    · have hindex := index_ofText_bracketed hds htext hfits
      rw [hunspec] at hindex
      exact absurd hindex (Nat.ne_of_lt hpos)

/-- Printing and reading are inverse to each other, for agents and for integers. The token of an
agent is read back, with more zeros in it and with blanks around it. A text names somebody exactly
if it is `ANY` or brackets an index in range that is not zero, and then it names that agent. An
integer that fits into 32 bits is read back in front of everything but a digit, and in every
spelling an integer is read exactly if it fits. -/
theorem tokens_and_integers_exact :
    (∀ a : Agent, ∃ ds : Text, a.token = bracketed ds ∧
      ∀ (zeros : Nat) (before after : Text), (∀ c ∈ before, Text.isBlank c) →
        (∀ c ∈ after, Text.isBlank c) →
        ofText (before ++ bracketed (List.replicate zeros '0' ++ ds) ++ after) = a) ∧
    (∀ t : Text,
      (ofText t ≠ unspec ↔ t.trim = "ANY".toList ∨
        ∃ ds : Text, ds.IsNumeral ∧ t.trim = bracketed ds ∧
          0 < Nat.ofDigitChars 10 ds 0 ∧ Nat.ofDigitChars 10 ds 0 ≤ 4294967295) ∧
      (t.trim = "ANY".toList → ofText t = any) ∧
      ∀ ds : Text, ds.IsNumeral → t.trim = bracketed ds → Nat.ofDigitChars 10 ds 0 ≤ 4294967295 →
        (ofText t).index.toNat = Nat.ofDigitChars 10 ds 0) ∧
    (∀ (d : Int32) (rest : Text), (∀ c ∈ rest.head?, ¬ c.isDigit) →
      Text.readInt32 (Text.ofInt d.toInt ++ rest) = some (d, rest)) ∧
    ∀ (n : Int) (w rest : Text), Text.IntSpelling n w → (∀ c ∈ rest.head?, ¬ c.isDigit) →
      ((Text.readInt32 (w ++ rest)).isSome ↔ -2147483648 ≤ n ∧ n ≤ 2147483647) ∧
      ∀ d behind, Text.readInt32 (w ++ rest) = some (d, behind) → d.toInt = n ∧ behind = rest := by
  refine ⟨fun a => ?_, fun t => ⟨ofText_ne_unspec_iff, ?_, ?_⟩, ?_, ?_⟩
  · obtain ⟨ds, htoken, hds, hvalue⟩ := exists_bracketed_token a
    refine ⟨ds, htoken, fun zeros before after hbefore hafter => ?_⟩
    have hpadded := hds.pad zeros
    have hspelling : a.Spelling (bracketed (List.replicate zeros '0' ++ ds)) :=
      .index hpadded.1 hpadded.2 (by rw [Text.ofDigitChars_pad, hvalue])
    -- there is no blank in a token, so exactly the blanks around it are dropped
    apply ofText_of_spelling
    rwa [Text.trim_surround hbefore _ hafter, hspelling.isToken.trim_eq]
  · exact fun hany => ofText_of_spelling (hany ▸ .any)
  · exact fun ds hds htext hfits => index_ofText_bracketed hds htext hfits
  · intro d rest hstop
    have hfits : int32? d.toInt = some d := int32?_eq_some_iff.mpr rfl
    rw [Text.readInt32_spelling (Text.intSpelling_ofInt _) hstop, hfits, Option.map_some]
  · intro n w rest hw hstop
    rw [Text.readInt32_spelling hw hstop, Option.isSome_map, isSome_int32?_iff]
    refine ⟨by omega, fun d behind hread => ?_⟩
    -- whatever is read is what is spelled
    obtain ⟨k, hk, heq⟩ := Option.map_eq_some_iff.mp hread
    obtain ⟨rfl, rfl⟩ := Prod.mk.inj heq
    exact ⟨int32?_eq_some_iff.mp hk, rfl⟩

/-- The last agent is read with zeros and blanks around, an agent with a three-digit index is named,
the least integer is read back, and the one after the greatest is refused. -/
theorem tokens_and_integers_exact_bounds :
    ofText "\u3000Agent[004294967295]\t".toList = ⟨4294967295⟩ ∧
    ofText "Agent[0300]".toList ≠ unspec ∧
    Text.readInt32 "-2147483648)".toList = some (-2147483648, [')']) ∧
    ¬ (Text.readInt32 "02147483648)".toList).isSome := by
  obtain ⟨hprinted, hnamed, hback, hspelled⟩ := tokens_and_integers_exact
  refine ⟨?_, ?_, ?_, ?_⟩
  · obtain ⟨ds, htoken, hpadded⟩ := hprinted ⟨4294967295⟩
    have hsame : bracketed ds = bracketed "4294967295".toList :=
      htoken.symm.trans (by decide +kernel)
    obtain rfl : ds = "4294967295".toList :=
      List.append_cancel_left (List.append_cancel_right hsame)
    exact hpadded 2 ['\u3000'] ['\t'] (by simp [Text.isBlank]) (by simp [Text.isBlank])
  · exact (hnamed _).1.mpr (Or.inr ⟨"0300".toList, ⟨by decide, by simp⟩, by decide +kernel,
      by decide +kernel, by decide +kernel⟩)
  · exact hback (-2147483648) [')'] (by simp)
  · have hnumeral : Text.IsNumeral "02147483648".toList := ⟨by decide, by simp⟩
    have hvalue : (Nat.ofDigitChars 10 "02147483648".toList 0 : Int) = 2147483648 := by
      decide +kernel
    have hspelling : Text.IntSpelling 2147483648 "02147483648".toList := hvalue ▸ .plain hnumeral
    exact fun hsome => absurd ((hspelled _ _ [')'] hspelling (by simp)).1.mp hsome) (by decide)

end Agent

end Parley
