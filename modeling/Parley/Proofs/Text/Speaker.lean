import Parley.Proofs.Text.Token
import Parley.Statement.Phrase

/-!
# Agents and speakers in texts

An agent has many spellings: `ANY` for anybody, and the index in brackets with any number of leading
zeros. A speaker in front of a keyword is an agent in one of its spellings and a space, or nothing
at all if the speaker is left open.

## Key results

- `Agent.read_append`: every spelling of an agent is read back, whatever follows it
- `stripSubject_append`: cutting off a speaker leaves exactly the sentence
-/

namespace Parley

namespace Agent

/-- The ways to write an agent. -/
inductive Spelling : Agent → Text → Prop where
  /-- Anybody. -/
  | any : Spelling .any "ANY".toList
  /-- The index, with any number of leading zeros. -/
  | index {a : Agent} {ds : Text} (hne : ds ≠ []) (hdigits : ∀ c ∈ ds, c.isDigit)
      (hvalue : Nat.ofDigitChars 10 ds 0 = a.index.toNat) :
      Spelling a ("Agent[".toList ++ ds ++ "]".toList)

/-- Every spelling of an agent is read back, and reading stops after it. -/
theorem read_append {a : Agent} {w : Text} (hw : a.Spelling w) (rest : Text) :
    read (w ++ rest) = some (a, rest) := by
  cases hw with
  | any =>
    have hafter : Text.after "ANY".toList ("ANY".toList ++ rest) = some rest :=
      Text.after_eq_some_iff.mpr rfl
    simp only [read, hafter]
  | @index _ ds hne hdigits hvalue =>
    -- an index is not taken for anybody
    have hany : Text.after "ANY".toList ("Agent[".toList ++ ds ++ "]".toList ++ rest) = none := rfl
    have hopen : Text.after "Agent[".toList ("Agent[".toList ++ ds ++ "]".toList ++ rest) =
        some (ds ++ "]".toList ++ rest) := by
      rw [Text.after_eq_some_iff]
      simp only [List.append_assoc]
    have hclose : Text.after "]".toList ("]".toList ++ rest) = some rest :=
      Text.after_eq_some_iff.mpr rfl
    -- the digits end at the closing bracket
    have hstop : ∀ c ∈ ("]".toList ++ rest).head?, ¬ c.isDigit := by
      simp
    have hnat : Text.natural (ds ++ "]".toList ++ rest) =
        some (a.index.toNat, "]".toList ++ rest) := by
      rw [List.append_assoc, Text.natural, Text.digits_append hne hdigits hstop, Option.map_some,
        ← hvalue]
    have hindex : ofInt? (a.index.toNat : Int) = some a := by
      rw [ofInt?, uint32?_eq_some_iff.mpr rfl, Option.map_some]
    -- the opening word, the digits and the closing bracket are read one after the other
    rw [read, hany]
    dsimp only
    rw [hopen, Option.bind_eq_bind, Option.bind_some, hnat, Option.bind_eq_bind, Option.bind_some]
    dsimp only
    rw [hindex, Option.bind_eq_bind, Option.bind_some, hclose, Option.bind_some, Option.pure_def]

/-- A spelling in front of a space is read back, and the space is left. -/
theorem read_written {a : Agent} {w : Text} (hw : a.Spelling w) (rest : Text) :
    read (w ++ [' '] ++ rest) = some (a, ' ' :: rest) := by
  rw [List.append_assoc]
  exact read_append hw _

/-- The token of an agent is one of its spellings. -/
theorem spelling_token (a : Agent) : a.Spelling a.token := by
  have hdigits : ∀ c ∈ Text.ofNat a.index.toNat, c.isDigit := fun _ hc =>
    Text.isDigit_of_mem_ofNat hc
  have hvalue : Nat.ofDigitChars 10 (Text.ofNat a.index.toNat) 0 = a.index.toNat :=
    Nat.ofDigitChars_ten_toDigits
  unfold token
  by_cases hpad : a.index < 10
  · -- the zero in front adds nothing to the value
    have hzero : Nat.ofDigitChars 10 ('0' :: Text.ofNat a.index.toNat) 0 = a.index.toNat := by
      rw [Nat.ofDigitChars_cons]
      exact hvalue
    have hpadded : ∀ c ∈ '0' :: Text.ofNat a.index.toNat, c.isDigit := by
      intro c hc
      rcases List.mem_cons.mp hc with rfl | hc
      · decide
      · exact hdigits c hc
    simp only [hpad, if_true]
    exact .index (List.cons_ne_nil _ _) hpadded hzero
  · simp only [hpad, if_false]
    exact .index Nat.toDigits_ne_nil hdigits hvalue

/-- A target is written as the agent that it stands for: an open one is anybody. -/
theorem spelling_targetText (a : Agent) : (a.orElse any).Spelling a.targetText := by
  unfold targetText orElse
  -- an open target and anybody are written alike
  by_cases hopen : a = unspec
  · simpa [hopen] using Spelling.any
  · by_cases hany : a = any
    · simpa [hopen, hany] using Spelling.any
    · simpa [hopen, hany] using spelling_token a

/-- A spelling of an agent is a token. -/
theorem Spelling.isToken {a : Agent} {w : Text} (hw : a.Spelling w) : Text.IsToken w := by
  cases hw with
  | any => decide
  | @index _ ds _ hdigits _ =>
    have hopen : Text.IsToken "Agent[".toList := by decide
    have hclose : Text.IsToken "]".toList := by decide
    refine ⟨by simp, ?_⟩
    intro c hc
    -- a character is from the opening word, from the digits, or the closing bracket
    rcases List.mem_append.mp hc with hc | hc
    · rcases List.mem_append.mp hc with hc | hc
      · exact hopen.2 c hc
      · exact Text.not_isBlank_of_isDigit (hdigits c hc)
    · exact hclose.2 c hc

/-- The ways to write a speaker in front of a keyword. -/
inductive SpeakerPrefix : Agent → Text → Prop where
  /-- No speaker is written, and the speaker is left open. -/
  | absent : SpeakerPrefix .unspec []
  /-- The speaker is written, and a space follows. -/
  | written {a : Agent} {w : Text} (hw : a.Spelling w) : SpeakerPrefix a (w ++ [' '])

/-- The canonical text of a speaker is one of the ways to write it. -/
theorem speakerPrefix_speakerText (a : Agent) : a.SpeakerPrefix a.speakerText := by
  unfold speakerText
  -- an open speaker is not written at all
  by_cases hopen : a = unspec
  · simpa [hopen] using SpeakerPrefix.absent
  · by_cases hany : a = any
    · subst hany
      exact .written .any
    · simpa [hopen, hany] using SpeakerPrefix.written (spelling_token a)

end Agent

/-! ### Speakers and keywords -/

/-- The keyword of a topic is never taken for a speaker. -/
theorem Topic.read_spell_append (topic : Topic) (rest : Text) :
    Agent.read (Vocabulary.spell topic ++ rest) = none := by
  cases topic <;> rfl

/-- The keyword of an operator is never taken for a speaker. -/
theorem Operator.read_spell_append (operator : Operator) (rest : Text) :
    Agent.read (Vocabulary.spell operator ++ rest) = none := by
  cases operator <;> rfl

/-- What follows a speaker: a text that begins with a capital letter but not with an agent. -/
structure Text.IsSentence (t : Text) : Prop where
  head_upper : ∃ c rest, t = c :: rest ∧ c.isUpper
  no_agent : Agent.read t = none

theorem Text.IsKeyword.isSentence {w rest : Text} (hw : w.IsKeyword)
    (hread : Agent.read (w ++ rest) = none) : (w ++ rest).IsSentence := by
  obtain ⟨hne, hupper⟩ := hw
  cases w with
  | nil => exact absurd rfl hne
  | cons c w => exact ⟨⟨c, w ++ rest, rfl, hupper c List.mem_cons_self⟩, hread⟩

/-- Cutting off the speaker leaves the sentence, whether a speaker was written or not. -/
theorem Statement.stripSubject_append {a : Agent} {p t : Text} (hp : a.SpeakerPrefix p)
    (ht : t.IsSentence) : stripSubject (p ++ t) = t := by
  obtain ⟨c, rest, rfl, hc⟩ := ht.head_upper
  cases hp with
  | absent => simp only [stripSubject, List.nil_append, ht.no_agent]
  | @written _ w hw =>
    have hread := Agent.read_written hw (c :: rest)
    have htrim : Text.trimStart (c :: rest) = c :: rest :=
      Text.trimStart_of_head (by simpa using Text.not_isBlank_of_isUpper hc)
    have hspace : Text.isBlank ' ' = true := by decide
    rw [stripSubject, hread]
    simp [htrim, hspace, hc]

end Parley
