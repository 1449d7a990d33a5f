import Parley.Proofs.Statement.Finished

/-!
# Speakers in front of texts

A speaker that is written in front of a text is read first, and what is read behind it does not
depend on who it is. So the speaker may as well be left out and be given to the statement that the
text compiles to.

## Key results

- `Clause.spokenBy`: every agent may speak a clause
- `ofSentence?_of_readSubject`: a speaker in front changes the speaker of the phrase that is read
- `ofText?_written`: so it is with texts, which are trimmed, and may be a keyword that stands alone
- `ofPhrase?_spokenBy`: and the statement of the phrase is the same as spoken by that agent
- `compileWithin_of_spokenBy`: texts that are read alike but for the speaker compile alike
- `compileWithin_speaker`: a text with a speaker in front, and without it
-/

namespace Parley

namespace Phrase

/-- The phrase as spoken by an agent. -/
def spokenBy (p : Phrase) (subject : Agent) : Phrase :=
  match p with
  | simple head => simple { head with subject }
  | compound head region => compound { head with subject } region
  | bareRequest _ region => bareRequest subject region

/-- Of two speakers the last one counts. -/
theorem spokenBy_spokenBy (p : Phrase) (first second : Agent) :
    (p.spokenBy first).spokenBy second = p.spokenBy second := by
  cases p <;> rfl

/-- Every agent may speak a clause. -/
theorem Clause.spokenBy {speaker : Agent} {pattern : Pattern} {body : Text} {p : Phrase}
    (h : Clause speaker pattern body p) (subject : Agent) :
    Clause subject pattern body (p.spokenBy subject) := by
  -- no alternative looks at the speaker
  cases h with
  | agreement hkeyword hchannel hday hindex => exact .agreement hkeyword hchannel hday hindex
  | claim hkeyword htarget hrole => exact .claim hkeyword htarget hrole
  | finding hkeyword htarget hresult => exact .finding hkeyword htarget hresult
  | action hkeyword htarget => exact .action hkeyword htarget
  | addressed hkeyword htarget hgap hregion => exact .addressed hkeyword htarget hgap hregion
  | connective hkeyword hgap hregion => exact .connective hkeyword hgap hregion
  | bareRequest hgap hregion => exact .bareRequest hgap hregion
  | dated hday hgap hregion => exact .dated hday hgap hregion

/-- The phrase of a clause is spoken by the speaker of the clause. -/
theorem Clause.spokenBy_speaker {speaker : Agent} {pattern : Pattern} {body : Text} {p : Phrase}
    (h : Clause speaker pattern body p) : p.spokenBy speaker = p := by
  cases h <;> rfl

/-! ### Reading -/

/-- Where no agent is read, the speaker is open and the text is left as it is. -/
theorem readSubject_of_none {t : Text} (h : Agent.read t = none) :
    readSubject t = (.unspec, t) := by
  rw [readSubject, h]

/-- Where an agent is read, the gap behind it is skipped. -/
theorem readSubject_of_read {t rest : Text} {a : Agent} (h : Agent.read t = some (a, rest)) :
    readSubject t = (a, rest.skipGap) := by
  rw [readSubject, h]

/-- A speaker in front changes the speaker of the phrase that is read, and nothing else. -/
theorem ofSentence?_of_readSubject {s t : Text} {subject : Agent}
    (hs : readSubject s = (subject, t)) (ht : readSubject t = (.unspec, t)) :
    ofSentence? s = (ofSentence? t).map fun p => p.spokenBy subject := by
  -- the two readers are compared phrase by phrase, through the clauses they stand for
  apply Option.ext
  intro p
  rw [Option.map_eq_some_iff, ofSentence?_iff_clause, hs]
  simp only [ofSentence?_iff_clause, ht]
  constructor
  · rintro ⟨pattern, hclause⟩
    refine ⟨p.spokenBy .unspec, ⟨pattern, hclause.spokenBy .unspec⟩, ?_⟩
    rw [spokenBy_spokenBy, hclause.spokenBy_speaker]
  · rintro ⟨q, ⟨pattern, hclause⟩, rfl⟩
    exact ⟨pattern, hclause.spokenBy subject⟩

/-- What begins with an agent is read as a sentence, since no keyword that stands alone does. -/
theorem ofText?_of_read {t rest : Text} {a : Agent} (h : Agent.read t = some (a, rest)) :
    ofText? t = ofSentence? t := by
  apply ofText?_eq_ofSentence?
  intro topic _ hspell
  -- a keyword begins with no agent
  have hnone := topic.read_spell_append []
  rw [List.append_nil, ← hspell, h] at hnone
  exact Option.some_ne_none _ hnone

/-- Nobody speaks a sentence that begins with no agent. -/
theorem spokenBy_unspec_of_ofSentence? {t : Text} {p : Phrase} (hagent : Agent.read t = none)
    (h : ofSentence? t = some p) : p.spokenBy .unspec = p := by
  obtain ⟨pattern, hclause⟩ := ofSentence?_iff_clause.mp h
  rw [readSubject_of_none hagent] at hclause
  exact hclause.spokenBy_speaker

/-- A text with a speaker and a space in front is read as the sentence that it is without them. -/
theorem ofText?_written {a : Agent} {w t : Text} (hw : a.Spelling w)
    (hfirst : ∀ c ∈ t.head?, ¬ Text.isBlank c) (hlast : ∀ c ∈ t.getLast?, ¬ Text.isBlank c)
    (hagent : Agent.read t = none) :
    ofText? (Text.trim (w ++ ' ' :: t)) = (ofSentence? t).map fun p => p.spokenBy a := by
  -- trimming leaves the agent in front and may shorten the space behind it
  obtain ⟨rest, htrim, hskip⟩ := Text.trim_token_append hw.isToken hfirst hlast
  have hread : Agent.read (w ++ rest) = some (a, rest) := Agent.read_append hw rest
  have hsubject : readSubject (w ++ rest) = (a, t) := by
    rw [readSubject_of_read hread, hskip]
  rw [htrim, ofText?_of_read hread]
  exact ofSentence?_of_readSubject hsubject (readSubject_of_none hagent)

end Phrase

namespace Statement

/-- The statement of a phrase is the one of the phrase without a speaker, as spoken by the
speaker. -/
theorem ofPhrase?_spokenBy (compileOperand : Option (Text → Statement)) (p : Phrase)
    (subject : Agent) :
    ofPhrase? compileOperand (p.spokenBy subject) =
      (ofPhrase? compileOperand (p.spokenBy .unspec)).map fun s => s.spokenBy subject := by
  cases p with
  | simple head => exact congrArg some (spokenBy_assemble head [] subject).symm
  | compound head region =>
    simp only [Phrase.spokenBy, ofPhrase?, Option.map_map]
    congr 1
    funext operands
    exact (spokenBy_assemble head operands subject).symm
  -- the addressee is implied by the operands, so it is the same in both
  | bareRequest _ region =>
    simp only [Phrase.spokenBy, ofPhrase?, Option.map_map]
    congr 1
    funext operands
    let head : Head := { topic := .operator, operator := .request,
                         target := Compilation.impliedAddressee operands }
    exact (spokenBy_assemble head operands subject).symm

/-- What is no sentence compiles to `Skip`, unless it ends the conversation. -/
private theorem compileWithin_of_no_sentence {t : Text} (htrim : t.trim = t)
    (hsentence : Phrase.ofSentence? t = none) (hover : t ≠ "Over".toList) (limit : Nat) :
    compileWithin limit t = skip := by
  by_cases hskip : t = "Skip".toList
  · exact compileWithin_simple (by rw [htrim, hskip]; rfl) limit
  · apply compileWithin_of_no_phrase
    rw [htrim, Phrase.ofText?_eq_ofSentence?, hsentence]
    -- two words stand alone, and the text is neither of them
    intro topic hbare hspell
    rcases Topic.skip_or_finished hbare with rfl | rfl
    · exact hskip hspell
    · exact hover hspell

/-- Two texts that are read alike but for the speaker compile alike but for the speaker, unless both
are given up. -/
theorem compileWithin_of_spokenBy {s t : Text} {a : Agent} {p : Phrase}
    (hs : Phrase.ofText? s.trim = some (p.spokenBy a)) (ht : Phrase.ofText? t.trim = some p)
    (hunspoken : p.spokenBy .unspec = p) (limit : Nat) :
    compileWithin limit s = (compileWithin limit t).spokenBy a ∨
      (compileWithin limit s = skip ∧ compileWithin limit t = skip) := by
  -- the phrases have their operands in common, so they are compiled, or refused, alike
  have hcompile := ofPhrase?_spokenBy (operandWithin limit) p a
  rw [hunspoken] at hcompile
  rw [compileWithin_eq_getD, compileWithin_eq_getD limit t, hs, ht, Option.bind_some,
    Option.bind_some, hcompile]
  cases ofPhrase? (operandWithin limit) p with
  | none => exact Or.inr ⟨rfl, rfl⟩
  | some s => exact Or.inl rfl

/-- A text with a speaker in front compiles to what the text compiles to, as spoken by the speaker.
If it comes to nothing, then the text comes to nothing either. -/
private theorem compileWithin_written {a : Agent} {w t : Text} (hw : a.Spelling w)
    (hfirst : ∀ c ∈ t.head?, ¬ Text.isBlank c) (hlast : ∀ c ∈ t.getLast?, ¬ Text.isBlank c)
    (hagent : Agent.read t = none) (hover : t ≠ "Over".toList) (limit : Nat) :
    compileWithin limit (w ++ ' ' :: t) = (compileWithin limit t).spokenBy a ∨
      (compileWithin limit (w ++ ' ' :: t) = skip ∧ compileWithin limit t = skip) := by
  have htrim := Text.trim_eq_self_of_ends hfirst hlast
  have hwritten := Phrase.ofText?_written hw hfirst hlast hagent
  -- a word that stands alone is no sentence, so a speaker in front spoils it
  cases hsentence : Phrase.ofSentence? t with
  | none =>
    rw [hsentence, Option.map_none] at hwritten
    exact Or.inr ⟨compileWithin_of_no_phrase hwritten limit,
      compileWithin_of_no_sentence htrim hsentence hover limit⟩
  | some p =>
    rw [hsentence, Option.map_some] at hwritten
    have hplain : Phrase.ofText? t.trim = some p := by
      rw [htrim]
      exact Phrase.ofText?_of_ofSentence? hsentence
    exact compileWithin_of_spokenBy hwritten hplain
      (Phrase.spokenBy_unspec_of_ofSentence? hagent hsentence) limit

/-- A written speaker is as good as one that is given to the statement. A text that begins and ends
without a blank, and that begins with no agent, compiles with a speaker in front to what it compiles
to without one, as spoken by that agent. The two are equal in every part unless both are `Skip`,
which keeps a speaker that it is given. -/
theorem compileWithin_speaker (limit : Nat) {a : Agent} {w t : Text} (hw : a.Spelling w)
    (hfirst : ∀ c ∈ t.head?, ¬ Text.isBlank c) (hlast : ∀ c ∈ t.getLast?, ¬ Text.isBlank c)
    (hagent : ∀ (other : Agent) (v : Text), other.Spelling v → ¬ v <+: t)
    (hover : t ≠ "Over".toList) :
    compileWithin limit (w ++ ' ' :: t) == (compileWithin limit t).spokenBy a ∧
      ((compileWithin limit (w ++ ' ' :: t)).topic ≠ .skip ∨ (compileWithin limit t).topic ≠ .skip →
        compileWithin limit (w ++ ' ' :: t) = (compileWithin limit t).spokenBy a) := by
  -- an agent is read only where one of its spellings stands
  have hread : Agent.read t = none := by
    rw [Option.eq_none_iff_forall_ne_some]
    rintro ⟨other, rest⟩ hsome
    obtain ⟨v, hv, rfl, -⟩ := Agent.recognises_read.read_iff.mp hsome
    exact hagent other v hv (List.prefix_append v rest)
  rcases compileWithin_written hw hfirst hlast hread hover limit with heq | ⟨hwritten, hplain⟩
  · exact ⟨by rw [heq, beq_iff_text_eq], fun _ => heq⟩
  · rw [hwritten, hplain]
    exact ⟨beq_iff_text_eq.mpr rfl, fun hne => absurd rfl (or_self_iff.mp hne)⟩

/-- A request without an addressee and a group that is no statement, under an operator that is
written with a speaker, or is given the same one afterwards. -/
theorem compileWithin_speaker_because :
    let t := "BECAUSE (REQUEST (VOTE Agent[03])) (who (knows))".toList
    (∀ c ∈ t.head?, ¬ Text.isBlank c) ∧ (∀ c ∈ t.getLast?, ¬ Text.isBlank c) ∧
      (∀ (other : Agent) (v : Text), other.Spelling v → ¬ v <+: t) ∧ t ≠ "Over".toList ∧
      (compileWithin 10 t).topic ≠ .skip ∧
      compileWithin 10 ((⟨7⟩ : Agent).token ++ ' ' :: t) = (compileWithin 10 t).spokenBy ⟨7⟩ ∧
      (compileWithin 10 ((⟨7⟩ : Agent).token ++ ' ' :: t)).text =
        "Agent[07] BECAUSE (REQUEST ANY (VOTE Agent[03])) (Skip)".toList := by
  intro t
  have hfirst : ∀ c ∈ t.head?, ¬ Text.isBlank c := by
    rintro c ⟨⟩
    decide
  have hlast : ∀ c ∈ t.getLast?, ¬ Text.isBlank c := by
    rintro c ⟨⟩
    decide
  have hagent : ∀ (other : Agent) (v : Text), other.Spelling v → ¬ v <+: t := by
    rintro other v hv ⟨rest, heq⟩
    -- no agent is read off the front of the text, but one would be read off its own spelling
    have hread := Agent.read_append hv rest
    have hnone : Agent.read t = none := rfl
    rw [heq, hnone] at hread
    exact nomatch hread
  have hover : t ≠ "Over".toList := by decide
  have htopic : (compileWithin 10 t).topic ≠ .skip := by decide +kernel
  obtain ⟨-, hequal⟩ :=
    compileWithin_speaker 10 (Agent.spelling_token ⟨7⟩) hfirst hlast hagent hover
  exact ⟨hfirst, hlast, hagent, hover, htopic, hequal (Or.inr htopic), by decide +kernel⟩

end Statement

end Parley
