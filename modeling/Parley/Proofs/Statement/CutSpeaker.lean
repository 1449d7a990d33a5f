import Parley.Proofs.Statement.RoundTrip
import Parley.Proofs.Statement.WrittenSpeaker

/-!
# Cutting off a speaker

A speaker can be cut off a text that nobody has looked into. What counts as a blank there is more
than what may separate tokens, and no keyword has to follow, only a capital letter. Still nothing is
lost but the speaker if the text is a statement at all: where the two notions differ, it is none.

## Key results

- `stripSubject_cases`: what is cut off a text
- `ofText?_cut`: what is left is read as the whole is, but for the speaker
- `compileWithin_stripSubject`: it compiles to the same, once it is given the speaker again
-/

namespace Parley.Statement

/-- Nothing is cut off a text, or else an agent and the blanks behind it, in front of a capital
letter. -/
theorem stripSubject_cases (t : Text) :
    stripSubject t = t ∨
      ∃ (a : Agent) (w blanks : Text), a.Spelling w ∧ (∀ c ∈ blanks, Text.isBlank c) ∧
        t = w ++ (blanks ++ stripSubject t) ∧ ∃ c, (stripSubject t).head? = some c ∧ c.isUpper := by
  unfold stripSubject
  split
  · next a c rest hread =>
    dsimp only
    split
    · next hcut =>
      obtain ⟨w, hw, rfl, -⟩ := Agent.recognises_read.read_iff.mp hread
      rw [Bool.and_eq_true, Option.any_eq_true] at hcut
      obtain ⟨hblank, d, hd, hupper⟩ := hcut
      -- the blank that was tested and those behind it are what is cut off with the agent
      refine Or.inr ⟨a, w, c :: rest.takeWhile Text.isBlank, hw, ?_, ?_, d, hd, hupper⟩
      · exact List.forall_mem_cons.mpr ⟨hblank, fun c hc => List.mem_takeWhile_imp hc⟩
      · rw [List.cons_append, Text.trimStart, List.takeWhile_append_dropWhile]
    · exact Or.inl rfl
  · exact Or.inl rfl

/-- What is left of a text stands at its end. -/
theorem stripSubject_suffix (t : Text) : stripSubject t <:+ t := by
  rcases stripSubject_cases t with hkept | ⟨_, w, blanks, -, -, htext, -⟩
  · exact ⟨[], by rw [List.nil_append, hkept]⟩
  · refine ⟨w ++ blanks, ?_⟩
    rw [List.append_assoc, ← htext]

/-- If an agent, blanks and a text are read as a phrase, then the text is read as the phrase that it
is without a speaker, and the agent is the speaker. -/
theorem ofText?_cut {a : Agent} {w blanks t : Text} (hw : a.Spelling w)
    (hblanks : ∀ c ∈ blanks, Text.isBlank c) {c : Char} (hfirst : t.head? = some c)
    (hupper : c.isUpper) {p : Phrase}
    (hread : Phrase.ofText? (Text.trim (w ++ (blanks ++ t))) = some p) :
    ∃ q, Phrase.ofText? t.trim = some q ∧ q.spokenBy .unspec = q ∧ q.spokenBy a = p := by
  have hc := Text.not_isBlank_of_isUpper hupper
  -- what is left begins with the capital letter, so it is trimmed at its end only
  have htrim : t.trim = t.trimEnd := by
    rw [Text.trim, Text.trimStart_of_head (Text.not_isBlank_of_head? hfirst hc)]
  have hstart : ∀ d ∈ t.trim.head?, ¬ Text.isBlank d := by
    rw [htrim]
    exact Text.not_isBlank_of_head? (Text.head?_trimEnd hfirst hc) hc
  -- in the whole text the same agent is read first
  have hagent : Agent.read (w ++ (blanks ++ t.trim)) = some (a, blanks ++ t.trim) :=
    Agent.read_append hw _
  have hsubject := Phrase.readSubject_of_read hagent
  rw [Text.trim_token_append_append hw.isToken blanks hfirst hc, ← htrim,
    Phrase.ofText?_of_read hagent] at hread
  -- what is read behind the gap is a clause, so nothing blank is left there
  obtain ⟨pattern, hclause⟩ := Phrase.ofSentence?_iff_clause.mp hread
  have hsentence : Text.IsSentence (Text.skipGap (blanks ++ t.trim)) := by
    rw [hsubject] at hclause
    exact hclause.isSentence
  -- blanks that are no gaps would be left in front of the keyword
  have hskip : Text.skipGap (blanks ++ t.trim) = t.trim := by
    obtain ⟨d, rest, heq, hd⟩ := hsentence.head_upper
    refine Text.skipGap_blank_append hblanks hstart ?_
    exact Text.not_isBlank_of_head? (by rw [heq]; rfl) (Text.not_isBlank_of_isUpper hd)
  rw [hskip] at hsubject hsentence
  have hnone := hsentence.no_agent
  rw [Phrase.ofSentence?_of_readSubject hsubject (Phrase.readSubject_of_none hnone),
    Option.map_eq_some_iff] at hread
  obtain ⟨q, hq, hspoken⟩ := hread
  exact ⟨q, Phrase.ofText?_of_ofSentence? hq, Phrase.spokenBy_unspec_of_ofSentence? hnone hq,
    hspoken⟩

/-- Nobody speaks a statement whose text is read without a speaker. -/
theorem subject_compileWithin_of_unspoken {t : Text} {p : Phrase}
    (hread : Phrase.ofText? t.trim = some p) (hunspoken : p.spokenBy .unspec = p) (limit : Nat) :
    (compileWithin limit t).subject = .unspec := by
  have hspoken : Phrase.ofText? t.trim = some (p.spokenBy .unspec) := by rw [hunspoken, hread]
  rcases compileWithin_of_spokenBy hspoken hread hunspoken limit with heq | ⟨hskip, -⟩
  · rw [heq, spokenBy, subject_complete]
  · rw [hskip]
    rfl

/-- Cutting off the speaker that a text begins with loses the speaker and nothing else. Unless the
text compiles to `Skip`, what is left of it compiles to the same statement, in every part, once it
is given the speaker again, and that whether anything is cut off or not. If something is, then
nobody speaks what is left. -/
theorem compileWithin_stripSubject (limit : Nat) {t : Text}
    (h : (compileWithin limit t).topic ≠ .skip) :
    (compileWithin limit (stripSubject t)).spokenBy (compileWithin limit t).subject =
        compileWithin limit t ∧
      (stripSubject t = t ∨ (compileWithin limit (stripSubject t)).subject = .unspec) := by
  rcases stripSubject_cases t with hkept | ⟨a, w, blanks, hw, hblanks, htext, c, hfirst, hupper⟩
  · rw [hkept]
    exact ⟨finish_compileWithin limit t, Or.inl rfl⟩
  · -- the text is a phrase, or it would compile to `Skip`
    obtain ⟨p, hread⟩ : ∃ p, Phrase.ofText? t.trim = some p := by
      rw [← Option.ne_none_iff_exists']
      intro hnone
      rw [compileWithin_of_no_phrase hnone] at h
      exact h rfl
    have hwhole := hread
    rw [htext] at hwhole
    obtain ⟨q, hq, hunspoken, rfl⟩ := ofText?_cut hw hblanks hfirst hupper hwhole
    have hopen := subject_compileWithin_of_unspoken hq hunspoken limit
    -- given up are both texts or none, and the whole is not
    rcases compileWithin_of_spokenBy hread hq hunspoken limit with heq | ⟨hskip, -⟩
    · refine ⟨?_, Or.inr hopen⟩
      rw [heq, spokenBy, spokenBy, subject_complete]
    · rw [hskip] at h
      exact absurd rfl h

/-- Two reasons, with a padded speaker in front, all sorts of gaps, and a blank behind that is no
gap. The speaker is cut off, and the open speakers below are still the same when it is given
back. -/
theorem compileWithin_stripSubject_because :
    let t := "Agent[007]\t \nBECAUSE (REQUEST (VOTE Agent[03])) (who (knows))\u3000".toList
    (compileWithin 10 t).topic ≠ .skip ∧
      stripSubject t = "BECAUSE (REQUEST (VOTE Agent[03])) (who (knows))\u3000".toList ∧
      (compileWithin 10 (stripSubject t)).text =
        "BECAUSE (REQUEST ANY (VOTE Agent[03])) (Skip)".toList ∧
      (compileWithin 10 (stripSubject t)).spokenBy ⟨7⟩ = compileWithin 10 t ∧
      (compileWithin 10 (stripSubject t)).subject = .unspec := by
  intro t
  have htopic : (compileWithin 10 t).topic ≠ .skip := by decide +kernel
  have hsubject : (compileWithin 10 t).subject = ⟨7⟩ := by decide +kernel
  have hcut : stripSubject t = "BECAUSE (REQUEST (VOTE Agent[03])) (who (knows))\u3000".toList := by
    decide +kernel
  obtain ⟨hsame, hopen⟩ := compileWithin_stripSubject 10 htopic
  rw [hsubject] at hsame
  have hshorter : stripSubject t ≠ t := by
    rw [hcut]
    decide +kernel
  exact ⟨htopic, hcut, by decide +kernel, hsame, hopen.resolve_left hshorter⟩

end Parley.Statement
