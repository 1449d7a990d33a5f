import Parley.Proofs.Statement.Canonical
import Parley.Proofs.Statement.GrammarText

/-!
# Reading phrases

A canonical text follows the grammar, so the reader of phrases takes it apart again: the speaker,
the keyword, and the fields or the region of the operands. Speaker and addressee may be in any of
their spellings.

## Key results

- `grammar_simple`: a simple statement is read back, with an open target read as anybody
- `grammar_compound`: an operator is read with its arguments and the whole region
- `trim_compound`: there are no blanks around a compound statement
-/

namespace Parley

/-- The head with an open target of a simple statement replaced by anybody, as it is written. -/
def Head.aimed (head : Head) : Head :=
  { head with target := if head.topic.form.hasTarget then head.target.orElse .any else head.target }

/-! ### Canonical texts in the grammar -/

/-- One space is a gap. -/
theorem Text.isGap_space : Text.IsGap [' '] :=
  ⟨List.cons_ne_nil _ _, by simp⟩

/-- A field is what it spells behind a gap. -/
theorem Text.apart_field {Spells : Text → Prop} {w : Text} (hw : Spells w) :
    Text.Apart Spells (Statement.field w) :=
  ⟨[' '], w, Text.isGap_space, hw, rfl⟩

/-- A speaker with one space behind it opens a phrase. -/
theorem Agent.SpeakerPrefix.opening {a : Agent} {p : Text} (hp : a.SpeakerPrefix p) :
    Phrase.Opening a p := by
  cases hp with
  | absent => exact .absent
  | written hw => exact .written hw (by simp)

namespace Phrase

open Statement (field fieldsText sentence argumentText groupsText operandText)

/-- The fields of a well-formed head are those of a clause. Its target is anybody if it is open. -/
theorem clause_fieldsText {head : Head} (hwf : head.WellFormed)
    (hvoiced : head.topic.form.isVoiced = true) (hsimple : head.topic ≠ .operator)
    (speaker : Agent) :
    ∃ pattern, Clause speaker pattern (Vocabulary.spell head.topic ++ fieldsText head)
      (simple { head.aimed with subject := speaker }) := by
  have hnop := hwf.operator_eq_nop hsimple
  have hday : head.day = -1 := hwf.day_unused (by rw [hnop]; decide)
  have htarget : head.topic.form.hasTarget = false → head.target = .any := fun hform =>
    hwf.target_unused hform (by rw [hnop]; rfl)
  have hutterance := hwf.utterance_reference
  have hrole := hwf.role_unused
  have hresult := hwf.result_unused
  have hunset := hwf.utterance_unused
  -- the head is taken apart, so that its unused fields can be replaced by their defaults
  obtain ⟨topic, operator, subject, target, role, result, utterance, day⟩ := head
  dsimp only at *
  subst hnop hday
  -- a target is spelled as an agent or, if it is open, as anybody
  have haimed := Text.apart_field (Agent.spelling_targetText target)
  cases hform : topic.form with
  | empty | bare =>
    rw [hform] at hvoiced
    exact nomatch hvoiced
  | compound =>
    exact absurd (Topic.form_eq_compound_iff.mp hform) hsimple
  | agreement =>
    have hchannel : Keyword channels utterance.channel (Vocabulary.spell utterance.channel) := by
      rw [keyword_channels]
    have hclause : Clause speaker _ _ _ := .agreement (keyword_spell (by decide) hform)
      (Text.apart_field hchannel)
      (Text.apart_field (Or.inl (Text.intSpelling_ofInt utterance.day.toInt)))
      (Text.apart_field (Or.inl (Text.intSpelling_ofInt utterance.index.toInt)))
    rw [← hutterance] at hclause
    -- there is no target to be open
    have htarget := htarget (by rw [hform]; rfl)
    simp only [hform] at hrole hresult
    refine ⟨.agreement, ?_⟩
    simpa [fieldsText, Head.aimed, hform, Form.hasTarget, htarget, hrole, hresult, field]
      using hclause
  | claim =>
    have hclause : Clause speaker _ _ _ := .claim (keyword_spell (by decide) hform) haimed
      (Text.apart_field (w := Vocabulary.spell role) rfl)
    simp only [hform] at hresult hunset
    refine ⟨.claim, ?_⟩
    simpa [fieldsText, Head.aimed, hform, Form.hasTarget, hresult, hunset, field] using hclause
  | finding =>
    have hclause : Clause speaker _ _ _ := .finding (keyword_spell (by decide) hform) haimed
      (Text.apart_field (w := Vocabulary.spell result) rfl)
    simp only [hform] at hrole hunset
    refine ⟨.finding, ?_⟩
    simpa [fieldsText, Head.aimed, hform, Form.hasTarget, hrole, hunset, field] using hclause
  | action =>
    have hclause : Clause speaker _ _ _ := .action (keyword_spell (by decide) hform) haimed
    simp only [hform] at hrole hresult hunset
    refine ⟨.action, ?_⟩
    simpa [fieldsText, Head.aimed, hform, Form.hasTarget, hrole, hresult, hunset] using hclause

/-- A simple statement with a speaker in front is read back: its open target is read as anybody, and
its speaker is the one that is written. -/
theorem grammar_simple {head : Head} (hwf : head.WellFormed)
    (hvoiced : head.topic.form.isVoiced = true) (hsimple : head.topic ≠ .operator)
    (operands : List Statement) {a : Agent} {p : Text} (hp : a.SpeakerPrefix p) :
    ∃ pattern, Grammar pattern (p ++ sentence head operands)
      (simple { head.aimed with subject := a }) := by
  obtain ⟨pattern, hclause⟩ := clause_fieldsText hwf hvoiced hsimple a
  rw [Statement.sentence_simple hsimple]
  exact ⟨pattern, .sentence hp.opening hclause⟩

/-! ### Operators -/

/-- The ways to write what stands between an operator and its operands. -/
inductive Arguments : Head → Text → Prop where
  /-- Most operators have no arguments. -/
  | none {operator : Operator} {subject : Agent}
      (h : operator ≠ .nop ∧ operator ≠ .day ∧ operator.addressesTarget = false) :
      Arguments { topic := .operator, operator, subject } []
  /-- The addressee, in one of its spellings. -/
  | addressee {operator : Operator} {subject target : Agent} {w : Text}
      (h : operator.addressesTarget = true) (hw : target.Spelling w) :
      Arguments { topic := .operator, operator, subject, target } (field w)
  /-- The day. -/
  | day {subject : Agent} {day : Int32} :
      Arguments { topic := .operator, operator := .day, subject, day }
        (field (Text.ofInt day.toInt))

/-- An operator with its arguments and a region is a clause. -/
theorem clause_arguments {head : Head} {arguments region : Text}
    (harguments : Arguments head arguments) (hregion : IsRegion region) :
    ∃ pattern, Clause head.subject pattern
      (Vocabulary.spell head.operator ++ (arguments ++ field region)) (compound head region) := by
  cases harguments with
  | none h =>
    exact ⟨_, .connective (keyword_connectives.mpr ⟨h, rfl⟩) Text.isGap_space hregion⟩
  | addressee h hw =>
    exact ⟨_, .addressed (keyword_addresses.mpr ⟨h, rfl⟩) (Text.apart_field hw) Text.isGap_space
      hregion⟩
  | day =>
    exact ⟨_, .dated (Text.apart_field (Text.intSpelling_ofInt _)) Text.isGap_space hregion⟩

/-- A compound statement with a speaker in front is read as its head and its region. -/
theorem grammar_compound {head : Head} {p arguments region : Text}
    (hp : head.subject.SpeakerPrefix p) (harguments : Arguments head arguments)
    (hregion : IsRegion region) :
    ∃ pattern, Grammar pattern
      (p ++ (Vocabulary.spell head.operator ++ (arguments ++ field region)))
      (compound head region) := by
  obtain ⟨pattern, hclause⟩ := clause_arguments harguments hregion
  exact ⟨pattern, .sentence hp.opening hclause⟩

/-- A compound statement with a speaker in front is read as its head and its region. -/
theorem ofText?_compound {head : Head} {p arguments region : Text}
    (hp : head.subject.SpeakerPrefix p) (harguments : Arguments head arguments)
    (hregion : IsRegion region) :
    ofText? (p ++ (Vocabulary.spell head.operator ++ (arguments ++ field region))) =
      some (compound head region) :=
  ofText?_eq_some_iff.mpr (grammar_compound hp harguments hregion)

/-- The canonical text of the arguments is one of the ways to write them, whoever speaks. -/
theorem arguments_argumentText {head : Head} (hwf : head.WellFormed) (hop : head.topic = .operator)
    (haddressee : head.operator.addressesTarget = true → head.target ≠ .unspec) (a : Agent) :
    Arguments { head with subject := a } (argumentText head) := by
  have hne := hwf.operator_iff.mp hop
  have htarget := hwf.target_unused (by rw [hop]; rfl)
  have hrole := hwf.role_unused (by rw [hop]; decide)
  have hresult := hwf.result_unused (by rw [hop]; decide)
  have hutterance := hwf.utterance_unused (by rw [hop]; decide)
  have hday := hwf.day_unused
  -- the unused fields are replaced by their defaults, as the reader fills them in
  obtain ⟨topic, operator, subject, target, role, result, utterance, day⟩ := head
  dsimp only at *
  subst hop hrole hresult hutterance
  -- an addressee that is named is its own target
  have hspelling : operator.addressesTarget = true → target.Spelling target.targetText := by
    intro haddress
    have h := Agent.spelling_targetText target
    rwa [Agent.orElse, if_neg (haddressee haddress)] at h
  cases operator with
  | nop => exact absurd rfl hne
  | request | inquire =>
    have hday := hday (by decide)
    subst hday
    exact .addressee rfl (hspelling rfl)
  | day =>
    have htarget := htarget rfl
    subst htarget
    exact .day
  | because | not | and | or | xor =>
    have htarget := htarget rfl
    have hday := hday (by decide)
    subst htarget hday
    exact .none (by decide)

/-- Operands in brackets end with a bracket. -/
private theorem getLast?_groupsText {texts : List Text} (hne : texts ≠ []) :
    (groupsText texts).getLast? = some ')' := by
  -- the last text stands in brackets of its own
  have hsplit : groupsText texts =
      (groupsText texts.dropLast ++ field ('(' :: texts.getLast hne)) ++ [')'] := by
    conv => lhs; rw [← List.dropLast_concat_getLast hne]
    simp [groupsText, field]
  rw [hsplit, List.getLast?_concat]

/-- Operands in brackets make up a region, which holds them as its groups. -/
theorem exists_region_of_groupsText {texts : List Text} (hne : texts ≠ [])
    (hbalanced : ∀ t ∈ texts, t.Balanced) :
    ∃ region, IsRegion region ∧ Text.groups region = texts ∧ groupsText texts = field region := by
  cases texts with
  | nil => exact absurd rfl hne
  | cons t rest =>
    -- the region begins behind the first space
    have hsplit : groupsText (t :: rest) = field ('(' :: t ++ [')'] ++ groupsText rest) := rfl
    have hgroups := Statement.groups_groupsText hbalanced
    have hlast := getLast?_groupsText hne
    rw [hsplit, field, Text.groups_cons_of_ne (by decide)] at hgroups
    rw [hsplit] at hlast
    exact ⟨'(' :: t ++ [')'] ++ groupsText rest, ⟨rfl, hlast⟩, hgroups, hsplit⟩

/-- There are no blanks around a compound statement, which ends with its last bracket. -/
theorem trim_compound {a : Agent} {p arguments region : Text} {operator : Operator}
    (hp : a.SpeakerPrefix p) (hregion : IsRegion region) :
    Text.trim (p ++ (Vocabulary.spell operator ++ (arguments ++ field region))) =
      p ++ (Vocabulary.spell operator ++ (arguments ++ field region)) := by
  have hends : Text.EndsInToken (field region) := hregion.endsInToken.append_left [' ']
  exact hp.opening.trim_eq (Operator.isKeyword_spell operator) (hends.append_left arguments)

end Phrase

end Parley
