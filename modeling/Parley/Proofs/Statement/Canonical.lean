import Parley.Proofs.Text.Speaker
import Parley.Proofs.Text.Unbracketed
import Parley.Proofs.Statement.Invariant

/-!
# The parts of a canonical text

A canonical text is a speaker and a *sentence*, which begins with the keyword. Cutting the speaker
off a finished text and never writing it come to the same. Brackets stand in a canonical text only
around operands, so every canonical text is balanced.

## Key results

- `render_voiced`: a canonical text is the speaker and the sentence
- `operandText_voiced`: an operand is written with its speaker unless its context implies it
- `balanced_operandText`: operands are balanced
- `groups_groupsText`: operands that are written in brackets are found again as groups
-/

namespace Parley

/-- Whether statements of this form are written with their speaker. -/
def Form.isVoiced : Form → Bool
  | .empty | .bare => false
  | _ => true

/-- A form with a speaker is not bare. -/
theorem Form.ne_bare_of_isVoiced {form : Form} (h : form.isVoiced = true) : form ≠ .bare := by
  intro hbare
  rw [hbare] at h
  exact nomatch h

/-- The only topic with operands is that of an operator. -/
theorem Topic.form_eq_compound_iff {topic : Topic} :
    topic.form = .compound ↔ topic = .operator := by
  cases topic <;> decide

/-- What has a speaker says something. -/
theorem Topic.ne_dummy_of_isVoiced {topic : Topic} (h : topic.form.isVoiced = true) :
    topic ≠ .dummy := by
  intro hdummy
  rw [hdummy] at h
  exact nomatch h

/-- A bare statement says something and has no operands. -/
theorem Topic.ne_of_bare {topic : Topic} (h : topic.form = .bare) :
    topic ≠ .dummy ∧ topic ≠ .operator := by
  constructor <;> intro htopic <;> rw [htopic] at h <;> exact nomatch h

/-- A statement says nothing, is bare, has fields or has operands. -/
theorem Topic.cases (topic : Topic) :
    topic = .dummy ∨ topic.form = .bare ∨
      (topic.form.isVoiced = true ∧ topic ≠ .operator) ∨ topic = .operator := by
  cases topic <;> decide

/-- The speaker as it is written in a context: not at all if the context implies it. -/
def Agent.unlessImplied (a context : Agent) : Agent :=
  if a = context then .unspec else a

/-- A speaker is not written where it is implied. -/
theorem Agent.speakerText_unlessImplied_self (a : Agent) :
    (a.unlessImplied a).speakerText = [] := by
  simp [unlessImplied, speakerText]

namespace Statement

/-- The fields of a simple statement, as they follow the keyword. -/
def fieldsText (head : Head) : Text :=
  match head.topic.form with
  | .agreement =>
    field (Vocabulary.spell head.utterance.channel ++
      field (Text.ofInt head.utterance.day.toInt ++
        field (Text.ofInt head.utterance.index.toInt)))
  | .claim => field (head.target.targetText ++ field (Vocabulary.spell head.role))
  | .finding => field (head.target.targetText ++ field (Vocabulary.spell head.result))
  | .action => field head.target.targetText
  | .empty | .bare | .compound => []

/-- Operands in brackets, each after a space. -/
def groupsText (texts : List Text) : Text :=
  texts.flatMap fun t => field ('(' :: t ++ [')'])

/-- The canonical text of a statement from its keyword on. -/
def sentence (head : Head) (operands : List Statement) : Text :=
  match head.topic.form with
  | .compound =>
    Vocabulary.spell head.operator ++
      (argumentText head ++ groupsText (operands.map (operandText head.context)))
  | _ => Vocabulary.spell head.topic ++ fieldsText head

/-- The canonical text of a statement that has a speaker. -/
theorem render_voiced {head : Head} (hvoiced : head.topic.form.isVoiced = true)
    (operands : List Statement) :
    render head operands = head.subject.speakerText ++ sentence head operands := by
  -- both sides are written form by form
  cases hform : head.topic.form with
  | empty | bare =>
    rw [hform] at hvoiced
    exact nomatch hvoiced
  | agreement | claim | finding | action | compound =>
    simp [render, sentence, fieldsText, hform, field, groupsText, List.flatMap_map]

/-- The sentence of a simple statement is its keyword and its fields. -/
theorem sentence_simple {head : Head} (h : head.topic ≠ .operator) (operands : List Statement) :
    sentence head operands = Vocabulary.spell head.topic ++ fieldsText head := by
  unfold sentence
  split
  · next hform => exact absurd (Topic.form_eq_compound_iff.mp hform) h
  · rfl

/-- The sentence of a compound statement is its operator, the argument and the operands in brackets.
-/
theorem sentence_compound {head : Head} (h : head.topic = .operator)
    (operands : List Statement) :
    sentence head operands = Vocabulary.spell head.operator ++
      (argumentText head ++ groupsText (operands.map (operandText head.context))) := by
  rw [sentence, Topic.form_eq_compound_iff.mpr h]

/-- A sentence begins with its keyword, and no keyword is taken for a speaker. -/
theorem isSentence_sentence {head : Head} (hvoiced : head.topic.form.isVoiced = true)
    (operands : List Statement) : (sentence head operands).IsSentence := by
  unfold sentence
  split
  · -- the keyword is the operator
    exact (Operator.isKeyword_spell _).isSentence (Operator.read_spell_append _ _)
  · -- the keyword is the topic
    have hkeyword := Topic.isKeyword_spell (Form.ne_bare_of_isVoiced hvoiced)
    exact hkeyword.isSentence (Topic.read_spell_append _ _)

/-- The canonical text of a statement without a speaker is a fixed word, which is never cut. -/
private theorem stripSubject_unvoiced {head : Head} (hvoiced : head.topic.form.isVoiced = false)
    (operands : List Statement) : stripSubject (render head operands) = render head operands := by
  unfold render
  revert hvoiced
  cases head.topic <;> intro hvoiced <;> first | rfl | exact absurd hvoiced Bool.noConfusion

/-- An operand with a speaker is written with it unless its context implies it. -/
theorem operandText_voiced {s : Statement} (hsettled : s.Settled)
    (hvoiced : s.topic.form.isVoiced = true) (context : Agent) :
    operandText context s =
      (s.subject.unlessImplied context).speakerText ++ sentence s.toHead s.operands := by
  have htext : s.text = s.subject.speakerText ++ sentence s.toHead s.operands := by
    rw [hsettled.text, render_voiced hvoiced]
  unfold operandText Agent.unlessImplied
  split
  · -- the speaker is cut off the finished text
    rw [htext, stripSubject_append (Agent.speakerPrefix_speakerText _)
      (isSentence_sentence hvoiced _)]
    rfl
  · exact htext

/-- An operand without a speaker is written as it is in every context. -/
theorem operandText_unvoiced {s : Statement} (hsettled : s.Settled)
    (hvoiced : s.topic.form.isVoiced = false) (context : Agent) :
    operandText context s = render s.toHead s.operands := by
  unfold operandText
  rw [hsettled.text, stripSubject_unvoiced hvoiced, ite_self]

/-- A bare operand is its keyword in every context. -/
theorem operandText_bare {s : Statement} (hsettled : s.Settled) (hbare : s.topic.form = .bare)
    (context : Agent) : operandText context s = Vocabulary.spell s.topic := by
  rw [operandText_unvoiced hsettled (by rw [hbare]; rfl)]
  simp [render, hbare]

/-- An operand that says nothing has no text in any context. -/
theorem operandText_dummy {s : Statement} (hsettled : s.Settled) (hdummy : s.topic = .dummy)
    (context : Agent) : operandText context s = [] := by
  rw [operandText_unvoiced hsettled (by rw [hdummy]; rfl)]
  simp [render, hdummy, Topic.form]

/-- A compound operand is its speaker, unless implied, and its own operands in brackets. -/
theorem operandText_compound {s : Statement} (hsettled : s.Settled) (hop : s.topic = .operator)
    (context : Agent) :
    operandText context s =
      (s.subject.unlessImplied context).speakerText ++ (Vocabulary.spell s.operator ++
        (argumentText s.toHead ++ groupsText (s.operands.map (operandText s.toHead.context)))) := by
  rw [operandText_voiced hsettled (by rw [hop]; rfl), sentence_compound hop]

/-- Where nobody is implied, an operand is written as it is written by itself. -/
theorem operandText_unspec {s : Statement} (hsettled : s.Settled) :
    operandText .unspec s = s.text := by
  cases hvoiced : s.topic.form.isVoiced with
  | false => rw [operandText_unvoiced hsettled hvoiced, hsettled.text]
  | true =>
    -- an open speaker is not written either way
    have hsubject : s.subject.unlessImplied .unspec = s.subject := by
      unfold Agent.unlessImplied
      split
      · next h => exact h.symm
      · rfl
    rw [operandText_voiced hsettled hvoiced, hsubject, hsettled.text, render_voiced hvoiced]

/-! ### Balance -/

/-- A field has the brackets of what is in it. -/
@[simp] private theorem unbracketed_field {t : Text} :
    (field t).Unbracketed ↔ t.Unbracketed := by
  simp [field]

/-- There is no bracket in front of a sentence. -/
private theorem unbracketed_speaker {a : Agent} {p : Text} (hp : a.SpeakerPrefix p) :
    p.Unbracketed := by
  cases hp with
  | absent => exact Text.unbracketed_nil
  | written hw => simp [hw.unbracketed]

@[simp] private theorem unbracketed_ofInt (n : Int) : (Text.ofInt n).Unbracketed :=
  (Text.intSpelling_ofInt n).unbracketed

@[simp] private theorem unbracketed_targetText (a : Agent) : a.targetText.Unbracketed :=
  (Agent.spelling_targetText a).unbracketed

/-- There is no bracket in the fields of a simple statement. -/
private theorem unbracketed_fieldsText (head : Head) : (fieldsText head).Unbracketed := by
  unfold fieldsText
  split
  · simp [(Channel.isKeyword_spell head.utterance.channel).unbracketed]
  · simp [(Role.isKeyword_spell head.role).unbracketed]
  · simp [(Species.isKeyword_spell head.result).unbracketed]
  all_goals simp

/-- There is no bracket between an operator and its operands. -/
private theorem unbracketed_argumentText (head : Head) : (argumentText head).Unbracketed := by
  unfold argumentText
  split <;> simp

/-- Balanced texts in brackets are balanced together. -/
theorem balanced_groupsText {texts : List Text} (h : ∀ t ∈ texts, t.Balanced) :
    (groupsText texts).Balanced :=
  -- a group is a space and a balanced text in brackets
  have hspace : Text.Unbracketed [' '] := by simp
  Text.balanced_flatMap fun t ht => hspace.balanced.append (h t ht).enclose

/-- A statement whose operands are balanced has a balanced sentence. -/
private theorem balanced_sentence {head : Head} (hvoiced : head.topic.form.isVoiced = true)
    {operands : List Statement}
    (h : ∀ operand ∈ operands, (operandText head.context operand).Balanced) :
    (sentence head operands).Balanced := by
  unfold sentence
  split
  · have hoperands : (groupsText (operands.map (operandText head.context))).Balanced := by
      apply balanced_groupsText
      intro t ht
      obtain ⟨operand, ho, rfl⟩ := List.mem_map.mp ht
      exact h operand ho
    exact (Operator.isKeyword_spell _).unbracketed.balanced.append
      ((unbracketed_argumentText head).balanced.append hoperands)
  · have hkeyword := Topic.isKeyword_spell (Form.ne_bare_of_isVoiced hvoiced)
    exact hkeyword.unbracketed.balanced.append (unbracketed_fieldsText head).balanced

/-- Operands are balanced, with their speaker or without. -/
theorem balanced_operandText {s : Statement} (hsettled : ∀ n ∈ s.nodes, n.Settled)
    (context : Agent) : (operandText context s).Balanced := by
  -- each operand is written in the context of its own statement
  induction s generalizing context with
  | node head operands text ih =>
    obtain ⟨hself, hbelow⟩ := forall_nodes_iff.mp hsettled
    -- a text with a speaker is a sentence over balanced operands, any other is a fixed word
    cases hvoiced : head.topic.form.isVoiced with
    | true =>
      rw [operandText_voiced hself hvoiced]
      exact (unbracketed_speaker (Agent.speakerPrefix_speakerText _)).balanced.append
        (balanced_sentence hvoiced fun operand ho => ih operand ho (hbelow operand ho) _)
    | false =>
      rw [operandText_unvoiced hself hvoiced]
      have hword : ∀ topic : Topic, topic.form.isVoiced = false →
          Text.Unbracketed (Vocabulary.spell topic) := by
        intro topic
        unfold Text.Unbracketed
        cases topic <;> decide
      unfold render
      split
      · exact Text.balanced_nil
      · exact (hword _ hvoiced).balanced
      all_goals
        next hform =>
          rw [hform] at hvoiced
          exact nomatch hvoiced

/-- The texts of all operands are balanced. -/
theorem balanced_operandTexts {operands : List Statement}
    (hsettled : ∀ operand ∈ operands, ∀ n ∈ operand.nodes, n.Settled) (context : Agent) :
    ∀ t ∈ operands.map (operandText context), t.Balanced := by
  intro t ht
  obtain ⟨operand, ho, rfl⟩ := List.mem_map.mp ht
  exact balanced_operandText (hsettled operand ho) context

/-! ### Groups -/

/-- Operands that are written in brackets are found again as groups. -/
theorem groups_groupsText {texts : List Text} (h : ∀ t ∈ texts, t.Balanced) :
    Text.groups (groupsText texts) = texts := by
  induction texts with
  | nil => rfl
  | cons t rest ih =>
    obtain ⟨ht, hrest⟩ := List.forall_mem_cons.mp h
    -- the space is passed over, and the first group ends where the next space stands
    have hsplit : groupsText (t :: rest) = ' ' :: ('(' :: t ++ ')' :: groupsText rest) := by
      simp [groupsText, field]
    rw [hsplit, Text.groups_cons_of_ne (by decide), Text.groups_enclosed ht, ih hrest]

/-- Operands in brackets are written alike only if their texts are the same. -/
theorem groupsText_inj {first second : List Text} (hfirst : ∀ t ∈ first, t.Balanced)
    (hsecond : ∀ t ∈ second, t.Balanced) :
    groupsText first = groupsText second ↔ first = second := by
  constructor
  · intro h
    -- each list is what is found again in its text
    rw [← groups_groupsText hfirst, ← groups_groupsText hsecond, h]
  · exact congrArg groupsText

end Statement

end Parley
