import Parley.Proofs.Statement.CutSpeaker
import Parley.Proofs.Statement.Printing

/-!
# Canonical texts in brackets

A canonical text can be put into brackets and found again. It has ASCII characters only, no blank at
either end and no bracket without its partner. The brackets of its own operands are the first ones
in it, so the splitter finds the operands there, one group for each, and does not look into them.

## Key results

- `isAscii_text`: canonical texts are ASCII
- `trim_operandText`: there are no blanks around an operand
- `operandText_eq_nil_iff`: only a statement that says nothing is written as nothing
- `Reachable.bracket_safe`: all of this at every node of every statement that can be made
-/

namespace Parley

/-! ### ASCII -/

namespace Text

/-- A text of ASCII characters. -/
def IsAscii (t : Text) : Prop :=
  ∀ c ∈ t, c.toNat < 128

@[simp] theorem isAscii_nil : IsAscii [] :=
  List.forall_mem_nil _

@[simp] theorem isAscii_cons {c : Char} {t : Text} :
    IsAscii (c :: t) ↔ c.toNat < 128 ∧ IsAscii t :=
  List.forall_mem_cons

@[simp] theorem isAscii_append {s t : Text} : IsAscii (s ++ t) ↔ IsAscii s ∧ IsAscii t :=
  List.forall_mem_append

/-- Digits are ASCII. -/
theorem isAscii_of_isDigit {t : Text} (h : ∀ c ∈ t, c.isDigit) : IsAscii t := by
  intro c hc
  have hrange := toNat_of_isDigit (h c hc)
  omega

/-- Keywords are capital letters, so they are ASCII. -/
theorem IsKeyword.isAscii {w : Text} (h : IsKeyword w) : w.IsAscii := by
  intro c hc
  have hrange := toNat_of_isUpper (h.2 c hc)
  omega

/-- Integers are written in ASCII. -/
theorem IntSpelling.isAscii {n : Int} {w : Text} (h : IntSpelling n w) : w.IsAscii := by
  cases h with
  | plain hds => exact isAscii_of_isDigit hds.2
  | minus hds => simp [isAscii_of_isDigit hds.2]

end Text

/-- Agents are written in ASCII, however they are spelled. -/
theorem Agent.Spelling.isAscii {a : Agent} {w : Text} (h : a.Spelling w) : w.IsAscii := by
  cases h with
  | any => simp
  | index hne hdigits hvalue => simp [Text.isAscii_of_isDigit hdigits]

/-- Speakers are written in ASCII. -/
@[simp] private theorem isAscii_speakerText (a : Agent) : a.speakerText.IsAscii := by
  have h := a.speakerPrefix_speakerText
  generalize a.speakerText = p at h
  cases h with
  | absent => exact Text.isAscii_nil
  | written hw => simp [hw.isAscii]

@[simp] private theorem isAscii_targetText (a : Agent) : a.targetText.IsAscii :=
  (Agent.spelling_targetText a).isAscii

@[simp] private theorem isAscii_ofInt (n : Int) : (Text.ofInt n).IsAscii :=
  (Text.intSpelling_ofInt n).isAscii

/-- Topics are written in ASCII. Bare ones are no keywords, so this is seen word by word. -/
@[simp] private theorem isAscii_topic (topic : Topic) : (Vocabulary.spell topic).IsAscii := by
  cases topic <;> simp [Vocabulary.spell, Vocabulary.name, Topic.name]

@[simp] private theorem isAscii_operator (o : Operator) : (Vocabulary.spell o).IsAscii :=
  o.isKeyword_spell.isAscii

@[simp] private theorem isAscii_role (role : Role) : (Vocabulary.spell role).IsAscii :=
  role.isKeyword_spell.isAscii

@[simp] private theorem isAscii_species (species : Species) :
    (Vocabulary.spell species).IsAscii :=
  species.isKeyword_spell.isAscii

@[simp] private theorem isAscii_channel (channel : Channel) :
    (Vocabulary.spell channel).IsAscii :=
  channel.isKeyword_spell.isAscii

namespace Statement

/-- Arguments of operators are written in ASCII. -/
private theorem isAscii_argumentText (head : Head) : (argumentText head).IsAscii := by
  unfold argumentText
  split <;> simp [field]

/-- What is rendered over ASCII operands is ASCII. -/
private theorem isAscii_render {head : Head} {operands : List Statement}
    (h : ∀ operand ∈ operands, (operandText head.context operand).IsAscii) :
    (render head operands).IsAscii := by
  -- the groups are ASCII operands in brackets, each behind a space
  have hgroups : Text.IsAscii (operands.flatMap fun operand =>
      field ('(' :: operandText head.context operand ++ [')'])) := by
    intro c hc
    obtain ⟨operand, ho, hc⟩ := List.mem_flatMap.mp hc
    have hgroup : (field ('(' :: operandText head.context operand ++ [')'])).IsAscii := by
      simp [field, h operand ho]
    exact hgroup c hc
  unfold render
  -- every other part is a keyword, a speaker or a field
  cases head.topic.form with
  | empty => exact Text.isAscii_nil
  | bare => exact isAscii_topic head.topic
  | agreement | claim | finding | action => simp [field]
  | compound =>
    have hfront : (head.subject.speakerText ++ Vocabulary.spell head.operator ++
        argumentText head).IsAscii := by
      simp [isAscii_argumentText]
    exact Text.isAscii_append.mpr ⟨hfront, hgroups⟩

/-- The text of a settled statement is ASCII, and so is what is left when the speaker is cut off. -/
theorem isAscii_text {s : Statement} (hsettled : ∀ n ∈ s.nodes, n.Settled) : s.text.IsAscii := by
  induction s with
  | node head operands text ih =>
    obtain ⟨hself, hbelow⟩ := forall_nodes_iff.mp hsettled
    have htext : text = render head operands := hself.text
    rw [htext]
    apply isAscii_render
    -- an operand is written as its text, or as the end of its text
    intro operand ho
    have hoperand := ih operand ho (hbelow operand ho)
    unfold operandText
    split
    · exact fun c hc => hoperand c ((stripSubject_suffix operand.text).subset hc)
    · exact hoperand

/-! ### Blanks and brackets -/

/-- There are no blanks around an operand, with its speaker or without. -/
theorem trim_operandText {s : Statement} (hshaped : s.Shaped)
    (hsettled : ∀ n ∈ s.nodes, n.Settled) (context : Agent) :
    Text.trim (operandText context s) = operandText context s := by
  have hself := hsettled s (mem_nodes_self s)
  -- a text of the grammar has no blanks around it, and the two bare words have none
  rcases s.topic.cases with hdummy | hbare | ⟨hvoiced, hsimple⟩ | hop
  · rw [operandText_dummy hself hdummy]
    rfl
  · rw [operandText_bare hself hbare]
    rcases Topic.skip_or_finished hbare with htopic | htopic <;> rw [htopic] <;> rfl
  · obtain ⟨pattern, hgrammar⟩ :=
      grammar_operandText_simple hshaped hself hvoiced hsimple context
    exact hgrammar.trim_eq
  · obtain ⟨pattern, region, -, -, hgrammar⟩ :=
      grammar_operandText_compound hshaped hsettled hop context
    exact hgrammar.trim_eq

/-- Only a statement that says nothing is written as nothing. -/
theorem operandText_eq_nil_iff {s : Statement} (hsettled : s.Settled) (context : Agent) :
    operandText context s = [] ↔ s.topic = .dummy := by
  constructor
  · intro hnil
    -- a sentence has its capital letter at least
    have hspoken : ¬ s.topic.form.isVoiced = true := by
      intro hvoiced
      obtain ⟨c, rest, hsentence, -⟩ := (isSentence_sentence hvoiced s.operands).head_upper
      rw [operandText_voiced hsettled hvoiced, hsentence] at hnil
      simp at hnil
    rcases s.topic.cases with hdummy | hbare | ⟨hvoiced, -⟩ | hop
    · exact hdummy
    · rw [operandText_bare hsettled hbare] at hnil
      -- neither of the bare words is empty
      revert hbare hnil
      cases s.topic <;> decide
    · exact absurd hvoiced hspoken
    · exact absurd (by rw [hop]; rfl) hspoken
  · exact fun hdummy => operandText_dummy hsettled hdummy context

/-- What is written of an operand is its text, less the speaker where the context implies it. -/
theorem text_eq_append_operandText {s : Statement} (hsettled : s.Settled) (context : Agent) :
    s.text = (if s.subject = context then s.toHead.writtenSpeaker else []) ++
      operandText context s := by
  unfold operandText
  split
  · exact text_eq_writtenSpeaker_append hsettled
  · rw [List.nil_append]

/-- Canonical texts can be put into brackets and found again. At every node of every statement that
can be made the text is ASCII, has no blank at either end, and is balanced. In the text of an
operator nothing in front of the first operand is a bracket, and from there on the groups are the
operands, one for each and in order. A group is the text of its operand, less the speaker where the
context implies it, and it is empty only if the operand says nothing. -/
theorem Reachable.bracket_safe {s : Statement} (h : s.Reachable) {n : Statement}
    (hn : n ∈ s.nodes) :
    n.text.IsAscii ∧
    ((∀ c ∈ n.text.head?, ¬ Text.isBlank c) ∧ ∀ c ∈ n.text.getLast?, ¬ Text.isBlank c) ∧
    n.text.Balanced ∧
    (n.topic = .operator → ∃ front region,
      n.text = front ++ region ∧ front.Unbracketed ∧ region.head? = some '(' ∧
      Text.groups region = n.operands.map (operandText n.toHead.context) ∧
      ∀ operand ∈ n.operands,
        operand.text = (if operand.subject = n.toHead.context then operand.toHead.writtenSpeaker
          else []) ++ operandText n.toHead.context operand ∧
        (operandText n.toHead.context operand = [] ↔ operand.topic = .dummy)) := by
  have hreachable := h.of_mem_nodes hn
  have hshaped := hreachable.shaped n (mem_nodes_self n)
  have hsettled := hreachable.settled
  -- the text of the node is what is written where nobody is implied
  have hwhole := operandText_unspec (hsettled n (mem_nodes_self n))
  have htrim := trim_operandText hshaped hsettled .unspec
  have hbalanced := balanced_operandText hsettled .unspec
  rw [hwhole] at htrim hbalanced
  refine ⟨isAscii_text hsettled, Text.trim_eq_self_iff.mp htrim, hbalanced, fun hop => ?_⟩
  obtain ⟨pattern, region, hregion, hgroups, hgrammar⟩ :=
    grammar_operandText_compound hshaped hsettled hop .unspec
  -- the front of the grammar has no bracket, so the region begins with the first one
  obtain ⟨front, hfront, htext⟩ := hgrammar.exists_front
  rw [hwhole] at htext
  refine ⟨front, region, htext, hfront, hregion.1, hgroups, fun operand ho => ?_⟩
  have hoperand := (forall_nodes_iff.mp hsettled).2 operand ho operand (mem_nodes_self operand)
  exact ⟨text_eq_append_operandText hoperand _, operandText_eq_nil_iff hoperand _⟩

/-- A reason by an agent who speaks of nothing and of a request to another agent, whose vote is put
in the mouth of a third one. The groups are nothing at all and the request without its speaker. -/
theorem bracket_safe_because :
    let vote := ((Draft.voted .any).spokenBy ⟨3⟩).build
    let request := ((Draft.request ⟨2⟩ vote).spokenBy ⟨1⟩).build
    let s := ((Draft.because Draft.empty.build request).spokenBy ⟨1⟩).build
    s.Reachable ∧ s ∈ s.nodes ∧ s.topic = .operator ∧
      s.text = "Agent[01] BECAUSE () (REQUEST Agent[02] (Agent[03] VOTED ANY))".toList ∧
      s.text.Balanced ∧
      ∃ front region, s.text = front ++ region ∧ front.Unbracketed ∧ region.head? = some '(' ∧
        Text.groups region = [[], "REQUEST Agent[02] (Agent[03] VOTED ANY)".toList] := by
  intro vote request s
  have hvote : vote.Reachable := .build_leaf (.spokenBy (.voted _) _) rfl
  have hempty : Draft.empty.build.Reachable := .build_leaf .empty rfl
  have hrequest : request.Reachable := by
    apply Reachable.build (.spokenBy (.request _ _) _)
    exact List.forall_mem_singleton.mpr hvote
  have hs : s.Reachable := by
    apply Reachable.build (.spokenBy (.because _ _) _)
    exact List.forall_mem_cons.mpr ⟨hempty, List.forall_mem_singleton.mpr hrequest⟩
  obtain ⟨-, -, hbalanced, hoperands⟩ := hs.bracket_safe (mem_nodes_self s)
  obtain ⟨front, region, htext, hfront, hopen, hgroups, -⟩ := hoperands rfl
  have htexts : s.operands.map (operandText s.toHead.context) =
      [[], "REQUEST Agent[02] (Agent[03] VOTED ANY)".toList] := by decide +kernel
  rw [htexts] at hgroups
  exact ⟨hs, mem_nodes_self s, rfl, by decide +kernel, hbalanced, front, region, htext, hfront,
    hopen, hgroups⟩

end Statement

end Parley
