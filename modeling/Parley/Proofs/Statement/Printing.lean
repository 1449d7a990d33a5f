import Parley.Proofs.Statement.Canonical
import Parley.Proofs.Statement.Reachable

/-!
# Printing a tree

The canonical text of a statement is put together from the finished texts of its operands, whose
speakers are cut off where the context implies them. This file has a printer that looks at the tree
only and never writes such a speaker in the first place.

## Key results

- `operandText_eq_print`: in every context a settled statement is written as it is printed
- `text_eq_print`: its own text is what is printed where nobody is implied
- `text_eq_writtenSpeaker_append`: exactly the speaker that is written is cut off a finished text
- `Reachable.cutting_eq_printing`: all of this at every node of every statement that can be made
-/

namespace Parley

/-- The speaker as it stands in front of a finished text. Statements without a voice are written
without their speaker. -/
def Head.writtenSpeaker (head : Head) : Text :=
  if head.topic.form.isVoiced then head.subject.speakerText else []

/-- No speaker is written in front of a statement without a voice, or of one that nobody speaks. -/
theorem Head.writtenSpeaker_eq_nil {head : Head}
    (h : head.topic.form.isVoiced = false ∨ head.subject = .unspec) :
    head.writtenSpeaker = [] := by
  rcases h with hvoiced | hopen
  · simp [writtenSpeaker, hvoiced]
  · simp [writtenSpeaker, hopen, Agent.speakerText]

namespace Statement

mutual

/-- The text of a statement in the context of an agent. The speaker is written unless it is open or
implied by the context, and operands are printed in the context that the statement makes. -/
def print (context : Agent) : Statement → Text
  | ⟨head, operands, _⟩ =>
    let speaker := (head.subject.unlessImplied context).speakerText
    match head.topic.form with
    | .empty => []
    | .bare => Vocabulary.spell head.topic
    | .compound => speaker ++ (Vocabulary.spell head.operator ++
        (argumentText head ++ groupsText (printAll head.context operands)))
    | _ => speaker ++ (Vocabulary.spell head.topic ++ fieldsText head)

/-- The texts of operands in the context of an agent. -/
def printAll (context : Agent) : List Statement → List Text
  | [] => []
  | operand :: rest => print context operand :: printAll context rest

end

/-- The operands are printed one by one in the same context. -/
theorem printAll_eq_map (context : Agent) (operands : List Statement) :
    printAll context operands = operands.map (print context) := by
  induction operands with
  | nil => rfl
  | cons operand rest ih => rw [printAll, ih, List.map_cons]

/-- Nothing is printed where nothing is said. -/
theorem print_dummy {s : Statement} (hdummy : s.topic = .dummy) (context : Agent) :
    print context s = [] := by
  obtain ⟨head, operands, text⟩ := s
  have hdummy : head.topic = .dummy := hdummy
  rw [print, hdummy]
  rfl

/-- A bare statement is printed as its keyword. -/
theorem print_bare {s : Statement} (hbare : s.topic.form = .bare) (context : Agent) :
    print context s = Vocabulary.spell s.topic := by
  obtain ⟨head, operands, text⟩ := s
  have hbare : head.topic.form = .bare := hbare
  rw [print, hbare]

/-- A simple statement is printed as its speaker, unless implied, its keyword and its fields. -/
theorem print_simple {s : Statement} (hvoiced : s.topic.form.isVoiced = true)
    (hsimple : s.topic ≠ .operator) (context : Agent) :
    print context s = (s.subject.unlessImplied context).speakerText ++
      (Vocabulary.spell s.topic ++ fieldsText s.toHead) := by
  obtain ⟨head, operands, text⟩ := s
  unfold print
  cases hform : head.topic.form with
  | empty | bare =>
    rw [hform] at hvoiced
    exact nomatch hvoiced
  | compound => exact absurd (Topic.form_eq_compound_iff.mp hform) hsimple
  | agreement | claim | finding | action => rfl

/-- A compound statement is printed as its speaker, unless implied, its operator, the argument and
the operands in brackets. -/
theorem print_compound {s : Statement} (hop : s.topic = .operator) (context : Agent) :
    print context s = (s.subject.unlessImplied context).speakerText ++
      (Vocabulary.spell s.operator ++
        (argumentText s.toHead ++ groupsText (s.operands.map (print s.toHead.context)))) := by
  obtain ⟨head, operands, text⟩ := s
  have hop : head.topic = .operator := hop
  rw [print, hop, printAll_eq_map]
  rfl

/-- In every context a settled statement is written as it is printed: cutting off the speaker of a
finished text and not writing it come to the same. -/
theorem operandText_eq_print {s : Statement} (hsettled : ∀ n ∈ s.nodes, n.Settled)
    (context : Agent) : operandText context s = print context s := by
  induction s generalizing context with
  | node head operands text ih =>
    obtain ⟨hself, hbelow⟩ := forall_nodes_iff.mp hsettled
    -- the two are compared form by form, and only operands need the hypothesis
    rcases head.topic.cases with hdummy | hbare | ⟨hvoiced, hsimple⟩ | hop
    · rw [operandText_dummy hself hdummy, print_dummy hdummy]
    · rw [operandText_bare hself hbare, print_bare hbare]
    · rw [operandText_voiced hself hvoiced, sentence_simple hsimple, print_simple hvoiced hsimple]
    · have hoperands : operands.map (operandText head.context) =
          operands.map (print head.context) :=
        List.map_congr_left fun operand ho => ih operand ho (hbelow operand ho) head.context
      rw [operandText_compound hself hop, print_compound hop]
      exact congrArg (fun texts => _ ++ (_ ++ (_ ++ groupsText texts))) hoperands

/-- The text of a settled statement is what is printed where nobody is implied. -/
theorem text_eq_print {s : Statement} (hsettled : ∀ n ∈ s.nodes, n.Settled) :
    s.text = print .unspec s := by
  rw [← operandText_unspec (hsettled s (mem_nodes_self s)), operandText_eq_print hsettled]

/-! ### What is cut off -/

/-- Where its own speaker is implied, a statement is written as what is left when the speaker is cut
off. -/
theorem operandText_subject (s : Statement) : operandText s.subject s = stripSubject s.text :=
  if_pos rfl

/-- A finished text is the speaker that is written and what is left when it is cut off. -/
theorem text_eq_writtenSpeaker_append {s : Statement} (hsettled : s.Settled) :
    s.text = s.toHead.writtenSpeaker ++ stripSubject s.text := by
  cases hvoiced : s.topic.form.isVoiced with
  | false =>
    have hnone : s.toHead.writtenSpeaker = [] := Head.writtenSpeaker_eq_nil (Or.inl hvoiced)
    rw [hnone, ← operandText_subject, operandText_unvoiced hsettled hvoiced, hsettled.text,
      List.nil_append]
  | true =>
    have hspeaker : s.toHead.writtenSpeaker = s.subject.speakerText := by
      simp [Head.writtenSpeaker, hvoiced]
    -- the context of the cut is the speaker itself, so none is written there
    rw [hspeaker, ← operandText_subject, operandText_voiced hsettled hvoiced,
      Agent.speakerText_unlessImplied_self, List.nil_append, hsettled.text, render_voiced hvoiced]

/-- No speaker is left in front of a finished text when it is cut off. -/
theorem read_stripSubject {s : Statement} (hsettled : s.Settled) :
    Agent.read (stripSubject s.text) = none := by
  have hspoken : s.topic.form.isVoiced = true → Agent.read (operandText s.subject s) = none := by
    intro hvoiced
    rw [operandText_voiced hsettled hvoiced, Agent.speakerText_unlessImplied_self, List.nil_append]
    exact (isSentence_sentence hvoiced _).no_agent
  rw [← operandText_subject]
  -- a fixed word begins with its keyword, any other text with a sentence
  rcases s.topic.cases with hdummy | hbare | ⟨hvoiced, -⟩ | hop
  · rw [operandText_dummy hsettled hdummy]
    rfl
  · rw [operandText_bare hsettled hbare, ← List.append_nil (Vocabulary.spell _)]
    exact s.topic.read_spell_append []
  · exact hspoken hvoiced
  · exact hspoken (by rw [hop]; rfl)

/-- Cutting off speakers and never printing them come to the same, at every node of every statement
that can be made. The text of the node is what is printed where nobody is implied, and in every
context the node is written as it is printed there. What is cut off the text is the speaker that is
written in front of it and nothing else, and a text without one is left as it is. -/
theorem Reachable.cutting_eq_printing {s : Statement} (h : s.Reachable) {n : Statement}
    (hn : n ∈ s.nodes) :
    n.text = print .unspec n ∧
      (∀ context, operandText context n = print context n) ∧
      stripSubject n.text = print n.subject n ∧
      n.text = n.toHead.writtenSpeaker ++ stripSubject n.text ∧
      (n.topic.form.isVoiced = false ∨ n.subject = .unspec → stripSubject n.text = n.text) := by
  have hsettled := (h.of_mem_nodes hn).settled
  have hcut := text_eq_writtenSpeaker_append (h.settled n hn)
  refine ⟨text_eq_print hsettled, operandText_eq_print hsettled, ?_, hcut, ?_⟩
  · rw [← operandText_subject, operandText_eq_print hsettled]
  · -- without a speaker in front the split is between nothing and the whole text
    intro hunwritten
    rw [Head.writtenSpeaker_eq_nil hunwritten, List.nil_append] at hcut
    exact hcut.symm

/-- A request by an agent to another one, who is to say something that a third one has voted, as a
reason for a `Skip`. The agent's name is cut off the request, the one in front of the vote stays,
and so does the whole of the `Skip`, although both speakers are implied. -/
theorem cutting_eq_printing_because :
    let vote := ((Draft.voted .any).spokenBy ⟨300⟩).build
    let request := ((Draft.request ⟨2⟩ vote).spokenBy ⟨1⟩).build
    let skip := (Draft.skip.spokenBy ⟨1⟩).build
    let s := ((Draft.because request skip).spokenBy ⟨1⟩).build
    s.Reachable ∧ request ∈ s.nodes ∧ skip ∈ s.nodes ∧
      operandText ⟨1⟩ request = print ⟨1⟩ request ∧
      print ⟨1⟩ request = "REQUEST Agent[02] (Agent[300] VOTED ANY)".toList ∧
      request.text = "Agent[01] ".toList ++ stripSubject request.text ∧
      stripSubject skip.text = skip.text ∧
      s.text = print .unspec s := by
  intro vote request skip s
  have hvote : vote.Reachable := .build_leaf (.spokenBy (.voted _) _) rfl
  have hskip : skip.Reachable := .build_leaf (.spokenBy .skip _) rfl
  have hrequest : request.Reachable := by
    apply Reachable.build (.spokenBy (.request _ _) _)
    exact List.forall_mem_singleton.mpr hvote
  have hs : s.Reachable := by
    apply Reachable.build (.spokenBy (.because _ _) _)
    exact List.forall_mem_cons.mpr ⟨hrequest, List.forall_mem_singleton.mpr hskip⟩
  -- both operands are finished already, so they are found in the statement as they are
  have hoperands : s.operands = [request, skip] := rfl
  have hrequestnode : request ∈ s.nodes :=
    mem_nodes_of_mem_operands (hoperands ▸ List.mem_cons_self) (mem_nodes_self request)
  have hskipnode : skip ∈ s.nodes :=
    mem_nodes_of_mem_operands (by simp [hoperands]) (mem_nodes_self skip)
  obtain ⟨-, hwritten, -, hcut, -⟩ := hs.cutting_eq_printing hrequestnode
  have hspeaker : request.toHead.writtenSpeaker = "Agent[01] ".toList := by decide +kernel
  rw [hspeaker] at hcut
  obtain ⟨-, -, -, -, hkept⟩ := hs.cutting_eq_printing hskipnode
  exact ⟨hs, hrequestnode, hskipnode, hwritten _, by decide +kernel, hcut, hkept (Or.inl rfl),
    (hs.cutting_eq_printing (mem_nodes_self s)).1⟩

end Statement

end Parley
