import Parley.Proofs.Statement.PhraseText
import Parley.Proofs.Statement.Reachable
import Parley.Proofs.Statement.Recompletion

/-!
# What can be read back

A canonical text does not tell everything about its statement. A statement that says nothing leaves
no text, compound statements below the limit are not read, the speaker of a bare statement is not
written, and an open target is written as anybody. What is left of a statement is called *legible*.

## Key results

- `completeIn_of_settled` / `finish_of_settled`: settled statements are completed to themselves
- `legible_of_cut` / `_bare` / `_simple` / `_compound`: the legible part, form by form
- `completeIn_assemble_of_orElse_eq` / `_unlessImplied`: a speaker that is not written is filled in
  by the context
- `completeIn_legible_bare` / `_simple` / `_compound`: the legible part as it is completed in its
  context
-/

namespace Parley

namespace Agent

/-- A speaker that is open only if the context is open is not filled in. -/
private theorem orElse_of_imp {a context : Agent} (h : a = .unspec → context = .unspec) :
    a.orElse context = a := by
  unfold orElse
  split
  · next ha => rw [h ha, ha]
  · rfl

/-- An open target is written as anybody. -/
theorem targetText_orElse_any (a : Agent) : (a.orElse .any).targetText = a.targetText := by
  unfold targetText orElse
  by_cases hopen : a = unspec
  · simp [hopen]
  · simp [hopen]

/-- What is not written is filled in again. -/
theorem orElse_unlessImplied {a context : Agent} (h : a = .unspec → context = .unspec) :
    (a.unlessImplied context).orElse context = a := by
  unfold unlessImplied
  split
  · next ha => rw [unspec_orElse, ha]
  · exact orElse_of_imp h

end Agent

namespace Head

/-- The head without its speaker, if statements of its form are bare. -/
def unvoiced (head : Head) : Head :=
  { head with subject := if head.topic.form = .bare then .unspec else head.subject }

/-- A statement without a voice has nothing but its topic and its speaker. -/
theorem WellFormed.eq_of_unvoiced {head : Head} (h : head.WellFormed)
    (hvoiced : head.topic.form.isVoiced = false) :
    head = { topic := head.topic, subject := head.subject } := by
  -- a form with a voice is none of the two without
  have hne : ∀ form : Form, form.isVoiced = true → head.topic.form ≠ form := by
    intro form hform heq
    rw [heq, hform] at hvoiced
    exact nomatch hvoiced
  have hnotarget : head.topic.form.hasTarget = false := by
    revert hvoiced
    cases head.topic.form <;> decide
  have hnop := h.operator_eq_nop (mt Topic.form_eq_compound_iff.mpr (hne .compound rfl))
  have htarget := h.target_unused hnotarget (by rw [hnop]; rfl)
  have hrole := h.role_unused (hne .claim rfl)
  have hresult := h.result_unused (hne .finding rfl)
  have hutterance := h.utterance_unused (hne .agreement rfl)
  have hday := h.day_unused (by rw [hnop]; decide)
  obtain ⟨topic, operator, subject, target, role, result, utterance, day⟩ := head
  dsimp only at *
  rw [hnop, htarget, hrole, hresult, hutterance, hday]

/-- A head without a target has none to be aimed. -/
theorem aimed_eq_self {head : Head} (h : head.topic.form.hasTarget = false) :
    head.aimed = head := by
  simp [aimed, h]

/-- A head with a voice keeps its speaker. -/
private theorem unvoiced_of_voiced {head : Head} (h : head.topic.form.isVoiced = true) :
    head.unvoiced = head := by
  have hbare := Form.ne_bare_of_isVoiced h
  simp [unvoiced, hbare]

end Head

namespace Statement

/-! ### Completing in a context -/

/-- The statement completed as operands are: with its own speaker or else with the agent implied. -/
def completeIn (context : Agent) (s : Statement) : Statement :=
  complete (s.subject.orElse context) s

/-- A statement is finished where nobody is implied. -/
theorem finish_eq_completeIn (s : Statement) : finish s = completeIn .unspec s := by
  rw [completeIn, Agent.orElse_unspec]
  rfl

/-- Finishing a statement makes no difference to the context that it is put into. -/
theorem completeIn_finish (context : Agent) (s : Statement) :
    completeIn context (finish s) = completeIn context s := by
  -- `complete_finish` wants the speaker open or unchanged, which filling in ensures
  rw [completeIn, finish, subject_complete]
  exact complete_finish (Agent.eq_unspec_or_eq_orElse _ _)

/-- The speaker of a phrase counts only as far as the context does not fill it in. -/
theorem completeIn_assemble_of_orElse_eq {head : Head} {speaker context : Agent}
    (hspeaker : speaker.orElse context = head.subject.orElse context) (operands : List Statement)
    (text : Text) :
    completeIn context (assemble { head with subject := speaker } operands) =
      completeIn context ⟨head, operands, text⟩ := by
  rw [assemble, completeIn_finish]
  -- completion depends on the speaker that is filled in, and on nothing else of the speaker
  show complete (speaker.orElse context) ⟨head, operands, text⟩ =
    complete (head.subject.orElse context) ⟨head, operands, text⟩
  rw [hspeaker]

/-- A speaker that is not written, being implied by the context, is filled in by the context. -/
theorem completeIn_assemble_unlessImplied {head : Head} {context : Agent}
    (hcontext : head.subject = .unspec → context = .unspec) (operands : List Statement)
    (text : Text) :
    completeIn context
        (assemble { head with subject := head.subject.unlessImplied context } operands) =
      completeIn context ⟨head, operands, text⟩ := by
  apply completeIn_assemble_of_orElse_eq
  rw [Agent.orElse_unlessImplied hcontext, Agent.orElse_of_imp hcontext]

/-- A settled head stays as it is, and its operands are completed in the context that it makes. -/
theorem completeIn_settled {head : Head} {context : Agent}
    (haddressee : head.operator.addressesTarget = true → head.target ≠ .unspec)
    (hcontext : head.subject = .unspec → context = .unspec) (operands : List Statement)
    (text : Text) :
    completeIn context ⟨head, operands, text⟩ =
      ⟨head, operands.map (completeIn head.context),
        render head (operands.map (completeIn head.context))⟩ := by
  show complete (head.subject.orElse context) ⟨head, operands, text⟩ = _
  rw [Agent.orElse_of_imp hcontext, complete, Head.spokenBy_subject haddressee,
    completeAll_eq_map]
  rfl

/-- Where every node is settled, completion has nothing left to do. -/
theorem completeIn_of_settled {s : Statement} (hsettled : ∀ n ∈ s.nodes, n.Settled)
    {context : Agent} (hcontext : s.subject = .unspec → context = .unspec) :
    completeIn context s = s := by
  induction s generalizing context with
  | node head operands text ih =>
    obtain ⟨hself, hbelow⟩ := forall_nodes_iff.mp hsettled
    have htext : text = render head operands := hself.text
    -- an operand of a settled statement has an open speaker only in an open context
    have hoperands : operands.map (completeIn head.context) = operands := by
      have hoperand : ∀ operand ∈ operands, completeIn head.context operand = operand :=
        fun operand ho => ih operand ho (hbelow operand ho) (hself.open_context ho)
      rw [List.map_congr_left hoperand, List.map_id']
    rw [completeIn_settled hself.addressee hcontext, hoperands, ← htext]

/-- A statement of which every node is settled is finished. -/
theorem finish_of_settled {s : Statement} (hsettled : ∀ n ∈ s.nodes, n.Settled) :
    finish s = s := by
  rw [finish_eq_completeIn]
  exact completeIn_of_settled hsettled fun _ => rfl

/-! ### The legible part -/

/-- What can be read off the text of a statement within a limit. A `Skip` stands for every statement
that says nothing and for every compound one that lies too deep, bare statements lose their speaker,
and open targets become anybody. The speakers that the context implies are yet to be filled in. -/
def legible (limit : Nat) (s : Statement) : Statement :=
  ((s.truncate limit).mapHeads Head.unvoiced).mapHeads Head.aimed

/-- A `Skip` is what is left where nothing is said and where the limit is reached. -/
theorem legible_of_cut {s : Statement} {limit : Nat}
    (h : s.topic = .dummy ∨ s.topic = .operator ∧ limit = 0) : s.legible limit = skip := by
  obtain ⟨head, operands, text⟩ := s
  rw [legible, truncate, if_pos h]
  rfl

/-- Whatever is not cut off keeps its operands, which have one level less. -/
private theorem legible_of_not_cut {head : Head} {operands : List Statement} {text : Text}
    {limit : Nat} (h : ¬ (head.topic = .dummy ∨ head.topic = .operator ∧ limit = 0)) :
    (⟨head, operands, text⟩ : Statement).legible limit =
      ⟨head.unvoiced.aimed, operands.map (legible (limit - 1)), text⟩ := by
  -- the three passes over the operands are one
  rw [legible, truncate, if_neg h, truncateAll_eq_map, mapHeads, mapHeadsAll_eq_map, mapHeads,
    mapHeadsAll_eq_map, List.map_map, List.map_map]
  rfl

/-- A bare statement loses its speaker. -/
theorem legible_bare {s : Statement} (hshaped : s.Shaped) (hbare : s.topic.form = .bare)
    (limit : Nat) : s.legible limit = ⟨{ topic := s.topic }, [], s.text⟩ := by
  obtain ⟨hfull, hsimple⟩ := Topic.ne_of_bare hbare
  have hkeep : ¬ (s.topic = .dummy ∨ s.topic = .operator ∧ limit = 0) := by
    simp [hfull, hsimple]
  have hnil := hshaped.operands_eq_nil hsimple
  have hhead := hshaped.toWellFormed.eq_of_unvoiced (by rw [hbare]; rfl)
  obtain ⟨head, operands, text⟩ := s
  have hnil : operands = [] := hnil
  rw [legible_of_not_cut hkeep, hnil, hhead]
  -- the speaker is the only field of a bare head, and it is not read
  have hunvoiced : ({ topic := head.topic, subject := head.subject } : Head).unvoiced =
      { topic := head.topic } := by
    simp [Head.unvoiced, hbare]
  have haimed : ({ topic := head.topic } : Head).aimed = { topic := head.topic } := by
    simp [Head.aimed, hbare, Form.hasTarget]
  rw [hunvoiced, haimed]
  rfl

/-- A simple statement keeps everything but an open target. -/
theorem legible_simple {s : Statement} (hshaped : s.Shaped)
    (hvoiced : s.topic.form.isVoiced = true) (hsimple : s.topic ≠ .operator) (limit : Nat) :
    s.legible limit = ⟨s.toHead.aimed, [], s.text⟩ := by
  have hfull := Topic.ne_dummy_of_isVoiced hvoiced
  have hkeep : ¬ (s.topic = .dummy ∨ s.topic = .operator ∧ limit = 0) := by
    simp [hfull, hsimple]
  have hnil := hshaped.operands_eq_nil hsimple
  obtain ⟨head, operands, text⟩ := s
  have hnil : operands = [] := hnil
  rw [legible_of_not_cut hkeep, Head.unvoiced_of_voiced hvoiced, hnil]
  rfl

/-- An operator above the limit stays as it is, over what is legible of its operands. -/
theorem legible_compound {s : Statement} (hop : s.topic = .operator) (limit : Nat) :
    s.legible (limit + 1) = ⟨s.toHead, s.operands.map (legible limit), s.text⟩ := by
  have hkeep : ¬ (s.topic = .dummy ∨ s.topic = .operator ∧ limit + 1 = 0) := by
    simp [hop]
  obtain ⟨head, operands, text⟩ := s
  -- an operator has a voice and no target of this kind, so no pass changes its head
  have hunvoiced := @Head.unvoiced_of_voiced head (by rw [hop]; rfl)
  have haimed := @Head.aimed_eq_self head (by rw [hop]; rfl)
  rw [legible_of_not_cut hkeep, hunvoiced, haimed]
  rfl

/-! ### The legible part in its context -/

/-- A bare statement gets the speaker that the context implies. -/
theorem completeIn_legible_bare {s : Statement} (hshaped : s.Shaped)
    (hbare : s.topic.form = .bare) (context : Agent) (limit : Nat) :
    completeIn context (s.legible limit) =
      ⟨{ topic := s.topic, subject := context }, [], Vocabulary.spell s.topic⟩ := by
  rw [legible_bare hshaped hbare]
  simp [completeIn, complete, completeAll, Head.spokenBy, render, hbare, Operator.addressesTarget]

/-- An open target is written as anybody. -/
private theorem render_aimed (head : Head) (operands : List Statement) :
    render head.aimed operands = render head operands := by
  cases hform : head.topic.form with
  | claim | finding | action =>
    simp [render, Head.aimed, hform, Form.hasTarget, Agent.targetText_orElse_any]
  | empty | bare | agreement | compound => simp [render, Head.aimed, hform, Form.hasTarget]

/-- A simple statement keeps its speaker, and its open target is anybody. -/
theorem completeIn_legible_simple {s : Statement} (hshaped : s.Shaped) (hsettled : s.Settled)
    (hvoiced : s.topic.form.isVoiced = true) (hsimple : s.topic ≠ .operator) {context : Agent}
    (hcontext : s.subject = .unspec → context = .unspec) (limit : Nat) :
    completeIn context (s.legible limit) = ⟨s.toHead.aimed, [], s.text⟩ := by
  -- a simple statement addresses nobody, so its head is settled whatever its target
  have haddressee : s.toHead.aimed.operator.addressesTarget = true →
      s.toHead.aimed.target ≠ .unspec := by
    show s.operator.addressesTarget = true → _
    rw [hshaped.operator_eq_nop hsimple]
    exact fun haddress => nomatch haddress
  have htext : s.text = render s.toHead [] := by
    rw [hsettled.text, hshaped.operands_eq_nil hsimple]
  rw [legible_simple hshaped hvoiced hsimple, completeIn_settled haddressee hcontext, List.map_nil,
    render_aimed, ← htext]

/-- An operator above the limit stays as it is, and its operands are completed in its context. -/
theorem completeIn_legible_compound {s : Statement} (hsettled : s.Settled)
    (hop : s.topic = .operator) {context : Agent}
    (hcontext : s.subject = .unspec → context = .unspec) (limit : Nat) :
    completeIn context (s.legible (limit + 1)) =
      let operands := s.operands.map fun o => completeIn s.toHead.context (o.legible limit)
      ⟨s.toHead, operands, render s.toHead operands⟩ := by
  -- the operands are cut off first and completed afterwards
  rw [legible_compound hop, completeIn_settled hsettled.addressee hcontext, List.map_map]
  rfl

end Statement

end Parley
