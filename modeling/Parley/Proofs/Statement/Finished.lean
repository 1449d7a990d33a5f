import Parley.Proofs.Statement.ReadBack

/-!
# Finished statements

Completion settles every node, and it leaves a settled statement as it is. So a finished statement
stays finished, whatever it was made from. Whom it is spoken by can be said before it is built or
afterwards; once its operands know their speakers, a new speaker is not handed down to them.

## Key results

- `finish_idempotent`: finishing twice is finishing once, and what can be made is finished
- `spokenBy_assemble`: an open speaker is filled in early or late with the same outcome
- `spokenBy_of_context`: a new speaker changes nothing below a statement with a known context
- `speaker_chosen_once`: both for drafts and for all statements that can be made
-/

namespace Parley

namespace Statement

/-! ### Finishing twice -/

/-- Finishing is idempotent on every tree, whatever its speakers, its targets and its texts are. A
statement that can be made is finished, and so is everything in it. -/
theorem finish_idempotent :
    (∀ s : Statement, finish (finish s) = finish s) ∧
      ∀ s : Statement, s.Reachable → ∀ n ∈ s.nodes, finish n = n := by
  constructor
  · intro s
    -- whatever the tree was like, completion has settled it
    exact finish_of_settled (forall_settled_complete s.subject s)
  · intro s h n hn
    exact finish_of_settled (h.of_mem_nodes hn).settled

/-- An inquiry that addresses nobody, over a vote with a text of its own making: finishing changes
it, but only once. A request for a vote, taken from a statement that was built around it, is
finished. -/
theorem finish_idempotent_inquiry :
    let stale : Statement := ⟨{ topic := .operator, operator := .inquire, target := .unspec },
      [⟨{ topic := .vote, target := ⟨3⟩ }, [], "Skip".toList⟩], "Over".toList⟩
    let request := ((Draft.request .unspec (Draft.vote ⟨3⟩).build).spokenBy ⟨1⟩).build
    let s := ((Draft.not request).spokenBy ⟨1⟩).build
    (stale.finish.text = "INQUIRE ANY (VOTE Agent[03])".toList ∧
        stale.finish.finish = stale.finish) ∧
      s.Reachable ∧ request ∈ s.nodes ∧ request.finish = request := by
  intro stale request s
  have hrequest : request.Reachable := by
    apply Reachable.build (.spokenBy (.request _ _) _)
    exact List.forall_mem_singleton.mpr (.build_leaf (.vote _) rfl)
  have hs : s.Reachable := by
    apply Reachable.build (.spokenBy (.not _) _)
    exact List.forall_mem_singleton.mpr hrequest
  have hoperands : s.operands = [request] := rfl
  have hnode : request ∈ s.nodes :=
    mem_nodes_of_mem_operands (hoperands ▸ List.mem_cons_self) (mem_nodes_self request)
  exact ⟨⟨by decide +kernel, finish_idempotent.1 stale⟩, hs, hnode,
    finish_idempotent.2 s hs request hnode⟩

/-! ### Choosing a speaker -/

/-- An open speaker may be filled in before a statement is assembled or afterwards. -/
theorem spokenBy_assemble (head : Head) (operands : List Statement) (subject : Agent) :
    (assemble { head with subject := .unspec } operands).spokenBy subject =
      assemble { head with subject } operands :=
  complete_complete ⟨{ head with subject := .unspec }, operands, []⟩ (Or.inl rfl)

/-- Operands that know their speakers are finished in every context. -/
private theorem completeAll_of_known {operands : List Statement}
    (hsettled : ∀ operand ∈ operands, ∀ n ∈ operand.nodes, n.Settled)
    (hknown : ∀ operand ∈ operands, operand.subject ≠ .unspec) (context : Agent) :
    completeAll context operands = operands := by
  -- with a speaker of its own, no operand asks for the context
  have hoperand : ∀ operand ∈ operands,
      complete (operand.subject.orElse context) operand = operand := fun operand ho =>
    completeIn_of_settled (hsettled operand ho) fun hopen => absurd hopen (hknown operand ho)
  rw [completeAll_eq_map, List.map_congr_left hoperand, List.map_id']

/-- Where the operands have been handed a speaker, another speaker of the whole is not handed down
to them again. -/
theorem spokenBy_of_context {s : Statement} (hsettled : ∀ n ∈ s.nodes, n.Settled)
    (hcontext : s.toHead.context ≠ .unspec) (subject : Agent) :
    s.spokenBy subject = ⟨{ s.toHead with subject }, s.operands,
      render { s.toHead with subject } s.operands⟩ := by
  obtain ⟨hself, hbelow⟩ := forall_nodes_iff.mp hsettled
  obtain ⟨head, operands, text⟩ := s
  -- the addressee is named already, so only the speaker of the head changes
  have hhead : head.spokenBy subject = { head with subject } :=
    Head.spokenBy_of_addressee hself.addressee subject
  have hoperands := completeAll_of_known hbelow (hself.speakers hcontext)
  rw [spokenBy, complete, hhead, hoperands]

/-- The speaker is chosen once. Whether a draft without a speaker is given one before it is built or
the statement afterwards makes no difference. A request, an inquiry and a statement with a speaker
may get another speaker, but their operands stay what they are, and nothing else changes than the
speaker and the text. -/
theorem speaker_chosen_once (subject : Agent) :
    (∀ draft : Draft, draft.subject = .unspec →
        (draft.spokenBy subject).build = draft.build.spokenBy subject) ∧
      ∀ s : Statement, s.Reachable →
        s.operator = .request ∨ s.operator = .inquire ∨ s.subject ≠ .unspec →
        s.spokenBy subject = ⟨{ s.toHead with subject }, s.operands,
          render { s.toHead with subject } s.operands⟩ := by
  constructor
  · intro draft hopen
    -- the draft has an open speaker, so it may be written as one
    have hhead : { draft.toHead with subject := .unspec } = draft.toHead := by
      rw [← hopen]
    rw [Draft.build, Draft.build, ← hhead, spokenBy_assemble]
    rfl
  · intro s h hknown
    have hself := h.settled s (mem_nodes_self s)
    rw [← or_assoc, ← Operator.addressesTarget_iff] at hknown
    exact spokenBy_of_context h.settled (hself.context_ne_unspec hknown) subject

/-- Two claims of nobody, one because of the other: whoever they are given to, it makes no
difference when. A request in which somebody else is to deny something passes to another speaker
without a change in what is denied. -/
theorem speaker_chosen_once_request :
    let vote := (Draft.vote ⟨4⟩).build
    let draft := Draft.because (Draft.not vote).build (Draft.request .unspec vote).build
    let request := (Draft.request ⟨2⟩ (Draft.not vote).build).build
    (draft.subject = .unspec ∧ (draft.spokenBy ⟨1⟩).build = draft.build.spokenBy ⟨1⟩) ∧
      request.Reachable ∧ request.operator = .request ∧ request.subject = .unspec ∧
      (request.spokenBy ⟨7⟩).operands = request.operands ∧
      (request.spokenBy ⟨7⟩).text =
        "Agent[07] REQUEST Agent[02] (NOT (VOTE Agent[04]))".toList := by
  intro vote draft request
  have hnot : (Draft.not vote).build.Reachable := by
    apply Reachable.build (.not _)
    exact List.forall_mem_singleton.mpr (.build_leaf (.vote _) rfl)
  have hrequest : request.Reachable := by
    apply Reachable.build (.request _ _)
    exact List.forall_mem_singleton.mpr hnot
  obtain ⟨hearly, -⟩ := speaker_chosen_once ⟨1⟩
  obtain ⟨-, hlate⟩ := speaker_chosen_once ⟨7⟩
  rw [hlate request hrequest (Or.inl rfl)]
  exact ⟨⟨rfl, hearly draft rfl⟩, hrequest, rfl, rfl, rfl, by decide +kernel⟩

end Statement

end Parley
