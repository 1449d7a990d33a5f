import Parley.Proofs.Statement.Compilation
import Parley.Statement.Draft

/-!
# The statements that can be made

Statements are made by building drafts and by compiling texts; a statement can be spoken by another
agent, and its operands are statements in turn. This file proves what all of them have in common.

## Key results

- `Reachable.shaped` / `Reachable.settled`: the shape of every node, and what completion leaves
  there
- `Reachable.representation`: the invariant of the representation, field by field
-/

namespace Parley

/-- The drafts that can be begun, from any operands, and then spoken by an agent. -/
inductive Draft.Made : Draft → Prop where
  | empty : Made .empty
  | skip : Made .skip
  | finished : Made .finished
  | agree (channel : Channel) (day index : Int32) : Made (.agree channel day index)
  | disagree (channel : Channel) (day index : Int32) : Made (.disagree channel day index)
  | attack (target : Agent) : Made (.attack target)
  | attacked (target : Agent) : Made (.attacked target)
  | divination (target : Agent) : Made (.divination target)
  | guard (target : Agent) : Made (.guard target)
  | guarded (target : Agent) : Made (.guarded target)
  | vote (target : Agent) : Made (.vote target)
  | voted (target : Agent) : Made (.voted target)
  | divined (target : Agent) (result : Species) : Made (.divined target result)
  | identified (target : Agent) (result : Species) : Made (.identified target result)
  | comingout (target : Agent) (role : Role) : Made (.comingout target role)
  | estimate (target : Agent) (role : Role) : Made (.estimate target role)
  | request (target : Agent) (action : Statement) : Made (.request target action)
  | inquire (target : Agent) (action : Statement) : Made (.inquire target action)
  | because (reason action : Statement) : Made (.because reason action)
  | xor (first second : Statement) : Made (.xor first second)
  | not (content : Statement) : Made (.not content)
  | onDay (day : Int32) (content : Statement) : Made (.onDay day content)
  | and {operands : List Statement} {draft : Draft} (h : Draft.and operands = .ok draft) :
      Made draft
  | or {operands : List Statement} {draft : Draft} (h : Draft.or operands = .ok draft) : Made draft
  | spokenBy {draft : Draft} (h : Made draft) (subject : Agent) : Made (draft.spokenBy subject)

/-- The statements that can be made: by building a draft of statements that can be made, by
compiling a text or what is embedded in one, by changing the speaker, and by taking an operand. -/
inductive Statement.Reachable : Statement → Prop where
  | build {draft : Draft} (h : draft.Made)
      (hoperands : ∀ operand ∈ draft.operands, Reachable operand) : Reachable draft.build
  | compileWithin (limit : Nat) (t : Text) : Reachable (compileWithin limit t)
  | embeddedIn {t : Text} {s : Statement} (h : s ∈ embeddedIn t) : Reachable s
  | spokenBy {s : Statement} (h : Reachable s) (subject : Agent) : Reachable (s.spokenBy subject)
  | operand {s operand : Statement} (h : Reachable s) (hmem : operand ∈ s.operands) :
      Reachable operand

/-! ### Drafts -/

/-- The speaker of a statement is no field of its form. -/
theorem Head.WellFormed.withSubject {head : Head} (h : head.WellFormed) (subject : Agent) :
    ({ head with subject } : Head).WellFormed :=
  ⟨h.operator_iff, h.target_unused, h.role_unused, h.result_unused, h.utterance_unused,
    h.utterance_reference, h.day_unused⟩

namespace Draft

/-- Whatever draft is begun, its head uses the fields of its form only. -/
private theorem head_wellFormed_of_made {draft : Draft} (h : draft.Made) :
    draft.toHead.WellFormed := by
  induction h with
  | empty => exact Head.wellFormed_bare (Or.inr rfl) .unspec
  | skip => exact Head.wellFormed_bare (Or.inl rfl) .unspec
  | finished => exact Head.wellFormed_bare (Or.inl rfl) .unspec
  | agree channel day index => exact Head.wellFormed_agreement rfl .unspec channel day index
  | disagree channel day index => exact Head.wellFormed_agreement rfl .unspec channel day index
  | attack target => exact Head.wellFormed_action rfl .unspec target
  | attacked target => exact Head.wellFormed_action rfl .unspec target
  | divination target => exact Head.wellFormed_action rfl .unspec target
  | guard target => exact Head.wellFormed_action rfl .unspec target
  | guarded target => exact Head.wellFormed_action rfl .unspec target
  | vote target => exact Head.wellFormed_action rfl .unspec target
  | voted target => exact Head.wellFormed_action rfl .unspec target
  | divined target result => exact Head.wellFormed_finding rfl .unspec target result
  | identified target result => exact Head.wellFormed_finding rfl .unspec target result
  | comingout target role => exact Head.wellFormed_claim rfl .unspec target role
  | estimate target role => exact Head.wellFormed_claim rfl .unspec target role
  | request target action =>
    have hne : Operator.request ≠ .nop := by decide
    exact Head.wellFormed_compound hne .unspec (fun h => nomatch h) (fun _ => rfl)
  | inquire target action =>
    have hne : Operator.inquire ≠ .nop := by decide
    exact Head.wellFormed_compound hne .unspec (fun h => nomatch h) (fun _ => rfl)
  | because reason action =>
    exact Head.wellFormed_compound (by decide) .unspec (fun _ => rfl) (fun _ => rfl)
  | xor first second =>
    exact Head.wellFormed_compound (by decide) .unspec (fun _ => rfl) (fun _ => rfl)
  | not content => exact Head.wellFormed_compound (by decide) .unspec (fun _ => rfl) (fun _ => rfl)
  | onDay day content =>
    have hne : Operator.day ≠ .nop := by decide
    exact Head.wellFormed_compound hne .unspec (fun _ => rfl) (fun h => absurd rfl h)
  -- the constructor has refused an empty list of operands
  | @and operands draft h =>
    cases operands with
    | nil => exact nomatch h
    | cons _ _ =>
      cases h
      exact Head.wellFormed_compound (by decide) .unspec (fun _ => rfl) (fun _ => rfl)
  | @or operands draft h =>
    cases operands with
    | nil => exact nomatch h
    | cons _ _ =>
      cases h
      exact Head.wellFormed_compound (by decide) .unspec (fun _ => rfl) (fun _ => rfl)
  | spokenBy _ subject ih => exact ih.withSubject subject

/-- Whatever draft is begun, it has as many operands as its operator takes. -/
private theorem accepts_of_made {draft : Draft} (h : draft.Made) :
    draft.operator.arity.accepts draft.operands.length := by
  induction h with
  -- only these two count their operands, the others are given as many as they take
  | @and operands draft h | @or operands draft h =>
    cases operands with
    | nil => exact nomatch h
    | cons operand rest =>
      cases h
      show decide (1 ≤ (operand :: rest).length) = true
      simp
  | spokenBy _ _ ih => exact ih
  | _ => rfl

/-- A draft that can be made has the shape of a statement. -/
theorem Made.shaped {draft : Draft} (h : draft.Made) (text : Text) :
    (⟨draft.toHead, draft.operands, text⟩ : Statement).Shaped :=
  ⟨head_wellFormed_of_made h, accepts_of_made h⟩

end Draft

/-! ### Statements -/

namespace Statement

/-- A draft without operands makes a statement by itself. -/
theorem Reachable.build_leaf {draft : Draft} (h : draft.Made) (hnil : draft.operands = []) :
    draft.build.Reachable := by
  refine .build h ?_
  rw [hnil]
  exact fun _ hmem => nomatch hmem

/-- The finished statement of a well-shaped head over well-shaped operands. -/
theorem forall_shaped_assemble {head : Head} {operands : List Statement} (hhead : head.WellFormed)
    (harity : head.operator.arity.accepts operands.length)
    (h : ∀ operand ∈ operands, ∀ n ∈ operand.nodes, n.Shaped) :
    ∀ n ∈ (assemble head operands).nodes, n.Shaped := by
  apply forall_shaped_complete
  rw [forall_nodes_iff]
  exact ⟨⟨hhead, harity⟩, h⟩

/-- Every node of a compiled text has the shape of a statement. -/
theorem forall_shaped_compileWithin (limit : Nat) (t : Text) :
    ∀ n ∈ (compileWithin limit t).nodes, n.Shaped := by
  apply compileWithin_induction (P := fun _ s => ∀ n ∈ s.nodes, n.Shaped)
  · -- a phrase without operands, or the `Skip` in place of what cannot be read
    intro _ head hhead
    have hnop := hhead.1.operator_eq_nop hhead.2.1
    exact forall_shaped_assemble hhead.1 (by rw [hnop]; rfl) (fun _ hmem => nomatch hmem)
  · -- an operator over operands for which the claim holds already
    intro _ head operands hhead _ harity ih
    exact forall_shaped_assemble hhead harity ih

/-- Every node of a compiled text is settled. -/
theorem forall_settled_compileWithin (limit : Nat) (t : Text) :
    ∀ n ∈ (compileWithin limit t).nodes, n.Settled := by
  apply compileWithin_induction (P := fun _ s => ∀ n ∈ s.nodes, n.Settled)
  · intro _ head _
    exact forall_settled_complete _ _
  · intro _ head operands _ _ _ _
    exact forall_settled_complete _ _

/-- What is embedded in a text is a compiled text itself. -/
private theorem eq_compileWithin_of_mem_embeddedIn {t : Text} {s : Statement}
    (h : s ∈ embeddedIn t) : ∃ limit group, compileWithin limit group = s := by
  rw [embeddedIn_eq_map] at h
  obtain ⟨group, _, hs⟩ := List.mem_map.mp h
  exact ⟨_, group, hs⟩

/-- Every node of a statement that can be made is a statement that can be made. -/
theorem Reachable.of_mem_nodes {s n : Statement} (h : s.Reachable) (hn : n ∈ s.nodes) :
    n.Reachable := by
  induction s with
  | node head operands text ih =>
    rw [nodes_eq_cons, List.mem_cons] at hn
    rcases hn with rfl | hn
    · exact h
    · obtain ⟨operand, ho, hn⟩ := List.mem_flatMap.mp hn
      exact ih operand ho (h.operand ho) hn

/-- Every node of a statement that can be made has the shape of a statement. -/
theorem Reachable.shaped {s : Statement} (h : s.Reachable) : ∀ n ∈ s.nodes, n.Shaped := by
  -- induction on how the statement has been made
  induction h with
  | build hdraft _ ih =>
    have hshaped := hdraft.shaped []
    exact forall_shaped_assemble hshaped.toWellFormed hshaped.arity ih
  | compileWithin limit t => exact forall_shaped_compileWithin limit t
  | embeddedIn h =>
    obtain ⟨limit, group, rfl⟩ := eq_compileWithin_of_mem_embeddedIn h
    exact forall_shaped_compileWithin limit group
  | spokenBy _ subject ih => exact forall_shaped_complete ih subject
  | operand _ hmem ih => exact fun n hn => ih n (mem_nodes_of_mem_operands hmem hn)

/-- Every node of a statement that can be made is settled. -/
theorem Reachable.settled {s : Statement} (h : s.Reachable) : ∀ n ∈ s.nodes, n.Settled := by
  induction h with
  -- completion settles every node, so only operands need the hypothesis
  | build _ _ _ => exact forall_settled_complete _ _
  | compileWithin limit t => exact forall_settled_compileWithin limit t
  | embeddedIn h =>
    obtain ⟨limit, group, rfl⟩ := eq_compileWithin_of_mem_embeddedIn h
    exact forall_settled_compileWithin limit group
  | spokenBy _ subject _ => exact forall_settled_complete subject _
  | operand _ hmem ih => exact fun n hn => ih n (mem_nodes_of_mem_operands hmem hn)

/-- The representation of statements. At every node of every statement that can be made, an operator
marks a compound statement and has as many operands as it takes; a request or an inquiry has an
addressee; operands are spoken by somebody if the context says by whom; the text is the canonical
one; and fields that the form does not use hold their defaults. -/
theorem Reachable.representation {s : Statement} (h : s.Reachable) {n : Statement}
    (hn : n ∈ s.nodes) :
    ((n.topic = .operator ↔ n.operator ≠ .nop) ∧
      (n.topic ≠ .operator → n.operands = []) ∧
      (n.topic = .operator → n.operator.arity.accepts n.operands.length)) ∧
    (n.operator = .request ∨ n.operator = .inquire → n.target ≠ .unspec) ∧
    (n.operator = .request ∨ n.operator = .inquire ∨ n.subject ≠ .unspec →
      ∀ operand ∈ n.operands, operand.subject ≠ .unspec) ∧
    n.text = render n.toHead n.operands ∧
    ((n.topic.form.hasTarget = false → n.operator ≠ .request → n.operator ≠ .inquire →
        n.target = .any) ∧
      (n.topic.form ≠ .claim → n.role = .unc) ∧
      (n.topic.form ≠ .finding → n.result = .unc) ∧
      (n.topic.form ≠ .agreement → n.utterance = .unset) ∧
      (n.operator ≠ .day → n.day = -1)) := by
  have hshaped := h.shaped n hn
  have hsettled := h.settled n hn
  -- most parts are fields of the invariant, three need an argument
  refine ⟨⟨hshaped.operator_iff, hshaped.operands_eq_nil, fun _ => hshaped.arity⟩, ?_, ?_,
    hsettled.text, ?_, hshaped.role_unused, hshaped.result_unused, hshaped.utterance_unused,
    hshaped.day_unused⟩
  · intro haddress
    exact hsettled.addressee (Operator.addressesTarget_iff.mpr haddress)
  · intro hknown
    apply hsettled.speakers
    -- the context is the addressee, which is named, or else the speaker
    by_cases haddress : n.operator.addressesTarget = true
    · rw [Head.context, if_pos haddress]
      exact hsettled.addressee haddress
    · rw [Head.context, if_neg haddress]
      rw [Operator.addressesTarget_iff] at haddress
      rcases hknown with hrequest | hinquire | hsubject
      · exact absurd (Or.inl hrequest) haddress
      · exact absurd (Or.inr hinquire) haddress
      · exact hsubject
  · intro hform hrequest hinquire
    apply hshaped.target_unused hform
    cases haddress : n.operator.addressesTarget with
    | false => rfl
    | true =>
      rcases Operator.addressesTarget_iff.mp haddress with h | h
      · exact absurd h hrequest
      · exact absurd h hinquire

/-- A request built over an open vote and put in the mouth of an agent: its node is named an
addressee, and the vote below is spoken by that addressee. -/
theorem representation_request :
    (Draft.request .unspec (Draft.vote ⟨2⟩).build).build.Reachable ∧
      (Draft.request .unspec (Draft.vote ⟨2⟩).build).build.target ≠ .unspec ∧
      ∀ operand ∈ (Draft.request .unspec (Draft.vote ⟨2⟩).build).build.operands,
        operand.subject ≠ .unspec := by
  have hvote : (Draft.vote ⟨2⟩).build.Reachable := .build (.vote _) (fun _ hmem => nomatch hmem)
  have hreachable : (Draft.request .unspec (Draft.vote ⟨2⟩).build).build.Reachable := by
    apply Reachable.build (.request _ _)
    intro operand hmem
    rw [List.mem_singleton.mp hmem]
    exact hvote
  have hrep := hreachable.representation (mem_nodes_self _)
  exact ⟨hreachable, hrep.2.1 (Or.inl rfl), hrep.2.2.1 (Or.inl rfl)⟩

end Statement

end Parley
