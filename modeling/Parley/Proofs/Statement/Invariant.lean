import Parley.Proofs.Statement.Tree

/-!
# What holds at every node

Two properties of a node are kept apart. Its *shape* is fixed when the node is made: which fields
its form uses and how many operands its operator takes. It is *settled* when completion has passed
over it: an addressee is named, open speakers are filled in, and the text is the canonical one.

## Key results

- `forall_shaped_complete`: completion keeps the shape of every node
- `forall_settled_complete`: completion settles every node, whatever it starts from
-/

namespace Parley

/-- An agent is left open only if nobody is there to fill it in. -/
theorem Agent.orElse_ne_unspec {a other : Agent} (h : other ≠ unspec) :
    a.orElse other ≠ unspec := by
  unfold orElse
  split
  · exact h
  · assumption

/-- Requests and inquiries are addressed to somebody, and no other operator is. -/
theorem Operator.addressesTarget_iff {operator : Operator} :
    operator.addressesTarget = true ↔ operator = .request ∨ operator = .inquire := by
  cases operator <;> decide

/-- Two topics are bare: their statements are a word by itself. -/
theorem Topic.skip_or_finished {topic : Topic} (h : topic.form = .bare) :
    topic = .skip ∨ topic = .finished := by
  revert h
  cases topic <;> decide

/-- The fields that the form of a statement does not use hold their defaults, and an utterance that
is referred to is known by its channel, day and index only. -/
structure Head.WellFormed (head : Head) : Prop where
  operator_iff : head.topic = .operator ↔ head.operator ≠ .nop
  target_unused : head.topic.form.hasTarget = false → head.operator.addressesTarget = false →
    head.target = .any
  role_unused : head.topic.form ≠ .claim → head.role = .unc
  result_unused : head.topic.form ≠ .finding → head.result = .unc
  utterance_unused : head.topic.form ≠ .agreement → head.utterance = .unset
  utterance_reference : head.utterance =
    .reference head.utterance.channel head.utterance.day head.utterance.index
  day_unused : head.operator ≠ .day → head.day = -1

namespace Head

/-- A simple statement has no operator. -/
theorem WellFormed.operator_eq_nop {head : Head} (h : head.WellFormed)
    (hsimple : head.topic ≠ .operator) : head.operator = .nop :=
  Decidable.byContradiction fun hne => hsimple (h.operator_iff.mpr hne)

/-! ### Well-formed heads, form by form -/

/-- The topic of a simple form is not that of an operator, which is missing there. -/
private theorem operator_iff_of_form {topic : Topic} (h : topic.form ≠ .compound) :
    topic = .operator ↔ Operator.nop ≠ .nop := by
  constructor
  · intro htopic
    subst htopic
    exact absurd rfl h
  · intro hne
    exact absurd rfl hne

/-- A statement without fields: a bare one, or one that says nothing. -/
theorem wellFormed_bare {topic : Topic} (h : topic.form = .bare ∨ topic.form = .empty)
    (subject : Agent) : ({ topic, subject } : Head).WellFormed where
  operator_iff := operator_iff_of_form (by rcases h with h | h <;> rw [h] <;> decide)
  target_unused _ _ := rfl
  role_unused _ := rfl
  result_unused _ := rfl
  utterance_unused _ := rfl
  utterance_reference := rfl
  day_unused _ := rfl

/-- An agreement uses the utterance that it refers to. -/
theorem wellFormed_agreement {topic : Topic} (h : topic.form = .agreement) (subject : Agent)
    (channel : Channel) (day index : Int32) :
    ({ topic, subject, utterance := .reference channel day index } : Head).WellFormed where
  operator_iff := operator_iff_of_form (by rw [h]; decide)
  target_unused _ _ := rfl
  role_unused _ := rfl
  result_unused _ := rfl
  utterance_unused hne := absurd h hne
  utterance_reference := rfl
  day_unused _ := rfl

/-- A claim uses its target and the role. -/
theorem wellFormed_claim {topic : Topic} (h : topic.form = .claim) (subject target : Agent)
    (role : Role) : ({ topic, subject, target, role } : Head).WellFormed where
  operator_iff := operator_iff_of_form (by rw [h]; decide)
  target_unused hform _ := absurd hform (by rw [h]; decide)
  role_unused hne := absurd h hne
  result_unused _ := rfl
  utterance_unused _ := rfl
  utterance_reference := rfl
  day_unused _ := rfl

/-- A finding uses its target and the result. -/
theorem wellFormed_finding {topic : Topic} (h : topic.form = .finding) (subject target : Agent)
    (result : Species) : ({ topic, subject, target, result } : Head).WellFormed where
  operator_iff := operator_iff_of_form (by rw [h]; decide)
  target_unused hform _ := absurd hform (by rw [h]; decide)
  role_unused _ := rfl
  result_unused hne := absurd h hne
  utterance_unused _ := rfl
  utterance_reference := rfl
  day_unused _ := rfl

/-- An action uses its target. -/
theorem wellFormed_action {topic : Topic} (h : topic.form = .action) (subject target : Agent) :
    ({ topic, subject, target } : Head).WellFormed where
  operator_iff := operator_iff_of_form (by rw [h]; decide)
  target_unused hform _ := absurd hform (by rw [h]; decide)
  role_unused _ := rfl
  result_unused _ := rfl
  utterance_unused _ := rfl
  utterance_reference := rfl
  day_unused _ := rfl

/-- A compound statement uses its target if it addresses one, and its day if it has one. -/
theorem wellFormed_compound {operator : Operator} (h : operator ≠ .nop) (subject : Agent)
    {target : Agent} {day : Int32} (htarget : operator.addressesTarget = false → target = .any)
    (hday : operator ≠ .day → day = -1) :
    ({ topic := .operator, operator, subject, target, day } : Head).WellFormed where
  operator_iff := ⟨fun _ => h, fun _ => rfl⟩
  target_unused _ := htarget
  role_unused _ := rfl
  result_unused _ := rfl
  utterance_unused _ := rfl
  utterance_reference := rfl
  day_unused := hday

/-! ### Heads and speakers -/

@[simp] theorem topic_spokenBy (head : Head) (subject : Agent) :
    (head.spokenBy subject).topic = head.topic := rfl

@[simp] theorem operator_spokenBy (head : Head) (subject : Agent) :
    (head.spokenBy subject).operator = head.operator := rfl

@[simp] theorem subject_spokenBy (head : Head) (subject : Agent) :
    (head.spokenBy subject).subject = subject := rfl

/-- A head is changed in its speaker only, unless its addressee was open. -/
theorem spokenBy_of_addressee {head : Head}
    (h : head.operator.addressesTarget = true → head.target ≠ .unspec) (subject : Agent) :
    head.spokenBy subject = { head with subject } := by
  obtain ⟨topic, operator, speaker, target, role, result, utterance, day⟩ := head
  simp only [spokenBy]
  split
  -- the addressee would have to be open
  · next hopen =>
    simp only [Bool.and_eq_true, beq_iff_eq] at hopen
    exact absurd hopen.2 (h hopen.1)
  · rfl

/-- A head stays as it is when its own speaker speaks it. -/
theorem spokenBy_subject {head : Head}
    (h : head.operator.addressesTarget = true → head.target ≠ .unspec) :
    head.spokenBy head.subject = head :=
  spokenBy_of_addressee h head.subject

/-- Of two speakers the last one counts. -/
theorem spokenBy_spokenBy (head : Head) (first second : Agent) :
    (head.spokenBy first).spokenBy second = head.spokenBy second := by
  obtain ⟨topic, operator, subject, target, role, result, utterance, day⟩ := head
  simp only [spokenBy]
  split
  · -- an addressee that was open is anybody by now
    simp
  · rfl

/-- The speaker of a head is no field of its form, and an addressee is named only where one is used.
-/
theorem WellFormed.spokenBy {head : Head} (h : head.WellFormed) (subject : Agent) :
    (head.spokenBy subject).WellFormed where
  operator_iff := h.operator_iff
  -- where no addressee is used, none is filled in
  target_unused := by
    intro hform haddress
    have haddress : head.operator.addressesTarget = false := haddress
    simp only [Head.spokenBy, haddress, Bool.false_and]
    exact h.target_unused hform haddress
  role_unused := h.role_unused
  result_unused := h.result_unused
  utterance_unused := h.utterance_unused
  utterance_reference := h.utterance_reference
  day_unused := h.day_unused

end Head

namespace Statement

/-- The shape of a node: its head is well-formed, and it has as many operands as its operator takes.
A simple statement, whose operator is `nop`, has none. -/
structure Shaped (s : Statement) : Prop extends s.toHead.WellFormed where
  arity : s.operator.arity.accepts s.operands.length

/-- A node over which completion has passed. -/
structure Settled (s : Statement) : Prop where
  addressee : s.operator.addressesTarget → s.target ≠ .unspec
  speakers : s.toHead.context ≠ .unspec → ∀ operand ∈ s.operands, operand.subject ≠ .unspec
  text : s.text = render s.toHead s.operands

/-- A simple statement has no operands. -/
theorem Shaped.operands_eq_nil {s : Statement} (h : s.Shaped) (hsimple : s.topic ≠ .operator) :
    s.operands = [] := by
  have harity := h.arity
  rw [h.operator_eq_nop hsimple] at harity
  exact List.eq_nil_of_length_eq_zero (beq_iff_eq.mp harity)

/-- Every operator takes at least one operand. -/
theorem Shaped.operands_ne_nil {s : Statement} (h : s.Shaped) (hop : s.topic = .operator) :
    s.operands ≠ [] := by
  have harity := h.arity
  have hne := h.operator_iff.mp hop
  intro hnil
  -- only the arity of `nop` accepts no operands
  rw [hnil] at harity
  revert harity hne
  generalize s.operator = operator
  cases operator <;> decide

/-- The speaker of an operand is open only in an open context. -/
theorem Settled.open_context {s operand : Statement} (h : s.Settled) (ho : operand ∈ s.operands)
    (hopen : operand.subject = .unspec) : s.toHead.context = .unspec :=
  Decidable.byContradiction fun hne => h.speakers hne operand ho hopen

/-- The context is known where an addressee is named, and where a speaker is. -/
theorem Settled.context_ne_unspec {s : Statement} (h : s.Settled)
    (hknown : s.operator.addressesTarget = true ∨ s.subject ≠ .unspec) :
    s.toHead.context ≠ .unspec := by
  unfold Head.context
  split
  · next haddress => exact h.addressee haddress
  · next haddress => exact hknown.resolve_left haddress

/-- Completion changes neither the number of operands nor the fields of a form. -/
theorem Shaped.complete {s : Statement} (h : s.Shaped) (subject : Agent) :
    (complete subject s).Shaped := by
  have hhead := toHead_complete subject s
  refine ⟨?_, ?_⟩
  · rw [hhead]
    exact h.toWellFormed.spokenBy subject
  · rw [operands_complete, completeAll_eq_map, List.length_map, hhead]
    exact h.arity

/-- Completion keeps the shape of every node. -/
theorem forall_shaped_complete {s : Statement} (h : ∀ n ∈ s.nodes, n.Shaped) (subject : Agent) :
    ∀ n ∈ (complete subject s).nodes, n.Shaped :=
  forall_nodes_complete (fun _ subject hs => hs.complete subject) h subject

/-- Completion settles the node that it passes over. -/
theorem settled_complete (subject : Agent) (s : Statement) : (complete subject s).Settled where
  addressee := by
    rw [toHead_complete]
    intro haddress
    have haddress : s.operator.addressesTarget = true := haddress
    simp only [Head.spokenBy, haddress, Bool.true_and, beq_iff_eq]
    -- an open addressee is anybody now, and any other has stayed
    split
    · decide
    · assumption
  speakers := by
    rw [toHead_complete, operands_complete, completeAll_eq_map]
    intro hcontext operand hmem
    obtain ⟨original, _, rfl⟩ := List.mem_map.mp hmem
    -- the operand has been completed with its own speaker or with the agent implied
    rw [toHead_complete]
    exact Agent.orElse_ne_unspec hcontext
  text := text_complete subject s

/-- Completion settles every node, whatever it starts from. -/
theorem forall_settled_complete (subject : Agent) (s : Statement) :
    ∀ n ∈ (complete subject s).nodes, n.Settled :=
  forall_nodes_complete (Q := fun _ => True) (fun s subject _ => settled_complete subject s)
    (fun _ _ => trivial) subject

end Statement

end Parley
