import Parley.Proofs.Statement.RoundTrip

/-!
# Compiled statements are stable

Whatever a text is, the statement that it compiles to fits into the limit, says something
everywhere, and has bare statements spoken by nobody else than their context implies. So its own
text tells everything about it but whether a target was left open.

## Key results

- `nesting_complete`: completion keeps the depth
- `forall_attributed_complete`: completion gives bare operands the speaker that the context implies
- `compiled_compileWithin`: what every compiled statement is like
- `compileWithin_stable`: compiling the text of a compiled statement changes open targets at most
-/

namespace Parley.Statement

/-! ### What completion keeps -/

/-- Completion changes neither topics nor the number of operands, and so it keeps the depth. -/
theorem nesting_complete (subject : Agent) (s : Statement) :
    (complete subject s).nesting = s.nesting := by
  induction s generalizing subject with
  | node head operands text ih =>
    -- the context differs from operand to operand, so the lists are compared in every context
    have hall : ∀ context, nestingAll (completeAll context operands) = nestingAll operands := by
      intro context
      induction operands with
      | nil => rfl
      | cons operand rest ihrest =>
        rw [completeAll, nestingAll, nestingAll, ih operand List.mem_cons_self,
          ihrest fun o ho => ih o (List.mem_cons_of_mem _ ho)]
    rw [complete, nesting, nesting, hall, Head.topic_spokenBy]

/-- What fits into a limit still fits when it is completed. -/
theorem Fits.complete {limit : Nat} {s : Statement} (h : s.Fits limit) (subject : Agent) :
    (complete subject s).Fits limit := by
  refine ⟨?_, ?_⟩
  · rw [nesting_complete]
    exact h.1
  · exact forall_nodes_complete (fun s subject hs => by rwa [toHead_complete]) h.2 subject

/-- Bare operands are spoken by the agent that the context implies. -/
def Attributed (s : Statement) : Prop :=
  ∀ operand ∈ s.operands, operand.topic.form = .bare → operand.subject = s.toHead.context

/-- Bare operands are spoken by the agent that the context implies, or by nobody so far. -/
def Attributable (s : Statement) : Prop :=
  ∀ operand ∈ s.operands, operand.topic.form = .bare →
    operand.subject = .unspec ∨ operand.subject = s.toHead.context

/-- A speaker that is implied is one of those allowed before completion. -/
theorem Attributed.attributable {s : Statement} (h : s.Attributed) : s.Attributable :=
  fun operand ho hbare => Or.inr (h operand ho hbare)

/-- A statement whose speaker is filled in, or stays, hands on the speakers of bare operands. -/
theorem forall_attributed_complete {s : Statement} (h : ∀ n ∈ s.nodes, n.Attributable)
    {subject : Agent} (hstays : s.subject = .unspec ∨ s.subject = subject) :
    ∀ n ∈ (complete subject s).nodes, n.Attributed := by
  induction s generalizing subject with
  | node head operands text ih =>
    obtain ⟨hself, hbelow⟩ := forall_nodes_iff.mp h
    have hcontext := context_spokenBy hstays
    rw [forall_nodes_iff]
    -- at the root the speakers are filled in, and below it the induction takes over
    constructor
    · intro completed hmem hbare
      rw [operands_complete, completeAll_eq_map] at hmem
      obtain ⟨operand, ho, rfl⟩ := List.mem_map.mp hmem
      have hbare : operand.topic.form = .bare := by
        rwa [toHead_complete] at hbare
      -- an open speaker is filled in by the new context, and so is one from an open context
      have hspeaker := hself operand ho hbare
      rw [toHead_complete, Head.subject_spokenBy, toHead_complete]
      rcases hspeaker with hopen | himplied
      · rw [hopen, Agent.unspec_orElse]
      · rw [himplied]
        rcases hcontext with hopen | hsame
        · rw [hopen, Agent.unspec_orElse]
        · rw [hsame, Agent.orElse_self]
    · intro completed hmem
      rw [operands_complete, completeAll_eq_map] at hmem
      obtain ⟨operand, ho, rfl⟩ := List.mem_map.mp hmem
      exact ih operand ho (hbelow operand ho) (Agent.eq_unspec_or_eq_orElse _ _)

/-! ### What compiled statements are like -/

/-- A statement that fits into a limit, that says something everywhere, and whose bare nodes are
spoken by nobody but whom the context implies. -/
structure Compiled (limit : Nat) (s : Statement) : Prop where
  fits : s.Fits limit
  bare_open : s.topic.form = .bare → s.subject = .unspec
  attributed : ∀ n ∈ s.nodes, n.Attributed

/-- Finishing a statement that fits, whose bare nodes have no other speakers, makes it like a
compiled one. -/
private theorem compiled_finish {limit : Nat} {s : Statement} (hfits : s.Fits limit)
    (hbare : s.topic.form = .bare → s.subject = .unspec) (h : ∀ n ∈ s.nodes, n.Attributable) :
    Compiled limit (finish s) where
  fits := hfits.complete s.subject
  bare_open := by
    rw [finish, toHead_complete]
    exact hbare
  attributed := forall_attributed_complete h (Or.inr rfl)

/-- What a text compiles to fits into the limit, and it says something everywhere. -/
theorem compiled_compileWithin (limit : Nat) (t : Text) :
    Compiled limit (compileWithin limit t) := by
  apply compileWithin_induction (P := Compiled)
  · -- a simple statement has no operands to be looked at
    intro limit head hhead
    obtain ⟨_, hsimple, hnodummy, hbare⟩ := hhead
    apply compiled_finish
    · exact fits_leaf hsimple hnodummy rfl limit
    · exact hbare
    · rw [nodes_leaf rfl]
      intro n hn operand ho
      rw [List.mem_singleton.mp hn] at ho
      exact nomatch ho
  · intro limit head operands _ hop _ ih
    apply compiled_finish
    · rw [fits_succ_iff hop]
      exact fun operand ho => (ih operand ho).fits
    · intro hbare
      exact absurd hop (Topic.ne_of_bare hbare).2
    · -- a bare operand is open when it is compiled, and below the operands nothing changes
      rw [forall_nodes_iff]
      refine ⟨fun operand ho hbare => Or.inl ((ih operand ho).bare_open hbare), ?_⟩
      intro operand ho n hn
      exact ((ih operand ho).attributed n hn).attributable

/-! ### Compiling once more -/

/-- A statement of which nothing is cut off keeps its text. -/
private theorem text_completeIn_legible {s : Statement} (hshaped : ∀ n ∈ s.nodes, n.Shaped)
    (hsettled : ∀ n ∈ s.nodes, n.Settled) {context : Agent}
    (hcontext : s.subject = .unspec → context = .unspec) {limit : Nat} (hfits : s.Fits limit) :
    (completeIn context (s.legible limit)).text = s.text := by
  have hread : (completeIn context (s.legible limit)).Settled := settled_complete _ _
  -- where nobody is implied, the text of an operand is its own text
  have hkeep := (operandText_legible_iff hshaped hsettled hcontext limit .unspec).mpr hfits
  rwa [operandText_unspec hread, operandText_unspec (hsettled s (mem_nodes_self s))] at hkeep

/-- A statement of which nothing is cut off, and whose bare nodes are spoken by whom the context
implies, is legible but for its open targets. -/
theorem completeIn_legible_eq_mapHeads {s : Statement} (hshaped : ∀ n ∈ s.nodes, n.Shaped)
    (hsettled : ∀ n ∈ s.nodes, n.Settled) (hattributed : ∀ n ∈ s.nodes, n.Attributed)
    {context : Agent} (hcontext : s.subject = .unspec → context = .unspec)
    (hbare : s.topic.form = .bare → s.subject = context) {limit : Nat} (hfits : s.Fits limit) :
    completeIn context (s.legible limit) = s.mapHeads Head.aimed := by
  induction s generalizing context limit with
  | node head operands text ih =>
    obtain ⟨hshape, hshapes⟩ := forall_nodes_iff.mp hshaped
    obtain ⟨hself, hbelow⟩ := forall_nodes_iff.mp hsettled
    obtain ⟨hspeakers, hattributes⟩ := forall_nodes_iff.mp hattributed
    have htext := text_completeIn_legible hshaped hsettled hcontext hfits
    rcases head.topic.cases with hdummy | hform | ⟨hvoiced, hsimple⟩ | hop
    · exact absurd hfits (not_fits_dummy hdummy limit)
    · -- the speaker is not read, but the context has implied it
      have hnil := hshape.operands_eq_nil (Topic.ne_of_bare hform).2
      have hhead := hshape.toWellFormed.eq_of_unvoiced (by rw [hform]; rfl)
      have haimed := @Head.aimed_eq_self head (by rw [hform]; rfl)
      rw [completeIn_legible_bare hshape hform] at htext ⊢
      rw [← hbare hform, mapHeads_leaf hnil, Statement.mk.injEq]
      exact ⟨(haimed.trans hhead).symm, rfl, htext⟩
    · have hnil := hshape.operands_eq_nil hsimple
      rw [completeIn_legible_simple hshape hself hvoiced hsimple hcontext, mapHeads_leaf hnil]
    · cases limit with
      | zero => exact absurd hfits (not_fits_zero hop)
      | succ limit =>
        have hfits := (fits_succ_iff hop).mp hfits
        have hoperands : operands.map (fun o => completeIn head.context (o.legible limit)) =
            mapHeadsAll Head.aimed operands := by
          rw [mapHeadsAll_eq_map]
          apply List.map_congr_left
          intro operand ho
          exact ih operand ho (hshapes operand ho) (hbelow operand ho) (hattributes operand ho)
            (hself.open_context ho) (hspeakers operand ho) (hfits operand ho)
        have hequation := completeIn_legible_compound hself hop hcontext limit
        have haimed := @Head.aimed_eq_self head (by rw [hop]; rfl)
        -- the text is kept although the operands may have got new targets
        rw [hequation] at htext ⊢
        rw [mapHeads, Statement.mk.injEq]
        exact ⟨haimed.symm, hoperands, htext⟩

/-- Compiling is stable. Whatever the text, what it compiles to is compiled from its own text again,
but for open targets, which become anybody; the text stays as it is, and compiling it once more
changes nothing at all. -/
theorem compileWithin_stable (limit : Nat) (t : Text) :
    let s := compileWithin limit t
    compileWithin limit s.text = s.mapHeads Head.aimed ∧
      (compileWithin limit s.text).text = s.text ∧
      compileWithin limit (compileWithin limit s.text).text = compileWithin limit s.text := by
  intro s
  have hshaped := forall_shaped_compileWithin limit t
  have hsettled := forall_settled_compileWithin limit t
  have hcompiled := compiled_compileWithin limit t
  have hread : compileWithin limit s.text = completeIn .unspec (s.legible limit) := by
    rw [compileWithin_text_eq hshaped hsettled, finish_eq_completeIn]
  have htext : (compileWithin limit s.text).text = s.text := by
    rw [hread]
    exact text_completeIn_legible hshaped hsettled (fun _ => rfl) hcompiled.fits
  have haimed := completeIn_legible_eq_mapHeads hshaped hsettled hcompiled.attributed (fun _ => rfl)
    hcompiled.bare_open hcompiled.fits
  -- once the text is kept, the second compilation has the same input as the first
  exact ⟨hread.trans haimed, htext, by rw [htext]⟩

end Parley.Statement
