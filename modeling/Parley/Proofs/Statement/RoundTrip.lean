import Parley.Proofs.Statement.ReadBack

/-!
# Texts of statements, read back

The canonical text of a statement compiles to its legible part, finished again. The induction is
over the statement, and it is about operands: an operand is written without the speaker that its
context implies, and it is completed in the same context after it has been read.

## Key results

- `completeIn_compileWithin`: in its context, an operand is read back as far as it is legible
- `operandText_legible_iff`: exactly the statements of which nothing is cut off keep their text
- `compileWithin_text`: what the text of any statement that can be made compiles to
-/

namespace Parley.Statement

/-! ### Reading an operand -/

/-- The keyword of a bare statement is read as that statement. -/
theorem ofText?_spell_bare {topic : Topic} (hbare : topic.form = .bare) :
    Phrase.ofText? (Text.trim (Vocabulary.spell topic)) = some (.simple { topic }) := by
  rcases Topic.skip_or_finished hbare with rfl | rfl <;> rfl

/-- A statement that says nothing has no text, and no text is read as `Skip`. -/
private theorem compileWithin_nil (limit : Nat) : compileWithin limit [] = skip :=
  compileWithin_of_no_phrase rfl limit

/-- The text of a simple operand follows the grammar, with the speaker that is written. -/
theorem grammar_operandText_simple {s : Statement} (hshaped : s.Shaped) (hsettled : s.Settled)
    (hvoiced : s.topic.form.isVoiced = true) (hsimple : s.topic ≠ .operator) (context : Agent) :
    ∃ pattern, Phrase.Grammar pattern (operandText context s)
      (.simple { s.toHead.aimed with subject := s.subject.unlessImplied context }) := by
  have hspeaker := Agent.speakerPrefix_speakerText (s.subject.unlessImplied context)
  rw [operandText_voiced hsettled hvoiced]
  exact Phrase.grammar_simple hshaped.toWellFormed hvoiced hsimple s.operands hspeaker

/-- The text of a compound operand follows the grammar, with the speaker that is written, and the
groups of its region are the texts of the operands. -/
theorem grammar_operandText_compound {s : Statement} (hshaped : s.Shaped)
    (hsettled : ∀ n ∈ s.nodes, n.Settled) (hop : s.topic = .operator) (context : Agent) :
    ∃ pattern region, Phrase.IsRegion region ∧
      Text.groups region = s.operands.map (operandText s.toHead.context) ∧
      Phrase.Grammar pattern (operandText context s)
        (.compound { s.toHead with subject := s.subject.unlessImplied context } region) := by
  obtain ⟨hself, hbelow⟩ := forall_nodes_iff.mp hsettled
  have hspeaker := Agent.speakerPrefix_speakerText (s.subject.unlessImplied context)
  have harguments := Phrase.arguments_argumentText hshaped.toWellFormed hop hself.addressee
    (s.subject.unlessImplied context)
  -- there is at least one operand, so there is a region
  have hne : s.operands.map (operandText s.toHead.context) ≠ [] := by
    simpa using hshaped.operands_ne_nil hop
  have hbalanced := balanced_operandTexts hbelow s.toHead.context
  obtain ⟨region, hregion, hgroups, htext⟩ := Phrase.exists_region_of_groupsText hne hbalanced
  obtain ⟨pattern, hgrammar⟩ := Phrase.grammar_compound hspeaker harguments hregion
  refine ⟨pattern, region, hregion, hgroups, ?_⟩
  rw [operandText_compound hself hop, htext]
  exact hgrammar

/-- The text of a simple operand is read with the speaker that is written. -/
theorem ofText?_operandText_simple {s : Statement} (hshaped : s.Shaped) (hsettled : s.Settled)
    (hvoiced : s.topic.form.isVoiced = true) (hsimple : s.topic ≠ .operator) (context : Agent) :
    Phrase.ofText? (Text.trim (operandText context s)) =
      some (.simple { s.toHead.aimed with subject := s.subject.unlessImplied context }) := by
  obtain ⟨pattern, hgrammar⟩ :=
    grammar_operandText_simple hshaped hsettled hvoiced hsimple context
  rw [hgrammar.trim_eq]
  exact Phrase.ofText?_eq_some_iff.mpr ⟨pattern, hgrammar⟩

/-- The text of a compound operand is read with the speaker that is written, and the groups of its
region are the texts of the operands, as many as the operator takes. -/
theorem ofText?_operandText_compound {s : Statement} (hshaped : s.Shaped)
    (hsettled : ∀ n ∈ s.nodes, n.Settled) (hop : s.topic = .operator) (context : Agent) :
    ∃ region, Text.groups region = s.operands.map (operandText s.toHead.context) ∧
      s.operator.arity.accepts (Text.groups region).length ∧
      Phrase.ofText? (Text.trim (operandText context s)) =
        some (.compound { s.toHead with subject := s.subject.unlessImplied context } region) := by
  obtain ⟨pattern, region, -, hgroups, hgrammar⟩ :=
    grammar_operandText_compound hshaped hsettled hop context
  have haccepts : s.operator.arity.accepts (Text.groups region).length := by
    rw [hgroups, List.length_map]
    exact hshaped.arity
  refine ⟨region, hgroups, haccepts, ?_⟩
  rw [hgrammar.trim_eq]
  exact Phrase.ofText?_eq_some_iff.mpr ⟨pattern, hgrammar⟩

/-- In its context, an operand is read back from its text as far as it is legible. -/
theorem completeIn_compileWithin {s : Statement} (hshaped : ∀ n ∈ s.nodes, n.Shaped)
    (hsettled : ∀ n ∈ s.nodes, n.Settled) {context : Agent}
    (hcontext : s.subject = .unspec → context = .unspec) (limit : Nat) :
    completeIn context (compileWithin limit (operandText context s)) =
      completeIn context (s.legible limit) := by
  -- operands stand in the context of their operator and have one level less
  induction s generalizing context limit with
  | node head operands text ih =>
    obtain ⟨hshape, hshapes⟩ := forall_nodes_iff.mp hshaped
    obtain ⟨hself, hbelow⟩ := forall_nodes_iff.mp hsettled
    rcases head.topic.cases with hdummy | hbare | ⟨hvoiced, hsimple⟩ | hop
    · rw [operandText_dummy hself hdummy, compileWithin_nil, legible_of_cut (Or.inl hdummy)]
    · -- the keyword is read back, and its speaker comes from the context
      rw [operandText_bare hself hbare, compileWithin_simple (ofText?_spell_bare hbare),
        legible_bare hshape hbare, assemble, completeIn_finish]
      rfl
    · -- a speaker that is not written comes from the context too
      rw [compileWithin_simple (ofText?_operandText_simple hshape hself hvoiced hsimple context),
        legible_simple hshape hvoiced hsimple]
      exact @completeIn_assemble_unlessImplied head.aimed context hcontext [] text
    · obtain ⟨region, hgroups, haccepts, hread⟩ :=
        ofText?_operandText_compound hshape hsettled hop context
      cases limit with
      -- no level is left, so the operator is not read, and it is not legible either
      | zero => rw [compileWithin_zero_compound hread, legible_of_cut (Or.inr ⟨hop, rfl⟩)]
      | succ limit =>
        have hoperands : ((operands.map (operandText head.context)).map
              (compileWithin limit)).map (completeIn head.context) =
            (operands.map (legible limit)).map (completeIn head.context) := by
          rw [List.map_map, List.map_map, List.map_map]
          apply List.map_congr_left
          intro operand ho
          exact ih operand ho (hshapes operand ho) (hbelow operand ho)
            (hself.open_context ho) limit
        rw [compileWithin_compound hread haccepts, hgroups, legible_compound hop]
        -- the head is the same on both sides, and the operands agree once they are completed
        calc completeIn context
              (assemble { head with subject := head.subject.unlessImplied context }
                ((operands.map (operandText head.context)).map (compileWithin limit)))
            = completeIn context
                ⟨head, (operands.map (operandText head.context)).map (compileWithin limit), text⟩ :=
              completeIn_assemble_unlessImplied hcontext _ text
          _ = completeIn context ⟨head, operands.map (legible limit), text⟩ := by
              rw [completeIn_settled hself.addressee hcontext, hoperands,
                ← completeIn_settled hself.addressee hcontext]

/-! ### What keeps its text -/

/-- A `Skip` is written as such, whoever speaks it and wherever it stands. -/
private theorem operandText_skip (spoken context : Agent) :
    operandText context (completeIn spoken skip) = "Skip".toList := by
  have hsettled : (completeIn spoken skip).Settled := settled_complete _ _
  exact operandText_bare hsettled rfl context

/-- A bare statement is read back as what is written the same way. -/
private theorem operandText_legible_bare {s : Statement} (hshaped : s.Shaped)
    (hbare : s.topic.form = .bare) (spoken : Agent) (limit : Nat) (context : Agent) :
    operandText context (completeIn spoken (s.legible limit)) = Vocabulary.spell s.topic := by
  have hsettled : (completeIn spoken (s.legible limit)).Settled := settled_complete _ _
  rw [completeIn_legible_bare hshaped hbare] at hsettled ⊢
  exact operandText_bare hsettled hbare context

/-- A compound statement has brackets in its text, and so it does not read `Skip`. -/
private theorem operandText_compound_ne_skip {s : Statement} (hshaped : s.Shaped)
    (hsettled : s.Settled) (hop : s.topic = .operator) (context : Agent) :
    operandText context s ≠ "Skip".toList := by
  have hbracket : '(' ∈ operandText context s := by
    rw [operandText_compound hsettled hop]
    obtain ⟨operand, rest, hoperands⟩ := List.exists_cons_of_ne_nil (hshaped.operands_ne_nil hop)
    simp [hoperands, groupsText, field]
  -- the fixed word has no bracket
  intro heq
  rw [heq] at hbracket
  exact absurd hbracket (by decide)

/-- An operator above the limit keeps its text exactly if its operands do. -/
private theorem operandText_legible_compound_iff {s : Statement}
    (hsettled : ∀ n ∈ s.nodes, n.Settled) (hop : s.topic = .operator) {spoken : Agent}
    (hspoken : s.subject = .unspec → spoken = .unspec) (limit : Nat) (context : Agent) :
    operandText context (completeIn spoken (s.legible (limit + 1))) = operandText context s ↔
      ∀ operand ∈ s.operands,
        operandText s.toHead.context (completeIn s.toHead.context (operand.legible limit)) =
          operandText s.toHead.context operand := by
  obtain ⟨hself, hbelow⟩ := forall_nodes_iff.mp hsettled
  have hread : ∀ n ∈ (completeIn spoken (s.legible (limit + 1))).nodes, n.Settled :=
    forall_settled_complete _ _
  rw [completeIn_legible_compound hself hop hspoken limit] at hread ⊢
  obtain ⟨hreadself, hreadbelow⟩ := forall_nodes_iff.mp hread
  have hbalanced := balanced_operandTexts hbelow s.toHead.context
  have hreadbalanced := balanced_operandTexts hreadbelow s.toHead.context
  -- the heads are the same, so the texts differ in the operands if they differ at all
  rw [operandText_compound hreadself hop, operandText_compound hself hop]
  simp only [List.append_cancel_left_eq]
  rw [groupsText_inj hreadbalanced hbalanced, List.map_map, List.map_inj_left]
  rfl

/-- Exactly the statements of which nothing is cut off keep their text, in every context in which
they are written. -/
theorem operandText_legible_iff {s : Statement} (hshaped : ∀ n ∈ s.nodes, n.Shaped)
    (hsettled : ∀ n ∈ s.nodes, n.Settled) {spoken : Agent}
    (hspoken : s.subject = .unspec → spoken = .unspec) (limit : Nat) (context : Agent) :
    operandText context (completeIn spoken (s.legible limit)) = operandText context s ↔
      s.Fits limit := by
  induction s generalizing spoken limit context with
  | node head operands text ih =>
    obtain ⟨hshape, hshapes⟩ := forall_nodes_iff.mp hshaped
    obtain ⟨hself, hbelow⟩ := forall_nodes_iff.mp hsettled
    rcases head.topic.cases with hdummy | hbare | ⟨hvoiced, hsimple⟩ | hop
    · -- a statement that says nothing has no text, and it comes back as `Skip`
      rw [legible_of_cut (Or.inl hdummy), operandText_skip, operandText_dummy hself hdummy]
      exact iff_of_false (by decide) (not_fits_dummy hdummy limit)
    · -- nothing of it can be cut off
      obtain ⟨hfull, hsimple⟩ := Topic.ne_of_bare hbare
      rw [operandText_legible_bare hshape hbare, operandText_bare hself hbare]
      exact iff_of_true rfl (fits_leaf hsimple hfull (hshape.operands_eq_nil hsimple) limit)
    · have hfull := Topic.ne_dummy_of_isVoiced hvoiced
      rw [completeIn_legible_simple hshape hself hvoiced hsimple hspoken]
      exact iff_of_true rfl (fits_leaf hsimple hfull (hshape.operands_eq_nil hsimple) limit)
    · cases limit with
      -- at the limit it comes back as `Skip`, which has another text
      | zero =>
        rw [legible_of_cut (Or.inr ⟨hop, rfl⟩), operandText_skip]
        have hne := operandText_compound_ne_skip hshape hself hop context
        exact iff_of_false hne.symm (not_fits_zero hop)
      | succ limit =>
        have hoperand : ∀ operand ∈ operands,
            (operandText head.context (completeIn head.context (operand.legible limit)) =
              operandText head.context operand ↔ operand.Fits limit) := fun operand ho =>
          ih operand ho (hshapes operand ho) (hbelow operand ho) (hself.open_context ho) limit _
        rw [operandText_legible_compound_iff hsettled hop hspoken, fits_succ_iff hop]
        exact forall₂_congr hoperand

/-! ### Statements that can be made -/

/-- What a text compiles to is finished. -/
theorem finish_compileWithin (limit : Nat) (t : Text) :
    finish (compileWithin limit t) = compileWithin limit t :=
  finish_of_settled (forall_settled_compileWithin limit t)

/-- The text of a statement compiles to what is legible of it. -/
theorem compileWithin_text_eq {s : Statement} (hshaped : ∀ n ∈ s.nodes, n.Shaped)
    (hsettled : ∀ n ∈ s.nodes, n.Settled) (limit : Nat) :
    compileWithin limit s.text = (s.legible limit).finish := by
  have hself := hsettled s (mem_nodes_self s)
  have hread := completeIn_compileWithin hshaped hsettled (fun _ => rfl) limit
  rw [operandText_unspec hself] at hread
  -- the outcome is finished already, so finishing it may be written around it
  rw [finish_eq_completeIn, ← hread, ← finish_eq_completeIn, finish_compileWithin]

/-- Exactly the statements of which nothing is cut off have the text of what theirs compiles to. -/
theorem text_compileWithin_text_iff {s : Statement} (hshaped : ∀ n ∈ s.nodes, n.Shaped)
    (hsettled : ∀ n ∈ s.nodes, n.Settled) (limit : Nat) :
    (compileWithin limit s.text).text = s.text ↔ s.Fits limit := by
  have hself := hsettled s (mem_nodes_self s)
  have hread := forall_settled_compileWithin limit s.text _ (mem_nodes_self _)
  -- a text is what is written where nobody is implied
  have hkeep := operandText_legible_iff hshaped hsettled (fun _ => rfl) limit .unspec
  rwa [← finish_eq_completeIn, ← compileWithin_text_eq hshaped hsettled limit,
    operandText_unspec hread, operandText_unspec hself] at hkeep

/-- The round trip, for every statement that can be made and every limit. Its text compiles to the
statement with a `Skip` for whatever says nothing and for every compound statement that is as deep
as the limit or deeper, with bare statements spoken as their context implies, and with anybody for
an open target. The text of the outcome is the same exactly if nothing was cut off. -/
theorem compileWithin_text {s : Statement} (h : s.Reachable) (limit : Nat) :
    compileWithin limit s.text =
        (((s.truncate limit).mapHeads Head.unvoiced).mapHeads Head.aimed).finish ∧
      ((compileWithin limit s.text).text = s.text ↔
        s.nesting ≤ limit ∧ ∀ n ∈ s.nodes, n.topic ≠ .dummy) :=
  ⟨compileWithin_text_eq h.shaped h.settled limit,
    text_compileWithin_text_iff h.shaped h.settled limit⟩

/-- An open vote because of a negation, at one level: the vote is for anybody, and the negation is
cut off, so the text changes. -/
theorem compileWithin_text_because :
    let vote := (Draft.vote .unspec).build
    let negation := (Draft.not Draft.finished.build).build
    let s := ((Draft.because vote negation).spokenBy ⟨1⟩).build
    s.Reachable ∧
      compileWithin 1 s.text =
        ((Draft.because (Draft.vote .any).build Draft.skip.build).spokenBy ⟨1⟩).build ∧
      (compileWithin 1 s.text).text ≠ s.text := by
  intro vote negation s
  have hvote : vote.Reachable := .build (.vote _) fun _ hmem => nomatch hmem
  have hfinished : Draft.finished.build.Reachable := .build .finished fun _ hmem => nomatch hmem
  have hnegation : negation.Reachable := by
    apply Reachable.build (.not _)
    exact List.forall_mem_singleton.mpr hfinished
  have hs : s.Reachable := by
    apply Reachable.build (.spokenBy (.because _ _) _)
    exact List.forall_mem_cons.mpr ⟨hvote, List.forall_mem_singleton.mpr hnegation⟩
  obtain ⟨hequation, hkeep⟩ := compileWithin_text hs 1
  have hdeep : ¬ s.nesting ≤ 1 := by decide
  exact ⟨hs, hequation.trans rfl, fun htext => hdeep (hkeep.mp htext).1⟩

end Parley.Statement
