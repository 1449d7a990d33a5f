import Parley.Proofs.Statement.Equality
import Parley.Proofs.Statement.GrammarText

/-!
# Loose spellings

A statement may be written in many ways. At every node there may be blanks around the text, fields
may be any gap apart, agents and numbers may be spelled differently, a speaker that the context
implies may be written or left out, and anything without brackets may stand between operands. All of
these spellings compile to a statement with the same text.

## Key results

- `LooseSpelling.balanced`: an operand is balanced however it is written
- `LooseRegion.map_groups`: the groups of a region are spellings of the operands, one by one
- `looseSpelling_operandText`: the canonical text is one of the spellings
- `LooseSpelling.outline_completeIn`: in its context, an operand is read back from every spelling
- `compileWithin_looseSpelling`: every spelling of a statement compiles to its text
-/

namespace Parley

/-- The ways to write who speaks, in the context of an agent, and the speaker that is read there:
the speaker in one of its spellings with a gap or none behind it, or nothing if it is implied. -/
inductive Agent.Voice (context : Agent) : (subject speaker : Agent) → Text → Prop where
  | written {subject : Agent} {w gap : Text} (hw : subject.Spelling w)
      (hgap : ∀ c ∈ gap, c ∈ [' ', '\t', '\r', '\n']) : Voice context subject subject (w ++ gap)
  | implied : Voice context context .unspec []

namespace Agent.Voice

variable {context subject speaker : Agent} {t : Text}

/-- What is written for a speaker opens a phrase. -/
theorem opening (h : Voice context subject speaker t) : Phrase.Opening speaker t := by
  cases h with
  | written hw hgap => exact .written hw hgap
  | implied => exact .absent

/-- The speaker that is read is the same once the context has filled it in. -/
theorem orElse_eq (h : Voice context subject speaker t) :
    speaker.orElse context = subject.orElse context := by
  cases h with
  | written => rfl
  | implied => rw [unspec_orElse, orElse_self]

end Agent.Voice

/-- The canonical text of a speaker that is written unless it is implied. -/
theorem Agent.voice_speakerText {a context : Agent} (hcontext : a = .unspec → context = .unspec) :
    Voice context a (a.unlessImplied context) (a.unlessImplied context).speakerText := by
  unfold unlessImplied
  split
  · next h =>
    subst h
    exact .implied
  · next hne =>
    -- an open speaker would be implied, as its context is open
    have hopen : a ≠ .unspec := fun hopen => hne (hopen.trans (hcontext hopen).symm)
    have hspeaker := speakerPrefix_speakerText a
    generalize a.speakerText = t at hspeaker
    cases hspeaker with
    | absent => exact absurd rfl hopen
    | written hw => exact .written hw (by simp)

namespace Statement

mutual

/-- The ways to write a statement in the context of an agent. Brackets that close nothing may stand
in the outermost statement only. -/
inductive LooseSpelling : (outermost : Bool) → (context : Agent) → Statement → Text → Prop where
  /-- A bare statement is a keyword, whoever speaks it. -/
  | bare {outermost : Bool} {context : Agent} {s : Statement} {front back : Text}
      (hform : s.topic.form = .bare) (hfront : ∀ c ∈ front, Text.isBlank c)
      (hback : ∀ c ∈ back, Text.isBlank c) :
      LooseSpelling outermost context s (front ++ Vocabulary.spell s.topic ++ back)
  /-- A simple statement is a speaker and a clause; an open target may be written as anybody. -/
  | simple {outermost : Bool} {context speaker target : Agent} {s : Statement}
      {pattern : Phrase.Pattern} {opening body front back : Text}
      (hvoice : Agent.Voice context s.subject speaker opening)
      (htarget : target = s.target ∨ s.target = .unspec ∧ target = .any)
      (hclause : Phrase.Clause speaker pattern body
        (.simple { s.toHead with subject := speaker, target }))
      (hfront : ∀ c ∈ front, Text.isBlank c) (hback : ∀ c ∈ back, Text.isBlank c) :
      LooseSpelling outermost context s (front ++ (opening ++ body) ++ back)
  /-- A compound statement is a speaker and a clause whose region spells the operands. -/
  | compound {outermost : Bool} {context speaker : Agent} {s : Statement}
      {pattern : Phrase.Pattern} {opening body region front back : Text}
      (hvoice : Agent.Voice context s.subject speaker opening)
      (hclause : Phrase.Clause speaker pattern body
        (.compound { s.toHead with subject := speaker } region))
      (hregion : LooseRegion outermost s.toHead.context s.operands region)
      (hfront : ∀ c ∈ front, Text.isBlank c) (hback : ∀ c ∈ back, Text.isBlank c) :
      LooseSpelling outermost context s (front ++ (opening ++ body) ++ back)

/-- The ways to write operands in a region: each in brackets, with anything between them that opens
no bracket, and closes none unless the region is the outermost one. -/
inductive LooseRegion : (outermost : Bool) → (context : Agent) → List Statement → Text → Prop where
  /-- More brackets may be closed behind the last operand of the outermost region. -/
  | last {outermost : Bool} {context : Agent} {operand : Statement} {t tail : Text}
      (hoperand : LooseSpelling false context operand t) (htail : ∀ c ∈ tail, c = ')')
      (hinner : outermost = false → tail = []) :
      LooseRegion outermost context [operand] ('(' :: t ++ ')' :: tail)
  | more {outermost : Bool} {context : Agent} {operand : Statement} {rest : List Statement}
      {t between region : Text} (hoperand : LooseSpelling false context operand t)
      (hopen : '(' ∉ between) (hinner : outermost = false → ')' ∉ between)
      (hrest : LooseRegion outermost context rest region) :
      LooseRegion outermost context (operand :: rest) ('(' :: t ++ ')' :: (between ++ region))

end

/-! ### Balance -/

/-- A region of balanced operands is balanced, unless it is the outermost one. -/
private theorem LooseRegion.balanced {context : Agent} {operands : List Statement} {region : Text}
    (h : LooseRegion false context operands region)
    (hoperands : ∀ o ∈ operands, ∀ t, LooseSpelling false context o t → t.Balanced) :
    region.Balanced := by
  -- induction on the operands: each is balanced in its brackets, and so is what stands behind it
  induction operands generalizing region with
  | nil => cases h
  | cons operand rest ih =>
    obtain ⟨hfirst, hothers⟩ := List.forall_mem_cons.mp hoperands
    cases h with
    | @last _ _ _ t _ hoperand _ hinner =>
      rw [hinner rfl]
      exact (hfirst t hoperand).enclose
    | @more _ _ _ _ t between region hoperand hopen hinner hrest =>
      have hbetween : Text.Unbracketed between := ⟨hopen, hinner rfl⟩
      have hsplit : '(' :: t ++ ')' :: (between ++ region) =
          ('(' :: t ++ [')']) ++ (between ++ region) := by simp
      rw [hsplit]
      exact (hfirst t hoperand).enclose.append (hbetween.balanced.append (ih hrest hothers))

/-- A text of the grammar is balanced if its region is, and blanks around it make no difference. -/
private theorem balanced_surround {pattern : Phrase.Pattern} {t front back : Text} {p : Phrase}
    (h : Phrase.Grammar pattern t p) (hregion : p.region.Balanced)
    (hfront : ∀ c ∈ front, Text.isBlank c) (hback : ∀ c ∈ back, Text.isBlank c) :
    Text.Balanced (front ++ t ++ back) := by
  obtain ⟨fields, hfields, rfl⟩ := h.exists_front
  -- blanks have no brackets
  have hblank : ∀ {b : Text}, (∀ c ∈ b, Text.isBlank c) → b.Balanced := fun hb =>
    (Text.unbracketed_of_blank hb).balanced
  exact ((hblank hfront).append (hfields.balanced.append hregion)).append (hblank hback)

/-- However an operand is written, it is balanced. -/
theorem LooseSpelling.balanced {context : Agent} {s : Statement} {t : Text}
    (h : LooseSpelling false context s t) : t.Balanced := by
  -- induction on the statement, since a region is balanced if its operands are
  induction s generalizing context t with
  | node head operands text ih =>
    cases h with
    | bare hform hfront hback =>
      have hgrammar : Phrase.Grammar .bare (Vocabulary.spell head.topic) _ :=
        .bare (Phrase.keyword_spell (by decide) hform)
      exact balanced_surround hgrammar Text.balanced_nil hfront hback
    | simple hvoice _ hclause hfront hback =>
      exact balanced_surround (.sentence hvoice.opening hclause) Text.balanced_nil hfront hback
    | compound hvoice hclause hregion hfront hback =>
      have hbalanced := hregion.balanced fun o ho t ht => ih o ho ht
      exact balanced_surround (.sentence hvoice.opening hclause) hbalanced hfront hback

/-! ### Groups -/

/-- The groups of a region are spellings of the operands, so what two functions make of an operand
and of its spellings, they make of all of them. -/
theorem LooseRegion.map_groups {α : Type} {f : Text → α} {g : Statement → α} {outermost : Bool}
    {context : Agent} {operands : List Statement} {region : Text}
    (h : LooseRegion outermost context operands region)
    (heq : ∀ o ∈ operands, ∀ t, LooseSpelling false context o t → f t = g o) :
    (Text.groups region).map f = operands.map g := by
  induction operands generalizing region with
  | nil => cases h
  | cons operand rest ih =>
    obtain ⟨hfirst, hothers⟩ := List.forall_mem_cons.mp heq
    cases h with
    | @last _ _ _ t tail hoperand htail _ =>
      -- brackets that close nothing are passed over
      have hopen : '(' ∉ tail := fun hmem => absurd (htail _ hmem) (by decide)
      rw [Text.groups_enclosed hoperand.balanced, Text.groups_of_not_mem hopen, List.map_cons,
        List.map_cons, hfirst t hoperand]
      rfl
    | @more _ _ _ _ t between region hoperand hopen _ hrest =>
      -- what stands between opens no bracket, so it is passed over too
      rw [Text.groups_enclosed hoperand.balanced, Text.groups_append_of_not_mem hopen,
        List.map_cons, List.map_cons, hfirst t hoperand, ih hrest hothers]

/-! ### The canonical text as a spelling -/

/-- A region of operands begins and ends with a bracket. -/
theorem LooseRegion.isRegion {outermost : Bool} {context : Agent} {operands : List Statement}
    {region : Text} (h : LooseRegion outermost context operands region) :
    Phrase.IsRegion region := by
  induction operands generalizing region with
  | nil => cases h
  | cons operand rest ih =>
    cases h with
    | @last _ _ _ t tail _ htail _ =>
      -- closing brackets may follow, but nothing else
      have hlast : (')' :: tail).getLast? = some ')' := by
        rw [List.getLast?_cons]
        cases htail' : tail.getLast? with
        | none => rfl
        | some c => rw [htail c (List.mem_of_getLast? htail'), Option.getD_some]
      refine ⟨rfl, ?_⟩
      rw [List.getLast?_append, hlast]
      rfl
    | @more _ _ _ _ t between region _ _ _ hrest =>
      have hsplit : '(' :: t ++ ')' :: (between ++ region) =
          ('(' :: t ++ ')' :: between) ++ region := by simp
      refine ⟨rfl, ?_⟩
      rw [hsplit, List.getLast?_append, (ih hrest).2]
      rfl

/-- Operands as they are written in canonical texts make up a region. -/
private theorem exists_looseRegion (outermost : Bool) {context : Agent} {operands : List Statement}
    (hne : operands ≠ [])
    (h : ∀ o ∈ operands, LooseSpelling false context o (operandText context o)) :
    ∃ region, LooseRegion outermost context operands region ∧
      groupsText (operands.map (operandText context)) = field region := by
  induction operands with
  | nil => exact absurd rfl hne
  | cons operand rest ih =>
    obtain ⟨hfirst, hothers⟩ := List.forall_mem_cons.mp h
    cases rest with
    | nil =>
      refine ⟨_, .last hfirst (by simp) fun _ => rfl, ?_⟩
      simp [groupsText, field]
    | cons next rest =>
      obtain ⟨region, hregion, htext⟩ := ih (by simp) hothers
      -- canonical operands have one space between them
      have hspace : '(' ∉ [' '] ∧ ')' ∉ [' '] := by decide
      refine ⟨_, .more hfirst hspace.1 (fun _ => hspace.2) hregion, ?_⟩
      simp [groupsText, field] at htext ⊢
      exact htext

/-- A statement that says something everywhere is spelled by its canonical text. -/
theorem looseSpelling_operandText {s : Statement} (hshaped : ∀ n ∈ s.nodes, n.Shaped)
    (hsettled : ∀ n ∈ s.nodes, n.Settled) (hfull : ∀ n ∈ s.nodes, n.topic ≠ .dummy)
    {context : Agent} (hcontext : s.subject = .unspec → context = .unspec) (outermost : Bool) :
    LooseSpelling outermost context s (operandText context s) := by
  induction s generalizing context outermost with
  | node head operands text ih =>
    obtain ⟨hshape, hshapes⟩ := forall_nodes_iff.mp hshaped
    obtain ⟨hself, hbelow⟩ := forall_nodes_iff.mp hsettled
    obtain ⟨hfull, hfulls⟩ := forall_nodes_iff.mp hfull
    -- the speaker is written unless implied, which is one of the ways
    have hvoice := Agent.voice_speakerText hcontext
    have hblank : ∀ c ∈ ([] : Text), Text.isBlank c := by simp
    rcases head.topic.cases with hdummy | hbare | ⟨hvoiced, hsimple⟩ | hop
    · exact absurd hdummy hfull
    · rw [operandText_bare hself hbare]
      have hspelling : LooseSpelling outermost context ⟨head, operands, text⟩
          ([] ++ Vocabulary.spell head.topic ++ []) := .bare hbare hblank hblank
      simpa using hspelling
    · obtain ⟨pattern, hclause⟩ := Phrase.clause_fieldsText hshape.toWellFormed hvoiced hsimple
        (head.subject.unlessImplied context)
      rw [operandText_voiced hself hvoiced, sentence_simple hsimple]
      -- an open target is written as anybody
      have htarget : head.aimed.target = head.target ∨
          head.target = .unspec ∧ head.aimed.target = .any := by
        unfold Head.aimed Agent.orElse
        split
        · split
          · next hopen => exact Or.inr ⟨hopen, rfl⟩
          · exact Or.inl rfl
        · exact Or.inl rfl
      have hspelling : LooseSpelling outermost context ⟨head, operands, text⟩
          ([] ++ (_ ++ _) ++ []) := .simple hvoice htarget hclause hblank hblank
      simpa using hspelling
    · have hoperands : ∀ o ∈ operands,
          LooseSpelling false head.context o (operandText head.context o) := fun o ho =>
        ih o ho (hshapes o ho) (hbelow o ho) (hfulls o ho) (hself.open_context ho) false
      obtain ⟨region, hregion, htext⟩ :=
        exists_looseRegion outermost (hshape.operands_ne_nil hop) hoperands
      obtain ⟨pattern, hclause⟩ := Phrase.clause_arguments
        (Phrase.arguments_argumentText hshape.toWellFormed hop hself.addressee
          (head.subject.unlessImplied context)) hregion.isRegion
      rw [operandText_compound hself hop, htext]
      have hspelling : LooseSpelling outermost context ⟨head, operands, text⟩
          ([] ++ (_ ++ _) ++ []) := .compound hvoice hclause hregion hblank hblank
      simpa using hspelling

/-! ### Reading a spelling -/

/-- The visible part of a head does not show how an open target is written. -/
private theorem visible_withTarget {head : Head} (hwf : head.WellFormed)
    (hsimple : head.topic ≠ .operator) {target : Agent}
    (htarget : target = head.target ∨ head.target = .unspec ∧ target = .any) :
    ({ head with target } : Head).visible = head.visible := by
  rcases htarget with rfl | ⟨hopen, rfl⟩
  · rfl
  · cases hform : head.topic.form.hasTarget with
    | true => simp [Head.visible, Head.aimed, hform, hopen]
    | false =>
      -- the form has no target, so it cannot be open
      have hany := hwf.target_unused hform (by rw [hwf.operator_eq_nop hsimple]; rfl)
      rw [hany] at hopen
      exact absurd hopen (by decide)

/-- However an operand is written, it is read back from it once the context has filled in the
speakers. -/
theorem LooseSpelling.outline_completeIn {outermost : Bool} {context : Agent} {s : Statement}
    {t : Text} (h : LooseSpelling outermost context s t) (hshaped : ∀ n ∈ s.nodes, n.Shaped)
    (hsettled : ∀ n ∈ s.nodes, n.Settled) (hcontext : s.subject = .unspec → context = .unspec)
    {limit : Nat} (hfits : s.Fits limit) :
    (completeIn context (compileWithin limit t)).outline = s.outline := by
  -- an operand is inside, in the context of its operator, with one level less
  induction s generalizing outermost context t limit with
  | node head operands text ih =>
    obtain ⟨hshape, hshapes⟩ := forall_nodes_iff.mp hshaped
    obtain ⟨hself, hbelow⟩ := forall_nodes_iff.mp hsettled
    cases h with
    | bare hform hfront hback =>
      have hgrammar : Phrase.Grammar .bare (Vocabulary.spell head.topic) _ :=
        .bare (Phrase.keyword_spell (by decide) hform)
      have hvoiced : head.topic.form.isVoiced = false := by
        rw [hform]
        rfl
      have hnil : operands = [] := hshape.operands_eq_nil (Topic.ne_of_bare hform).2
      have hunvoiced := Head.visible_unvoiced hshape.toWellFormed hvoiced
      -- whoever speaks the keyword, nothing of the speaker is visible
      have hbare : ∀ a : Agent, (({ topic := head.topic } : Head).spokenBy a).visible =
          { topic := head.topic } := fun a =>
        Head.visible_unvoiced ((Head.wellFormed_bare (Or.inl hform) .unspec).spokenBy a) hvoiced
      rw [compileWithin_simple (hgrammar.ofText?_trim hfront hback), assemble, completeIn_finish,
        completeIn, outline_complete, hbare, outline, hunvoiced, hnil]
      rfl
    | @simple _ _ speaker target _ _ _ _ _ _ hvoice htarget hclause hfront hback =>
      have hgrammar := Phrase.Grammar.sentence hvoice.opening hclause
      have hsimple : head.topic ≠ .operator := hgrammar.wellFormed.2.1
      have hnil : operands = [] := hshape.operands_eq_nil hsimple
      -- a simple statement addresses nobody
      have haddressee : head.operator.addressesTarget = true → target ≠ .unspec := by
        rw [hshape.operator_eq_nop hsimple]
        intro haddress
        exact absurd haddress (by decide)
      rw [compileWithin_simple (hgrammar.ofText?_trim hfront hback)]
      calc (completeIn context
              (assemble { head with subject := speaker, target } [])).outline
          = (completeIn context ⟨{ head with target }, [], text⟩).outline :=
            congrArg outline (@completeIn_assemble_of_orElse_eq { head with target } speaker
              context hvoice.orElse_eq [] text)
        _ = outline ⟨head, operands, text⟩ := by
            rw [@completeIn_settled { head with target } context haddressee hcontext, hnil]
            exact outline_eq_iff.mpr
              ⟨visible_withTarget hshape.toWellFormed hsimple htarget, rfl⟩
    | @compound _ _ speaker _ _ _ _ region _ _ hvoice hclause hregion hfront hback =>
      have hgrammar := Phrase.Grammar.sentence hvoice.opening hclause
      have hop : head.topic = .operator := hgrammar.wellFormed.2
      cases limit with
      | zero => exact absurd hfits (not_fits_zero hop)
      | succ limit =>
        have hfits := (fits_succ_iff hop).mp hfits
        have hoperands : (Text.groups region).map
              (fun t => (completeIn head.context (compileWithin limit t)).outline) =
            operands.map outline := by
          apply hregion.map_groups
          intro o ho t ht
          exact ih o ho ht (hshapes o ho) (hbelow o ho) (hself.open_context ho) (hfits o ho)
        have haccepts : head.operator.arity.accepts (Text.groups region).length := by
          -- there are as many groups as operands
          have hlength : (Text.groups region).length = operands.length := by
            simpa using congrArg List.length hoperands
          rw [hlength]
          exact hshape.arity
        rw [compileWithin_compound (hgrammar.ofText?_trim hfront hback) haccepts,
          @completeIn_assemble_of_orElse_eq head speaker context hvoice.orElse_eq _ text,
          completeIn_settled hself.addressee hcontext]
        refine outline_eq_iff.mpr ⟨rfl, ?_⟩
        rw [← hoperands, List.map_map, List.map_map]
        rfl

/-- Every spelling of a statement compiles to the text of the statement, if no limit is in the
way: whatever blanks and gaps there are, however agents and numbers are spelled, whether speakers
that are implied are written or not, and whatever stands between the operands. -/
theorem compileWithin_looseSpelling {s : Statement} (h : s.Reachable) {limit : Nat}
    (hfits : s.Fits limit) {t : Text} (ht : LooseSpelling true .unspec s t) :
    (compileWithin limit t).text = s.text := by
  have houtline := ht.outline_completeIn h.shaped h.settled (fun _ => rfl) hfits
  rw [← finish_eq_completeIn, finish_compileWithin] at houtline
  exact (text_eq_iff_outline_eq (.compileWithin limit t) h).mpr houtline

/-- A vote and an `Over` in odd spellings, with a bracket too many between them and two behind
them: the speaker of the vote is left out, as the statement around it implies the same one. -/
theorem compileWithin_looseSpelling_because :
    let vote := ((Draft.vote .any).spokenBy ⟨1⟩).build
    let s := ((Draft.because vote Draft.finished.build).spokenBy ⟨1⟩).build
    let t : Text := "\u3000Agent[001]BECAUSE\t(VOTE Agent[255] ) so) ( Over)))".toList
    s.Reachable ∧ s.Fits 1 ∧ LooseSpelling true .unspec s t ∧
      (compileWithin 1 t).text = s.text := by
  intro vote s t
  have hmade : s.Reachable := by
    apply Reachable.build (.spokenBy (.because _ _) _)
    exact List.forall_mem_cons.mpr ⟨.build_leaf (.spokenBy (.vote _) _) rfl,
      List.forall_mem_singleton.mpr (.build_leaf .finished rfl)⟩
  have hfits : s.Fits 1 := by
    apply (fits_succ_iff rfl).mpr
    exact List.forall_mem_cons.mpr ⟨fits_leaf (by decide) (by decide) rfl 0,
      List.forall_mem_singleton.mpr (fits_leaf (by decide) (by decide) rfl 0)⟩
  have hagent : (⟨1⟩ : Agent).Spelling ("Agent[".toList ++ "001".toList ++ "]".toList) :=
    .index (by decide) (List.all_eq_true.mp rfl) rfl
  have hany : Agent.any.Spelling ("Agent[".toList ++ "255".toList ++ "]".toList) :=
    .index (by decide) (List.all_eq_true.mp rfl) rfl
  have hempty : ∀ c ∈ ([] : Text), Text.isBlank c := by simp
  have hspace : ∀ c ∈ [' '], Text.isBlank c := by simp [Text.isBlank]
  have hwide : ∀ c ∈ ['\u3000'], Text.isBlank c := by simp [Text.isBlank]
  have hvote : LooseSpelling false ⟨1⟩ (complete ⟨1⟩ vote)
      ([] ++ ([] ++ ("VOTE".toList ++ " Agent[255]".toList)) ++ [' ']) :=
    .simple .implied (Or.inl rfl)
      (.action (Phrase.keyword_spell (by decide) rfl) ⟨[' '], _, Text.isGap_space, hany, rfl⟩)
      hempty hspace
  have hover : LooseSpelling false ⟨1⟩ (complete ⟨1⟩ Draft.finished.build)
      ([' '] ++ Vocabulary.spell Topic.finished ++ []) := .bare rfl hspace hempty
  have hregion : LooseRegion true ⟨1⟩ s.operands
      ('(' :: _ ++ ')' :: (" so) ".toList ++ ('(' :: _ ++ ')' :: "))".toList))) :=
    .more hvote (by decide) (by simp) (.last hover (by simp) (by simp))
  have hkeyword : Phrase.Keyword Phrase.connectives .because "BECAUSE".toList :=
    ⟨"BECAUSE", by decide, rfl⟩
  have hgap : Text.IsGap ['\t'] := ⟨by decide, by simp⟩
  have hvoice : Agent.Voice .unspec ⟨1⟩ ⟨1⟩ (_ ++ []) := .written hagent (List.forall_mem_nil _)
  have hspelling : LooseSpelling true .unspec s t := by
    have h : LooseSpelling true .unspec s _ :=
      .compound hvoice (.connective hkeyword hgap hregion.isRegion) hregion hwide hempty
    -- the parts that are spelled make up the text
    refine Eq.mp (congrArg (LooseSpelling true .unspec s) ?_) h
    decide +kernel
  exact ⟨hmade, hfits, hspelling, compileWithin_looseSpelling hmade hfits hspelling⟩

end Statement

end Parley
