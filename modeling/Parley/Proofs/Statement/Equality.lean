import Parley.Proofs.Statement.Printing
import Parley.Proofs.Statement.RoundTrip

/-!
# Equality of statements

Statements are equal when their texts are. A text hides two things: who speaks a statement that has
no voice, and whether a target was left open or is anybody. This file proves that it hides nothing
else. The *outline* of a statement is its tree without what its text hides; equal statements are
those with the same outline.

## Key results

- `print_outline`: a statement is printed like its outline
- `heard_operandText`: the visible part of a head is read off the text of an operand
- `outline_eq_of_operandText_eq`: operands that are written alike have the same outline
- `Reachable.beq_iff`: equality of texts is equality of trees, but for what texts hide
-/

namespace Parley

/-- What a head shows in its text. The speaker of a statement without a voice is not written, and an
open target is written as anybody. -/
def Head.visible (head : Head) : Head :=
  { head.aimed with subject := if head.topic.form.isVoiced then head.subject else .unspec }

namespace Head

@[simp] theorem topic_visible (head : Head) : head.visible.topic = head.topic := rfl

/-- Where the speaker is written, the head is hidden in its open target only. -/
theorem visible_of_voiced {head : Head} (h : head.topic.form.isVoiced = true) :
    head.visible = head.aimed := by
  simp [visible, aimed, h]

/-- The head of a compound statement is visible as a whole. -/
theorem visible_compound {head : Head} (hop : head.topic = .operator) : head.visible = head := by
  rw [visible_of_voiced (by rw [hop]; rfl), aimed_eq_self (by rw [hop]; rfl)]

/-- Without a voice, nothing but the topic is visible. -/
theorem visible_unvoiced {head : Head} (hwf : head.WellFormed)
    (h : head.topic.form.isVoiced = false) : head.visible = { topic := head.topic } := by
  rw [hwf.eq_of_unvoiced h]
  simp [visible, aimed, h, Form.hasTarget]

end Head

namespace Statement

mutual

/-- The tree of a statement without its texts and without what they hide. -/
def outline : Statement → Statement
  | ⟨head, operands, _⟩ => ⟨head.visible, outlineAll operands, []⟩

/-- The outlines of operands. -/
def outlineAll : List Statement → List Statement
  | [] => []
  | operand :: rest => outline operand :: outlineAll rest

end

/-- The outlines are taken one by one. -/
theorem outlineAll_eq_map (operands : List Statement) :
    outlineAll operands = operands.map outline := by
  induction operands with
  | nil => rfl
  | cons operand rest ih => rw [outlineAll, ih, List.map_cons]

/-- The head of an outline is what the head shows. -/
theorem toHead_outline (s : Statement) : s.outline.toHead = s.toHead.visible := by
  cases s
  rfl

/-- The operands of an outline are the outlines of the operands. -/
theorem operands_outline (s : Statement) : s.outline.operands = s.operands.map outline := by
  cases s
  rw [outline, outlineAll_eq_map]

/-- Outlines are the same if the visible heads are, and the outlines of the operands. -/
theorem outline_eq_iff {a b : Statement} :
    a.outline = b.outline ↔
      a.toHead.visible = b.toHead.visible ∧ a.operands.map outline = b.operands.map outline := by
  cases a
  cases b
  simp only [outline, outlineAll_eq_map, Statement.mk.injEq, and_true]

/-- The outline of a completion shows the head as it is spoken and the operands as they are
completed in its context. -/
theorem outline_complete (subject : Agent) (s : Statement) :
    outline (complete subject s) =
      ⟨(s.toHead.spokenBy subject).visible,
        s.operands.map fun o => outline (completeIn (s.toHead.spokenBy subject).context o),
        []⟩ := by
  obtain ⟨head, operands, text⟩ := s
  rw [complete, outline, outlineAll_eq_map, completeAll_eq_map, List.map_map]
  rfl

/-! ### Texts show outlines only -/

/-- A statement is printed like its outline. -/
theorem print_outline (context : Agent) (s : Statement) :
    print context s.outline = print context s := by
  induction s generalizing context with
  | node head operands text ih =>
    have hhead := toHead_outline ⟨head, operands, text⟩
    have htopic : (outline ⟨head, operands, text⟩).topic = head.topic := rfl
    -- a form prints nothing of what its outline lacks
    rcases head.topic.cases with hdummy | hbare | ⟨hvoiced, hsimple⟩ | hop
    · rw [print_dummy (htopic.trans hdummy), print_dummy hdummy]
    · rw [print_bare (by rwa [htopic]), print_bare hbare, htopic]
    · have hfields : fieldsText head.visible = fieldsText head := by
        cases hform : head.topic.form <;>
          simp [fieldsText, Head.visible, Head.aimed, hform, Form.hasTarget,
            Agent.targetText_orElse_any]
      have hsubject : head.visible.subject = head.subject := by
        rw [Head.visible_of_voiced hvoiced]
        rfl
      rw [print_simple (by rwa [htopic]) (by rwa [htopic]), print_simple hvoiced hsimple, hhead,
        Head.topic_visible, hfields, hsubject]
    · have hoperands : (operands.map outline).map (print head.context) =
          operands.map (print head.context) := by
        rw [List.map_map]
        exact List.map_congr_left fun operand ho => ih operand ho head.context
      rw [print_compound (htopic.trans hop), print_compound hop, hhead, Head.visible_compound hop,
        operands_outline, hoperands]

/-! ### Outlines are read off texts -/

/-- The head that is heard where a phrase is read in the context of an agent: a speaker that is not
written is the agent implied. What is no phrase is the text of a statement that says nothing. -/
def heard (context : Agent) : Option Phrase → Head
  | none => {}
  | some (.simple head) =>
    if head.topic.form.isVoiced then { head with subject := head.subject.orElse context } else head
  | some (.compound head _) => { head with subject := head.subject.orElse context }
  | some (.bareRequest subject _) =>
    { topic := .operator, operator := .request, subject := subject.orElse context }

/-- The visible part of a head is heard in the text of an operand. -/
theorem heard_operandText {s : Statement} (hshaped : ∀ n ∈ s.nodes, n.Shaped)
    (hsettled : ∀ n ∈ s.nodes, n.Settled) {context : Agent}
    (hcontext : s.subject = .unspec → context = .unspec) :
    heard context (Phrase.ofText? (Text.trim (operandText context s))) = s.toHead.visible := by
  have hshape := hshaped s (mem_nodes_self s)
  have hself := hsettled s (mem_nodes_self s)
  -- form by form, as the text of an operand is read
  rcases s.topic.cases with hdummy | hbare | ⟨hvoiced, hsimple⟩ | hop
  · -- there is no phrase, and nothing is heard
    rw [operandText_dummy hself hdummy,
      Head.visible_unvoiced hshape.toWellFormed (by rw [hdummy]; rfl), hdummy]
    rfl
  · have hvoiced : s.topic.form.isVoiced = false := by
      rw [hbare]
      rfl
    rw [operandText_bare hself hbare, ofText?_spell_bare hbare,
      Head.visible_unvoiced hshape.toWellFormed hvoiced]
    simp [heard, hvoiced]
  · have hvoice : s.toHead.aimed.topic.form.isVoiced = true := hvoiced
    rw [ofText?_operandText_simple hshape hself hvoiced hsimple, heard, if_pos hvoice,
      Agent.orElse_unlessImplied hcontext, Head.visible_of_voiced hvoiced]
    rfl
  · -- the speaker of an operator is written or implied
    obtain ⟨region, -, -, hread⟩ := ofText?_operandText_compound hshape hsettled hop context
    rw [hread, heard, Agent.orElse_unlessImplied hcontext, Head.visible_compound hop]

/-- Operands that are written alike in a context have the same outline. The head is heard in the
text, and the texts of the operands are the groups of the region. -/
theorem outline_eq_of_operandText_eq {a b : Statement} (ha : a.Reachable) (hb : b.Reachable)
    {context : Agent} (hopena : a.subject = .unspec → context = .unspec)
    (hopenb : b.subject = .unspec → context = .unspec)
    (h : operandText context a = operandText context b) : a.outline = b.outline := by
  induction a generalizing b context with
  | node head operands text ih =>
    obtain ⟨head', operands', text'⟩ := b
    have hshape := ha.shaped _ (mem_nodes_self _)
    have hshape' := hb.shaped _ (mem_nodes_self _)
    -- the one text is heard as either head
    have hheard := heard_operandText ha.shaped ha.settled hopena
    rw [h, heard_operandText hb.shaped hb.settled hopenb] at hheard
    have hvisible : head.visible = head'.visible := hheard.symm
    have htopic : head.topic = head'.topic := by
      rw [← head.topic_visible, hvisible, Head.topic_visible]
    refine outline_eq_iff.mpr ⟨hvisible, ?_⟩
    by_cases hop : head.topic = .operator
    · have hhead : head = head' := by
        rwa [Head.visible_compound hop, Head.visible_compound (htopic ▸ hop)] at hvisible
      subst hhead
      -- both texts have the same region, and so the same groups
      obtain ⟨region, hgroups, -, hread⟩ :=
        ofText?_operandText_compound hshape ha.settled hop context
      obtain ⟨region', hgroups', -, hread'⟩ :=
        ofText?_operandText_compound hshape' hb.settled hop context
      have hregion : region = region' := by
        rw [h, hread'] at hread
        exact (Phrase.compound.inj (Option.some.inj hread)).2.symm
      rw [← hregion, hgroups] at hgroups'
      -- position by position, the two operands have the same text
      refine map_eq_of_map_eq ?_ hgroups'
      intro operand ho operand' ho'
      exact ih operand ho (ha.operand ho) (hb.operand ho')
        ((ha.settled _ (mem_nodes_self _)).open_context ho)
        ((hb.settled _ (mem_nodes_self _)).open_context ho')
    · have hnil : operands = [] := hshape.operands_eq_nil hop
      have hnil' : operands' = [] := hshape'.operands_eq_nil (by rwa [← htopic])
      rw [hnil, hnil']

/-- The text of a statement that can be made determines its outline, and the outline its text. -/
theorem text_eq_iff_outline_eq {a b : Statement} (ha : a.Reachable) (hb : b.Reachable) :
    a.text = b.text ↔ a.outline = b.outline := by
  constructor
  · -- its own text is what is written where nobody is implied
    intro h
    apply outline_eq_of_operandText_eq ha hb (fun _ => rfl) (fun _ => rfl)
    rwa [operandText_unspec (ha.settled _ (mem_nodes_self a)),
      operandText_unspec (hb.settled _ (mem_nodes_self b))]
  · intro h
    -- both texts are printed from the one outline
    rw [text_eq_print ha.settled, text_eq_print hb.settled, ← print_outline, h, print_outline]

/-- Statements with the same outline have the same texts throughout. -/
theorem mapHeads_visible_eq_of_outline_eq {a b : Statement} (ha : a.Reachable) (hb : b.Reachable)
    (h : a.outline = b.outline) : a.mapHeads Head.visible = b.mapHeads Head.visible := by
  induction a generalizing b with
  | node head operands text ih =>
    -- the texts of the operands follow in the same way, one level down
    have htext := (text_eq_iff_outline_eq ha hb).mpr h
    obtain ⟨head', operands', text'⟩ := b
    obtain ⟨hvisible, houtlines⟩ := outline_eq_iff.mp h
    have hoperands : operands.map (mapHeads Head.visible) =
        operands'.map (mapHeads Head.visible) := by
      refine map_eq_of_map_eq ?_ houtlines
      exact fun operand ho operand' ho' => ih operand ho (ha.operand ho) (hb.operand ho')
    rw [mapHeads, mapHeads, mapHeadsAll_eq_map, mapHeadsAll_eq_map, Statement.mk.injEq]
    exact ⟨hvisible, hoperands, htext⟩

/-- Equality is faithful. Two statements that can be made are equal exactly if they are the same
tree once the speakers of statements without a voice are ignored and open targets are read as
anybody. It makes no difference whether the texts of the nodes are compared along with the tree. -/
theorem Reachable.beq_iff {a b : Statement} (ha : a.Reachable) (hb : b.Reachable) :
    (a == b ↔ a.outline = b.outline) ∧
      (a == b ↔ a.mapHeads Head.visible = b.mapHeads Head.visible) := by
  have houtline : a == b ↔ a.outline = b.outline := by
    rw [beq_iff_text_eq, text_eq_iff_outline_eq ha hb]
  refine ⟨houtline, ?_⟩
  constructor
  · intro h
    exact mapHeads_visible_eq_of_outline_eq ha hb (houtline.mp h)
  · intro h
    -- the text of the root is kept when heads are changed
    have htext : ∀ s : Statement, (s.mapHeads Head.visible).text = s.text := by
      intro s
      cases s
      rfl
    rw [beq_iff_text_eq, ← htext a, h, htext b]

/-- An open vote because of a `Skip` is equal to a vote for anybody because of a `Skip` in the mouth
of somebody else; it is not equal to one in which somebody else votes. -/
theorem beq_iff_because :
    let hidden := ((Draft.because (Draft.vote .unspec).build Draft.skip.build).spokenBy ⟨1⟩).build
    let shown := ((Draft.because (Draft.vote .any).build
      (Draft.skip.spokenBy ⟨3⟩).build).spokenBy ⟨1⟩).build
    let other := ((Draft.because ((Draft.vote .any).spokenBy ⟨2⟩).build
      Draft.skip.build).spokenBy ⟨1⟩).build
    (hidden.Reachable ∧ shown.Reachable ∧ hidden == shown) ∧
      other.Reachable ∧ ¬ hidden == other := by
  intro hidden shown other
  have hbecause : ∀ {first second : Statement}, first.Reachable → second.Reachable →
      ((Draft.because first second).spokenBy ⟨1⟩).build.Reachable := by
    intro first second hfirst hsecond
    refine .build (.spokenBy (.because _ _) _) ?_
    exact List.forall_mem_cons.mpr ⟨hfirst, List.forall_mem_singleton.mpr hsecond⟩
  have hhidden : hidden.Reachable := hbecause (.build_leaf (.vote _) rfl) (.build_leaf .skip rfl)
  have hshown : shown.Reachable :=
    hbecause (.build_leaf (.vote _) rfl) (.build_leaf (.spokenBy .skip _) rfl)
  have hother : other.Reachable :=
    hbecause (.build_leaf (.spokenBy (.vote _) _) rfl) (.build_leaf .skip rfl)
  refine ⟨⟨hhidden, hshown, (hhidden.beq_iff hshown).1.mpr rfl⟩, hother, ?_⟩
  intro h
  -- the outlines have the same voters
  have houtline := (hhidden.beq_iff hother).1.mp h
  have hvoters := congrArg (fun s => s.operands.map fun operand => operand.subject) houtline
  exact absurd hvoters (by decide)

end Statement

end Parley
