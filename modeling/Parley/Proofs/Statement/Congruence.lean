import Parley.Proofs.Statement.Construction
import Parley.Proofs.Statement.Equality

/-!
# Equality in contexts

What a text hides never shows again. Whoever is made to speak two equal statements, and whatever
operators and further operands are put around them, the outcomes are equal again.

## Key results

- `outline_complete_outline`: the outline of a completion depends on the outline only
- `outline_complete_congr`: statements with the same outline are completed to the same outline
- `Reachable.congruence`: equality is preserved by every surrounding
-/

namespace Parley

namespace Head

/-- A speaker does not show in a statement without a voice. -/
private theorem visible_spokenBy_unvoiced {head : Head} (hnop : head.operator = .nop)
    (hvoiced : head.topic.form.isVoiced = false) (first second : Agent) :
    (head.spokenBy first).visible = (head.spokenBy second).visible := by
  simp [visible, aimed, spokenBy, hnop, Operator.addressesTarget, hvoiced]

/-- Giving a speaker to a head and giving it to the visible part of the head look the same. -/
private theorem visible_spokenBy_visible {head : Head} (hwf : head.WellFormed)
    (subject : Agent) :
    (head.visible.spokenBy subject).visible = (head.spokenBy subject).visible := by
  by_cases hop : head.topic = .operator
  · rw [visible_compound hop]
  · -- a simple statement addresses nobody, so the speaker is all that it is given
    have hnop := hwf.operator_eq_nop hop
    cases hvoiced : head.topic.form.isVoiced <;> cases htarget : head.topic.form.hasTarget <;>
      simp [visible, aimed, spokenBy, hnop, Operator.addressesTarget, hvoiced, htarget,
        Agent.orElse_assoc]

end Head

namespace Statement

/-! ### Outlines of completions -/

/-- Whoever speaks a statement without a voice, its outline is the same. -/
private theorem outline_complete_unvoiced {s : Statement} (hshaped : s.Shaped)
    (hvoiced : s.topic.form.isVoiced = false) (first second : Agent) :
    outline (complete first s) = outline (complete second s) := by
  have hsimple : s.topic ≠ .operator := by
    intro hop
    rw [hop] at hvoiced
    exact nomatch hvoiced
  rw [outline_complete, outline_complete, hshaped.operands_eq_nil hsimple,
    Head.visible_spokenBy_unvoiced (hshaped.operator_eq_nop hsimple) hvoiced first second]
  rfl

/-- The outline of a completion depends on the outline only. -/
theorem outline_complete_outline {s : Statement} (hshaped : ∀ n ∈ s.nodes, n.Shaped)
    (subject : Agent) : outline (complete subject s.outline) = outline (complete subject s) := by
  -- the operands are completed in the context of the head, hence with any agent
  induction s generalizing subject with
  | node head operands text ih =>
    obtain ⟨hshape, hshapes⟩ := forall_nodes_iff.mp hshaped
    rw [outline_complete, outline_complete, toHead_outline, operands_outline,
      Head.visible_spokenBy_visible hshape.toWellFormed]
    by_cases hop : head.topic = .operator
    · -- the head of an operator is visible, so it makes the same context
      have hhead : head.visible = head := Head.visible_compound hop
      rw [hhead, List.map_map]
      congr 1
      apply List.map_congr_left
      intro operand ho
      -- an operand that has a voice gets the same speaker, and for any other it does not matter
      show outline (complete _ operand.outline) = outline (complete _ operand)
      rw [ih operand ho (hshapes operand ho), toHead_outline]
      cases hvoiced : operand.topic.form.isVoiced with
      | true =>
        rw [Head.visible_of_voiced hvoiced]
        rfl
      | false =>
        have hoperand := hshapes operand ho operand (mem_nodes_self _)
        exact outline_complete_unvoiced hoperand hvoiced _ _
    · have hnil : operands = [] := hshape.operands_eq_nil hop
      rw [hnil]
      rfl

/-- Statements with the same outline are completed to the same outline. -/
theorem outline_complete_congr {a b : Statement} (ha : ∀ n ∈ a.nodes, n.Shaped)
    (hb : ∀ n ∈ b.nodes, n.Shaped) (h : a.outline = b.outline) (subject : Agent) :
    outline (complete subject a) = outline (complete subject b) := by
  -- the outline that the two have in common is completed in place of either
  rw [← outline_complete_outline ha, h, outline_complete_outline hb]

/-- Drafts with the same head, over operands with the same outlines, make statements with the same
outline. -/
private theorem outline_build_congr {first second : Draft} (hfirst : first.Made)
    (hsecond : second.Made) (hhead : first.toHead = second.toHead)
    (hreachable : ∀ operand ∈ first.operands ++ second.operands, operand.Reachable)
    (h : first.operands.map outline = second.operands.map outline) :
    first.build.outline = second.build.outline := by
  -- a draft counts as a statement that has no text yet
  have hshaped : ∀ draft : Draft, draft.Made → (∀ operand ∈ draft.operands, operand.Reachable) →
      ∀ n ∈ (⟨draft.toHead, draft.operands, []⟩ : Statement).nodes, n.Shaped := by
    intro draft hmade hoperands
    exact forall_nodes_iff.mpr ⟨hmade.shaped [], fun o ho => (hoperands o ho).shaped⟩
  have houtline : outline ⟨first.toHead, first.operands, []⟩ =
      outline ⟨second.toHead, second.operands, []⟩ :=
    outline_eq_iff.mpr ⟨congrArg Head.visible hhead, h⟩
  have hsubject : first.subject = second.subject := by rw [hhead]
  have hcomplete := outline_complete_congr
    (hshaped first hfirst fun o ho => hreachable o (List.mem_append_left _ ho))
    (hshaped second hsecond fun o ho => hreachable o (List.mem_append_right _ ho))
    houtline first.subject
  -- building completes that statement with its own speaker
  rw [Draft.build, Draft.build, assemble, assemble, finish, finish]
  rwa [← hsubject]

end Statement

/-! ### Surroundings -/

/-- What a constructor begins can be made. -/
theorem Connective.made_of_draft? {c : Connective} {operands : List Statement} {draft : Draft}
    (h : c.draft? operands = some draft) : draft.Made := by
  unfold draft? at h
  -- one case for each constructor, and one for the wrong number of operands
  split at h
  · -- this constructor checks the number of operands itself
    cases hand : Draft.and operands with
    | error _ => rw [hand] at h; exact nomatch h
    | ok _ => rw [hand] at h; cases h; exact .and hand
  · cases hor : Draft.or operands with
    | error _ => rw [hor] at h; exact nomatch h
    | ok _ => rw [hor] at h; cases h; exact .or hor
  · cases h; exact .xor _ _
  · cases h; exact .because _ _
  · cases h; exact .not _
  · cases h; exact .onDay _ _
  · cases h; exact .request _ _
  · cases h; exact .inquire _ _
  · exact nomatch h

/-- What can be put around a statement. -/
inductive Layer where
  /-- The statement is put into the mouth of an agent. -/
  | spoken (subject : Agent)
  /-- An agent joins the statement with other operands, which stand before it and after it. -/
  | joined (c : Connective) (subject : Agent) (before after : List Statement)

namespace Layer

/-- The statement with the layer around it, unless the operator takes another number of operands. -/
def around? : Layer → Statement → Option Statement
  | spoken subject, s => some (s.spokenBy subject)
  | joined c subject before after, s =>
    (c.draft? (before ++ s :: after)).map fun draft => (draft.spokenBy subject).build

/-- The layer leaves one operand open, and its other operands are statements that can be made. -/
def Proper : Layer → Prop
  | spoken _ => True
  | joined c _ before after =>
    c.operator.arity.accepts (before.length + 1 + after.length) ∧
      ∀ operand ∈ before ++ after, operand.Reachable

end Layer

namespace Statement

/-- The statement with layers around it, from the innermost to the outermost. -/
def surround? : List Layer → Statement → Option Statement
  | [], s => some s
  | layer :: outer, s => (layer.around? s).bind (surround? outer)

/-- One layer around two statements with the same outline makes two statements with the same
outline. -/
private theorem around?_congr {layer : Layer} (hlayer : layer.Proper) {a b : Statement}
    (ha : a.Reachable) (hb : b.Reachable) (h : a.outline = b.outline) :
    ∃ s t, layer.around? a = some s ∧ layer.around? b = some t ∧ s.Reachable ∧ t.Reachable ∧
      s.outline = t.outline := by
  -- a layer completes the statement with another speaker or builds a new one over it
  cases layer with
  | spoken subject =>
    exact ⟨_, _, rfl, rfl, ha.spokenBy subject, hb.spokenBy subject,
      outline_complete_congr ha.shaped hb.shaped h subject⟩
  | joined c subject before after =>
    obtain ⟨harity, hothers⟩ := hlayer
    have hoperands : ∀ s : Statement, s.Reachable →
        ∀ operand ∈ before ++ s :: after, operand.Reachable := by
      intro s hs
      obtain ⟨hbefore, hafter⟩ := List.forall_mem_append.mp hothers
      exact List.forall_mem_append.mpr ⟨hbefore, List.forall_mem_cons.mpr ⟨hs, hafter⟩⟩
    -- the arity accepts either list, since only one operand differs
    have hdraft : ∀ s : Statement, c.draft? (before ++ s :: after) =
        some { toHead := c.headFor .unspec, operands := before ++ s :: after } := by
      intro s
      apply c.draft?_eq_some
      rwa [List.length_append, List.length_cons, ← Nat.add_assoc, Nat.add_right_comm]
    have hmade := fun s => (c.made_of_draft? (hdraft s)).spokenBy subject
    refine ⟨_, _, by rw [Layer.around?, hdraft]; rfl, by rw [Layer.around?, hdraft]; rfl,
      .build (hmade a) (hoperands a ha), .build (hmade b) (hoperands b hb), ?_⟩
    refine outline_build_congr (hmade a) (hmade b) rfl ?_ ?_
    · exact List.forall_mem_append.mpr ⟨hoperands a ha, hoperands b hb⟩
    · -- only the open place differs, and there the outlines are the same
      show (before ++ a :: after).map outline = (before ++ b :: after).map outline
      rw [List.map_append, List.map_append, List.map_cons, List.map_cons, h]

/-- Any number of layers around two statements with the same outline makes two statements with the
same outline. -/
private theorem surround?_congr {layers : List Layer} (hlayers : ∀ layer ∈ layers, layer.Proper)
    {a b : Statement} (ha : a.Reachable) (hb : b.Reachable) (h : a.outline = b.outline) :
    ∃ s t, surround? layers a = some s ∧ surround? layers b = some t ∧ s.Reachable ∧
      t.Reachable ∧ s.outline = t.outline := by
  -- each layer makes two new statements, to which the outer ones are applied
  induction layers generalizing a b with
  | nil => exact ⟨a, b, rfl, rfl, ha, hb, h⟩
  | cons layer outer ih =>
    obtain ⟨hlayer, houter⟩ := List.forall_mem_cons.mp hlayers
    obtain ⟨s, t, hs, ht, hsreach, htreach, houtline⟩ := around?_congr hlayer ha hb h
    rw [surround?, surround?, hs, ht]
    exact ih houter hsreach htreach houtline

/-- Equality is a congruence. Equal statements stay equal when the same agent speaks them, when the
same constructor joins them with the same operands at the same place, and within any number of such
layers, one around the other. -/
theorem Reachable.congruence {a b : Statement} (ha : a.Reachable) (hb : b.Reachable)
    (h : a == b) :
    (∀ subject, a.spokenBy subject == b.spokenBy subject) ∧
      (∀ (c : Connective) (subject : Agent) (before after : List Statement),
        c.operator.arity.accepts (before.length + 1 + after.length) →
        (∀ operand ∈ before ++ after, operand.Reachable) →
        ∃ first second, c.draft? (before ++ a :: after) = some first ∧
          c.draft? (before ++ b :: after) = some second ∧
          (first.spokenBy subject).build == (second.spokenBy subject).build) ∧
      ∀ layers : List Layer, (∀ layer ∈ layers, layer.Proper) →
        ∃ s t, surround? layers a = some s ∧ surround? layers b = some t ∧ s == t := by
  -- equality is sameness of outlines, which every layer preserves
  have houtline := (text_eq_iff_outline_eq ha hb).mp (beq_iff_text_eq.mp h)
  have hbeq : ∀ {s t : Statement}, s.Reachable → t.Reachable → s.outline = t.outline → s == t :=
    fun hs ht heq => beq_iff_text_eq.mpr ((text_eq_iff_outline_eq hs ht).mpr heq)
  refine ⟨?_, ?_, ?_⟩
  · intro subject
    exact hbeq (ha.spokenBy subject) (hb.spokenBy subject)
      (outline_complete_congr ha.shaped hb.shaped houtline subject)
  · intro c subject before after harity hothers
    -- joining is a single layer
    obtain ⟨s, t, hs, ht, hsreach, htreach, heq⟩ :=
      @around?_congr (.joined c subject before after) ⟨harity, hothers⟩ a b ha hb houtline
    obtain ⟨first, hfirst, rfl⟩ := Option.map_eq_some_iff.mp hs
    obtain ⟨second, hsecond, rfl⟩ := Option.map_eq_some_iff.mp ht
    exact ⟨first, second, hfirst, hsecond, hbeq hsreach htreach heq⟩
  · intro layers hlayers
    obtain ⟨s, t, hs, ht, hsreach, htreach, heq⟩ := surround?_congr hlayers ha hb houtline
    exact ⟨s, t, hs, ht, hbeq hsreach htreach heq⟩

/-- A vote with an open target and one for anybody stay equal when they are requested, when the
request is given as the second of three options, and when somebody else speaks the options. -/
theorem congruence_vote :
    let layers : List Layer := [.joined (.request ⟨2⟩) .unspec [] [],
      .joined .or ⟨1⟩ [Draft.skip.build] [Draft.empty.build], .spoken ⟨4⟩]
    (Draft.vote .unspec).build == (Draft.vote .any).build ∧
      ∃ s t, surround? layers (Draft.vote .unspec).build = some s ∧
        surround? layers (Draft.vote .any).build = some t ∧ s == t := by
  intro layers
  have hopen : (Draft.vote .unspec).build.Reachable := .build_leaf (.vote _) rfl
  have hany : (Draft.vote .any).build.Reachable := .build_leaf (.vote _) rfl
  have hbeq : (Draft.vote .unspec).build == (Draft.vote .any).build := by decide
  have hlayers : ∀ layer ∈ layers, layer.Proper := by
    have hskip : Draft.skip.build.Reachable := .build_leaf .skip rfl
    have hempty : Draft.empty.build.Reachable := .build_leaf .empty rfl
    refine List.forall_mem_cons.mpr ⟨⟨rfl, fun _ hmem => nomatch hmem⟩, ?_⟩
    refine List.forall_mem_cons.mpr ⟨⟨rfl, ?_⟩, List.forall_mem_singleton.mpr trivial⟩
    exact List.forall_mem_cons.mpr ⟨hskip, List.forall_mem_singleton.mpr hempty⟩
  exact ⟨hbeq, (hopen.congruence hany hbeq).2.2 layers hlayers⟩

end Statement

end Parley
