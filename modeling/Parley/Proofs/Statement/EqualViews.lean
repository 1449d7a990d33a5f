import Parley.Proofs.Statement.Stability
import Parley.Statement.View

/-!
# Views of equal statements

Equality looks at texts, and a text does not tell whether a simple statement is aimed at anybody or
at nobody in particular. The view does tell, so statements that compile to the same text may have
different views. This is the only thing that views of one text can differ in.

## Key results

- `View.ofStatement_mapHeads_aimed`: open targets may be filled in before or after a view is taken
- `Statement.compileWithin_beq_iff_view`: equal compiled statements have one view, but for open
  targets
- `Statement.compileWithin_view_ne`: open targets cannot be left out of this
-/

namespace Parley

namespace View

mutual

/-- The view with every open target of a simple statement read as anybody, at every level. -/
def aimed : View → View
  | ⟨topic, operator, subject, target, role, result, day, utterance, operands, text⟩ => {
      topic, operator, subject
      target := if topic.form.hasTarget then target.map (Agent.orElse · .any) else target
      role, result, day, utterance
      operands := aimedAll operands
      text }

/-- The views of operands with their open targets read as anybody. -/
def aimedAll : List View → List View
  | [] => []
  | v :: rest => aimed v :: aimedAll rest

end

/-- The views of the operands are changed one by one. -/
theorem aimedAll_eq_map (views : List View) : aimedAll views = views.map aimed := by
  induction views with
  | nil => rfl
  | cons v rest ih => rw [aimedAll, ih, List.map_cons]

/-- The text is kept when targets are filled in. -/
theorem text_aimed (v : View) : v.aimed.text = v.text := by
  cases v
  rw [aimed]

/-- A view shows the text of its statement. -/
theorem text_ofStatement (s : Statement) : (ofStatement s).text = s.text := by
  cases s
  rw [ofStatement]

/-- It makes no difference whether open targets are filled in before or after a view is taken. -/
theorem ofStatement_mapHeads_aimed (s : Statement) :
    ofStatement (s.mapHeads Head.aimed) = (ofStatement s).aimed := by
  induction s with
  | node head operands text ih =>
    -- the passes over the operands are one each, in either order
    have hoperands : ofStatements (Statement.mapHeadsAll Head.aimed operands) =
        aimedAll (ofStatements operands) := by
      rw [Statement.mapHeadsAll_eq_map, ofStatements_eq_map, ofStatements_eq_map, aimedAll_eq_map,
        List.map_map, List.map_map]
      exact List.map_congr_left ih
    rw [Statement.mapHeads, ofStatement, ofStatement, aimed, hoperands]
    -- heads differ in the target only, and a topic that has one shows it
    by_cases htarget : head.topic.form.hasTarget
    · simp [Head.aimed, htarget]
    · simp [Head.aimed, htarget]

end View

namespace Statement

/-- Compiled statements are equal exactly if their views are the same in every member at every
level, once an open target of a simple statement is read as anybody. -/
theorem compileWithin_beq_iff_view (limit : Nat) (s t : Text) :
    compileWithin limit s == compileWithin limit t ↔
      (View.ofStatement (compileWithin limit s)).aimed =
        (View.ofStatement (compileWithin limit t)).aimed := by
  constructor
  · intro h
    -- both trees are read back from their common text, but for the open targets
    have hs := (compileWithin_stable limit s).1
    have ht := (compileWithin_stable limit t).1
    rw [beq_iff_text_eq.mp h] at hs
    rw [← View.ofStatement_mapHeads_aimed, ← View.ofStatement_mapHeads_aimed, ← hs, ← ht]
  · intro h
    -- the view shows the text, which decides on equality
    have htext := congrArg View.text h
    rwa [View.text_aimed, View.text_aimed, View.text_ofStatement, View.text_ofStatement,
      ← beq_iff_text_eq] at htext

/-- A vote against nobody in particular compiles to the text of a vote against anybody, but its view
shows whom the text does not tell from anybody. -/
theorem compileWithin_view_ne :
    ¬ ∀ (limit : Nat) (s t : Text), compileWithin limit s == compileWithin limit t →
      View.ofStatement (compileWithin limit s) = View.ofStatement (compileWithin limit t) := by
  intro h
  have hequal : compileWithin 0 "VOTE Agent[00]".toList == compileWithin 0 "VOTE ANY".toList := by
    decide +kernel
  -- one shows nobody in particular, the other anybody
  have htarget := congrArg View.target (h 0 _ _ hequal)
  have hne : (View.ofStatement (compileWithin 0 "VOTE Agent[00]".toList)).target ≠
      (View.ofStatement (compileWithin 0 "VOTE ANY".toList)).target := by
    decide +kernel
  exact hne htarget

end Statement

end Parley
