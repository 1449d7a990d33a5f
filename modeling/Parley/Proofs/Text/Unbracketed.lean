import Parley.Proofs.Text.Balance
import Parley.Proofs.Text.Recognition

/-!
# What is written without brackets

Brackets stand in a statement only around its operands. Keywords, agents, numbers and gaps have
none, whatever their spelling.

## Key results

- `IsKeyword.unbracketed`, `Agent.Spelling.unbracketed`, `IntSpelling.unbracketed`: the tokens
- `Apart.unbracketed`: a field has no brackets if the spellings of its value have none
-/

namespace Parley

namespace Text

/-- No bracket is an upper-case letter. -/
theorem IsKeyword.unbracketed {w : Text} (h : w.IsKeyword) : w.Unbracketed :=
  unbracketed_of_forall h.2 (by decide) (by decide)

/-- No bracket is a blank. -/
theorem unbracketed_of_blank {t : Text} (h : ∀ c ∈ t, isBlank c) : t.Unbracketed :=
  unbracketed_of_forall h (by decide) (by decide)

/-- A gap has no brackets. -/
theorem unbracketed_of_gap {gap : Text} (h : ∀ c ∈ gap, c ∈ [' ', '\t', '\r', '\n']) :
    gap.Unbracketed :=
  unbracketed_of_blank fun c hc => isBlank_of_isGap (isGap_iff_mem.mpr (h c hc))

/-- An integer has no brackets, however it is spelled. -/
theorem IntSpelling.unbracketed {n : Int} {w : Text} (h : IntSpelling n w) : w.Unbracketed := by
  -- the digits are the same with a minus sign and without
  have hnumeral : ∀ {ds : Text}, ds.IsNumeral → ds.Unbracketed := fun hds =>
    unbracketed_of_forall hds.2 (by decide) (by decide)
  cases h with
  | plain hds => exact hnumeral hds
  | minus hds => simp [hnumeral hds]

/-- A label without brackets adds none, whether it is written or left out. -/
theorem Labelled.unbracketed {label t : Text} {Spells : Text → Prop} (hlabel : label.Unbracketed)
    (hspells : ∀ {w}, Spells w → w.Unbracketed) (h : Labelled label Spells t) :
    t.Unbracketed := by
  rcases h with h | ⟨w, hw, rfl⟩
  · exact hspells h
  · exact unbracketed_append.mpr ⟨hlabel, hspells hw⟩

/-- The gap in front of a field adds no brackets. -/
theorem Apart.unbracketed {t : Text} {Spells : Text → Prop}
    (hspells : ∀ {w}, Spells w → w.Unbracketed) (h : Apart Spells t) : t.Unbracketed := by
  obtain ⟨gap, w, hgap, hw, rfl⟩ := h
  exact unbracketed_append.mpr ⟨unbracketed_of_gap hgap.2, hspells hw⟩

end Text

/-- The brackets around an index are of another kind than those around operands. -/
theorem Agent.Spelling.unbracketed {a : Agent} {w : Text} (h : a.Spelling w) : w.Unbracketed := by
  cases h with
  | any => simp
  | index hne hdigits hvalue =>
    have hds : Text.Unbracketed _ := Text.unbracketed_of_forall hdigits (by decide) (by decide)
    simpa using hds

end Parley
