import Parley.Proofs.Statement.Tree
import Parley.Proofs.Statement.Invariant

/-!
# Completing a statement twice

An operand is completed when it is made and again whenever it is put under an operator. Completing a
statement first with an open speaker, or with the speaker that it finally gets, changes nothing in
the outcome.

## Key results

- `complete_complete`: only the last completion counts, if the first did not settle another speaker
- `complete_finish`: the same for a statement that is finished by itself
-/

namespace Parley

namespace Agent

/-- The first agent that is not open is taken, wherever one begins to look. -/
theorem orElse_assoc (a b c : Agent) : (a.orElse b).orElse c = a.orElse (b.orElse c) := by
  unfold orElse
  by_cases ha : a = unspec
  · simp [ha]
  · simp [ha]

@[simp] theorem unspec_orElse (a : Agent) : unspec.orElse a = a := rfl

/-- Nothing is filled in where nobody is known. -/
@[simp] theorem orElse_unspec (a : Agent) : a.orElse unspec = a := by
  unfold orElse
  split
  · next h => exact h.symm
  · rfl

/-- A speaker that is not open stays. -/
theorem orElse_of_ne {a : Agent} (h : a ≠ unspec) (b : Agent) : a.orElse b = a := by
  rw [orElse, if_neg h]

/-- Filling in a speaker fills in an open one, and any other stays. -/
theorem eq_unspec_or_eq_orElse (a other : Agent) : a = unspec ∨ a = a.orElse other := by
  by_cases hopen : a = unspec
  · exact Or.inl hopen
  · exact Or.inr (orElse_of_ne hopen other).symm

@[simp] theorem orElse_self (a : Agent) : a.orElse a = a := by
  unfold orElse
  split <;> rfl

end Agent

namespace Statement

/-- A completed statement is spoken by the agent that it was completed with. -/
theorem subject_complete (subject : Agent) (s : Statement) :
    (complete subject s).subject = subject := by
  rw [toHead_complete]
  rfl

/-- When a speaker is filled in or stays, an open context is filled in, and any other stays. -/
theorem context_spokenBy {head : Head} {subject : Agent}
    (h : head.subject = .unspec ∨ head.subject = subject) :
    head.context = .unspec ∨ head.context = (head.spokenBy subject).context := by
  by_cases haddress : head.operator.addressesTarget = true
  · -- the context is the addressee, who is anybody if nobody is named
    by_cases hopen : head.target = .unspec
    · left
      simp [Head.context, haddress, hopen]
    · right
      simp [Head.context, Head.spokenBy, haddress, hopen]
  · simpa [Head.context, haddress] using h

/-- Completing a statement with an open speaker, or with the final one, before it is completed makes
no difference. -/
theorem complete_complete (s : Statement) {first second : Agent}
    (h : first = .unspec ∨ first = second) :
    complete second (complete first s) = complete second s := by
  induction s generalizing first second with
  | node head operands text ih =>
    -- the operands are completed in two contexts, of which the first is open or also the last
    have hcontext := @context_spokenBy (head.spokenBy first) second h
    rw [Head.spokenBy_spokenBy] at hcontext
    generalize hc₁ : (head.spokenBy first).context = c₁ at hcontext
    generalize hc₂ : (head.spokenBy second).context = c₂ at hcontext
    have hoperands : completeAll c₂ (completeAll c₁ operands) = completeAll c₂ operands := by
      simp only [completeAll_eq_map, List.map_map]
      apply List.map_congr_left
      intro operand ho
      -- both completions of the operand are again of the kind that the induction is about
      have hsubject : (operand.subject.orElse c₁).orElse c₂ = operand.subject.orElse c₂ := by
        rw [Agent.orElse_assoc]
        rcases hcontext with rfl | rfl <;> simp
      have hoperand : operand.subject.orElse c₁ = .unspec ∨
          operand.subject.orElse c₁ = operand.subject.orElse c₂ := by
        by_cases hopen : operand.subject = .unspec
        · simpa [hopen] using hcontext
        · rw [Agent.orElse_of_ne hopen, Agent.orElse_of_ne hopen]
          exact Or.inr rfl
      show complete ((complete (operand.subject.orElse c₁) operand).subject.orElse c₂)
          (complete (operand.subject.orElse c₁) operand) =
        complete (operand.subject.orElse c₂) operand
      rw [subject_complete, hsubject]
      exact ih operand ho hoperand
    simp only [complete, Head.spokenBy_spokenBy, hc₁, hc₂, hoperands]

/-- Finishing a statement first makes no difference if its speaker is open or stays. -/
theorem complete_finish {s : Statement} {subject : Agent}
    (h : s.subject = .unspec ∨ s.subject = subject) :
    complete subject (finish s) = complete subject s :=
  complete_complete s h

end Statement

end Parley
