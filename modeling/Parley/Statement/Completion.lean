import Parley.Statement.Canonical

/-!
# Completion

An operand whose speaker is left open is spoken by the agent that its context implies. Completion
hands the speakers down through a statement, from the outside in, and writes the canonical texts on
the way back.

* `completeAll_eq_map`  the operands of a statement are completed one by one
* `toHead_complete`  only the speaker and an open addressee change in the head
* `text_complete`  the text is rendered from the completed head and operands
-/

namespace Parley.Statement

mutual

/-- The statement as spoken by `subject`, with every speaker below it filled in and every text
written anew. -/
def complete (subject : Agent) : Statement → Statement
  | ⟨head, operands, _⟩ =>
    let head := head.spokenBy subject
    -- the text comes last, as it is put together from the finished operands
    let operands := completeAll head.context operands
    ⟨head, operands, render head operands⟩

/-- The operands, each completed with its own speaker or else with the agent implied. -/
def completeAll (context : Agent) : List Statement → List Statement
  | [] => []
  | operand :: rest =>
    complete (operand.subject.orElse context) operand :: completeAll context rest

end

/-- The operands of a statement are completed one by one. -/
theorem completeAll_eq_map (context : Agent) (operands : List Statement) :
    completeAll context operands =
      operands.map fun operand => complete (operand.subject.orElse context) operand := by
  induction operands with
  | nil => rfl
  | cons operand rest ih => rw [completeAll, ih, List.map_cons]

/-- Only the speaker and an open addressee change in the head. -/
theorem toHead_complete (subject : Agent) (s : Statement) :
    (complete subject s).toHead = s.toHead.spokenBy subject := by
  cases s; rfl

/-- The operands are completed in the context of the new head. -/
theorem operands_complete (subject : Agent) (s : Statement) :
    (complete subject s).operands =
      completeAll (s.toHead.spokenBy subject).context s.operands := by
  cases s; rfl

/-- A completed statement carries the canonical text of its own head and operands. -/
theorem text_complete (subject : Agent) (s : Statement) :
    (complete subject s).text =
      render (complete subject s).toHead (complete subject s).operands := by
  cases s; rfl

/-- The statement completed with the speaker it has. -/
def finish (s : Statement) : Statement :=
  complete s.subject s

/-- The statement as spoken by another agent. -/
def spokenBy (s : Statement) (subject : Agent) : Statement :=
  complete subject s

/-- The finished statement of a head and operands. -/
def assemble (head : Head) (operands : List Statement) : Statement :=
  finish ⟨head, operands, []⟩

/-- The statement `Skip`. -/
def skip : Statement :=
  assemble { topic := .skip } []

end Parley.Statement
