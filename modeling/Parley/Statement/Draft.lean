import Parley.Statement.Completion
import Parley.Fault

/-!
# Drafts

A draft fixes the head and the operands of a statement that is yet to be completed. There is one
way to begin a draft for each form of statement; a draft has no speaker until it is given one.
Only a conjunction or disjunction of nothing is refused.
-/

namespace Parley

/-- A statement in the making. -/
structure Draft extends Head where
  operands : List Statement := []
deriving Repr

namespace Draft

/-- The draft as spoken by `subject`. -/
def spokenBy (draft : Draft) (subject : Agent) : Draft :=
  { draft with subject }

/-- The statement that the draft makes. -/
def build (draft : Draft) : Statement :=
  Statement.assemble draft.toHead draft.operands

/-! ### Simple statements -/

/-- The statement that says nothing. -/
def empty : Draft := {}

/-- The statement that passes this turn. -/
def skip : Draft := { topic := .skip }

/-- The statement that ends the talk of the day. -/
def finished : Draft := { topic := .finished }

/-- The speaker agrees with an utterance. -/
def agree (channel : Channel) (day index : Int32) : Draft :=
  { topic := .agree, utterance := .reference channel day index }

/-- The speaker disagrees with an utterance. -/
def disagree (channel : Channel) (day index : Int32) : Draft :=
  { topic := .disagree, utterance := .reference channel day index }

/-- The speaker will vote to attack the target. -/
def attack (target : Agent) : Draft := { topic := .attack, target }

/-- The speaker voted to attack the target. -/
def attacked (target : Agent) : Draft := { topic := .attacked, target }

/-- The speaker will divine the target. -/
def divination (target : Agent) : Draft := { topic := .divination, target }

/-- The speaker will guard the target. -/
def guard (target : Agent) : Draft := { topic := .guard, target }

/-- The speaker guarded the target. -/
def guarded (target : Agent) : Draft := { topic := .guarded, target }

/-- The speaker will vote against the target. -/
def vote (target : Agent) : Draft := { topic := .vote, target }

/-- The speaker voted against the target. -/
def voted (target : Agent) : Draft := { topic := .voted, target }

/-- The speaker divined the target, with this result. -/
def divined (target : Agent) (result : Species) : Draft := { topic := .divined, target, result }

/-- The speaker identified the dead target, with this result. -/
def identified (target : Agent) (result : Species) : Draft :=
  { topic := .identified, target, result }

/-- The speaker states openly that the target has this role. -/
def comingout (target : Agent) (role : Role) : Draft := { topic := .comingout, target, role }

/-- The speaker supposes that the target has this role. -/
def estimate (target : Agent) (role : Role) : Draft := { topic := .estimate, target, role }

/-! ### Compound statements -/

/-- A draft that joins operands by an operator. -/
def compound (operator : Operator) (operands : List Statement) : Draft :=
  { topic := .operator, operator, operands }

/-- The speaker asks the target to do something. -/
def request (target : Agent) (action : Statement) : Draft :=
  { compound .request [action] with target }

/-- The speaker asks the target about something. -/
def inquire (target : Agent) (action : Statement) : Draft :=
  { compound .inquire [action] with target }

/-- One thing is so because of another. -/
def because (reason action : Statement) : Draft := compound .because [reason, action]

/-- Exactly one of two things is so. -/
def xor (first second : Statement) : Draft := compound .xor [first, second]

/-- Something is not so. -/
def not (content : Statement) : Draft := compound .not [content]

/-- Something is so on a day. -/
def onDay (day : Int32) (content : Statement) : Draft := { compound .day [content] with day }

/-- A conjunction or disjunction, which must join something. -/
def junction (operator : Operator) : List Statement → Except Fault Draft
  | [] => .error (.emptyOperandList operator)
  | operands => .ok (compound operator operands)

/-- All of these things are so. -/
def and (operands : List Statement) : Except Fault Draft := junction .and operands

/-- One at least of these things is so. -/
def or (operands : List Statement) : Except Fault Draft := junction .or operands

end Draft

end Parley
