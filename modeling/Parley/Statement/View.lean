import Parley.Statement.Basic
import Parley.Record

/-!
# Views of statements

A view shows a statement with only the fields that say something. A field is left out if the form of
the statement does not use it; a speaker is left out if it is open, a role or a result if it is
unset, and the list of operands if it is empty.
-/

namespace Parley

/-- A statement as others see it. -/
structure View where
  topic : Topic
  operator : Option Operator
  subject : Option Agent
  target : Option Agent
  role : Option Role
  result : Option Species
  day : Option Int32
  utterance : Option Utterance
  operands : List View
  text : Text
deriving Repr

namespace View

mutual

/-- The view of a statement. -/
def ofStatement : Statement → View
  | ⟨head, operands, text⟩ => {
      topic := head.topic
      operator := if head.topic = .operator then some head.operator else none
      subject := if head.subject = .unspec then none else some head.subject
      -- a target that the form uses is shown even if it is open
      target :=
        if head.topic.form.hasTarget || head.operator.addressesTarget then some head.target
        else none
      role := if head.role = .unc then none else some head.role
      result := if head.result = .unc then none else some head.result
      day := if head.operator = .day then some head.day else none
      utterance := if head.topic.form = .agreement then some head.utterance else none
      operands := ofStatements operands
      text }

/-- The views of operands. -/
def ofStatements : List Statement → List View
  | [] => []
  | s :: rest => ofStatement s :: ofStatements rest

end

/-- The operands are viewed one by one. -/
theorem ofStatements_eq_map (statements : List Statement) :
    ofStatements statements = statements.map ofStatement := by
  induction statements with
  | nil => rfl
  | cons s rest ih => rw [ofStatements, ih, List.map_cons]

/-- A member that is written only if it is there. -/
def optional {α : Type} [Wire α] (name : String) (value : Option α) :
    List (Option Text × Json) :=
  (value.map (Wire.member name)).toList

/-- The member for the operands, unless there are none. -/
def operandsMember : List Json → List (Option Text × Json)
  | [] => []
  | items => [(some "children".toList, .array items)]

mutual

/-- The JSON value of a view: its members in a fixed order, the text last. -/
def toJson : View → Json
  | ⟨topic, operator, subject, target, role, result, day, utterance, operands, text⟩ =>
    .object <| [Wire.member "topic" topic] ++ optional "operator" operator ++
      optional "subject" subject ++ optional "target" target ++ optional "role" role ++
      optional "result" result ++ optional "day" day ++ optional "utterance" utterance ++
      operandsMember (toJsons operands) ++ [Wire.member "text" text]

/-- The JSON values of views. -/
def toJsons : List View → List Json
  | [] => []
  | v :: rest => toJson v :: toJsons rest

end

end View

/-- The JSON text of a statement's view, with one member on a line. -/
def Statement.viewText (s : Statement) : Text :=
  (View.ofStatement s).toJson.pretty

end Parley
