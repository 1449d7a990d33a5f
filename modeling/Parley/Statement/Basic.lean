import Parley.Statement.Keyword
import Parley.Utterance

/-!
# Statements

A statement has a *head*, which says everything about it but its operands, the operands, and its
canonical text. A field that the form of a statement does not use holds its default.

The text is the identity of a statement: two statements are equal, as far as `==` is concerned, when
they have the same text.
-/

namespace Parley

/-- Everything that a statement says without its operands. -/
structure Head where
  topic : Topic := .dummy
  operator : Operator := .nop
  /-- Who speaks; `Agent.unspec` if that is left open. -/
  subject : Agent := .unspec
  /-- Whom the statement is about, or whom it addresses. -/
  target : Agent := .any
  role : Role := .unc
  result : Species := .unc
  utterance : Utterance := .unset
  day : Int32 := -1
deriving DecidableEq, Repr

/-- The agent whom the operands of a statement are taken to be spoken by: the addressee of a request
or an inquiry, and otherwise the speaker. -/
def Head.context (head : Head) : Agent :=
  if head.operator.addressesTarget then head.target else head.subject

/-- The head with this speaker. A request or an inquiry that addresses nobody addresses anybody. -/
def Head.spokenBy (head : Head) (subject : Agent) : Head :=
  { head with
    subject
    target :=
      if head.operator.addressesTarget && head.target == .unspec then .any else head.target }

/-- A statement: its head, its operands and its canonical text. -/
structure Statement extends Head where
  operands : List Statement
  text : Text
deriving Repr

namespace Statement

/-- Statements are compared by their text. -/
instance : BEq Statement where
  beq a b := a.text == b.text

/-- Statements are equal if their texts are the same. -/
theorem beq_iff_text_eq {a b : Statement} : a == b ↔ a.text = b.text :=
  beq_iff_eq (α := Text)

/-- Whether the statement joins others. -/
def isCompound (s : Statement) : Bool :=
  s.topic == .operator

end Statement

end Parley
