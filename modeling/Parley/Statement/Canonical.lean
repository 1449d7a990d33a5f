import Parley.Statement.Basic

/-!
# Canonical text

Every statement has one canonical text. The fields of its form follow the keyword, each after one
space; operands follow in parentheses. A speaker is written in front of the keyword, but an operand
whose speaker is the one its context implies is written without it.
-/

namespace Parley

/-- How a speaker is written in front of a keyword: not at all if it is left open. -/
def Agent.speakerText (a : Agent) : Text :=
  if a = .unspec then [] else if a = .any then "ANY ".toList else a.token ++ [' ']

/-- How a target is written: an open one is anybody. -/
def Agent.targetText (a : Agent) : Text :=
  if a = .unspec ∨ a = .any then "ANY".toList else a.token

namespace Statement

/-- The text without the speaker it begins with and the blanks after that, provided that there is
such a blank and that a keyword follows; any other text is left alone. -/
def stripSubject (t : Text) : Text :=
  match Agent.read t with
  | some (_, c :: rest) =>
    let keyword := Text.trimStart rest
    if Text.isBlank c && keyword.head?.any Char.isUpper then keyword else t
  | _ => t

/-- A field of a statement: one space, then its text. -/
def field (t : Text) : Text :=
  ' ' :: t

/-- How an operand is written in the context of an agent: without its own speaker if that is the
agent implied. -/
def operandText (context : Agent) (operand : Statement) : Text :=
  if operand.subject = context then stripSubject operand.text else operand.text

/-- What stands between an operator and its operands: the addressee or the day. -/
def argumentText (head : Head) : Text :=
  match head.operator with
  | .request | .inquire => field head.target.targetText
  | .day => field (Text.ofInt head.day.toInt)
  | _ => []

/-- The canonical text of a statement, given its head and its finished operands. -/
def render (head : Head) (operands : List Statement) : Text :=
  let keyword := Vocabulary.spell head.topic
  let opening := head.subject.speakerText ++ keyword
  match head.topic.form with
  | .empty => []
  | .bare => keyword
  | .agreement =>
    opening ++ field (Vocabulary.spell head.utterance.channel) ++
      field (Text.ofInt head.utterance.day.toInt) ++ field (Text.ofInt head.utterance.index.toInt)
  | .claim => opening ++ field head.target.targetText ++ field (Vocabulary.spell head.role)
  | .finding => opening ++ field head.target.targetText ++ field (Vocabulary.spell head.result)
  | .action => opening ++ field head.target.targetText
  | .compound =>
    head.subject.speakerText ++ Vocabulary.spell head.operator ++ argumentText head ++
      operands.flatMap fun operand => field ('(' :: operandText head.context operand ++ [')'])

end Statement

end Parley
