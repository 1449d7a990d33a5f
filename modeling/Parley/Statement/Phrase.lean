import Parley.Statement.Basic
import Parley.Text.Bracket

/-!
# Phrases

The first step in reading a statement is to read everything but its operands. The result is a
*phrase*: a head, and for a compound statement the bracketed region that holds the operands.

Tokens are separated by gaps. A gap may be missing only between the speaker and the keyword, and
nothing may follow the last field. Regions are not looked into: a region is any text that begins
with an opening bracket and ends with a closing one.
-/

namespace Parley

/-- A statement whose operands are still text. -/
inductive Phrase where
  /-- A simple statement. -/
  | simple (head : Head)
  /-- A compound statement and the region of its operands. -/
  | compound (head : Head) (region : Text)
  /-- A request that names no addressee, and the region of its operands. -/
  | bareRequest (subject : Agent) (region : Text)
deriving DecidableEq, Repr

namespace Phrase

/-- The fields after the keyword of a simple statement, according to its form. -/
def readFields (subject : Agent) (topic : Topic) : Reader Head := fun t =>
  match topic.form with
  | .agreement => do
    let (channel, t) ← Vocabulary.read (← Text.afterGap? t)
    let (day, t) ← Text.readInt32 (Text.skipWord "day".toList (← Text.afterGap? t))
    let (index, t) ← Text.readInt32 (Text.skipWord "ID:".toList (← Text.afterGap? t))
    return ({ topic, subject, utterance := .reference channel day index }, t)
  | .claim => do
    let (target, t) ← Agent.read (← Text.afterGap? t)
    let (role, t) ← Vocabulary.read (← Text.afterGap? t)
    return ({ topic, subject, target, role }, t)
  | .finding => do
    let (target, t) ← Agent.read (← Text.afterGap? t)
    let (result, t) ← Vocabulary.read (← Text.afterGap? t)
    return ({ topic, subject, target, result }, t)
  | .action => do
    let (target, t) ← Agent.read (← Text.afterGap? t)
    return ({ topic, subject, target }, t)
  | .empty | .bare | .compound => none

/-- The region of operands that ends a statement. -/
def region? (t : Text) : Option Text := do
  let region ← Text.afterGap? t
  if region.head? = some '(' ∧ region.getLast? = some ')' then some region else none

/-- What follows the keyword of an operator: an addressee or a day where the operator has one, and
the region. Only a request may leave its addressee out. -/
def ofArguments? (subject : Agent) (operator : Operator) (t : Text) : Option Phrase :=
  let head : Head := { topic := .operator, operator, subject }
  let addressed : Option Phrase := do
    let (target, t) ← Agent.read (← Text.afterGap? t)
    return compound { head with target } (← region? t)
  match operator with
  -- a region does not begin like an agent, so a bare request is told by its bracket
  | .request => addressed <|> (region? t).map (bareRequest subject)
  | .inquire => addressed
  | .day => do
    let (day, t) ← Text.readInt32 (← Text.afterGap? t)
    return compound { head with day } (← region? t)
  | .because | .not | .and | .or | .xor => (region? t).map (compound head)
  | .nop => none

/-- The speaker at the front of a statement, if one is written, and what follows. -/
def readSubject (t : Text) : Agent × Text :=
  match Agent.read t with
  | some (subject, rest) => (subject, Text.skipGap rest)
  | none => (.unspec, t)

/-- A statement with a keyword: speaker, keyword and fields. -/
def ofSentence? (t : Text) : Option Phrase := do
  let (subject, t) := readSubject t
  let (word, t) ← Text.keyword t
  match (Vocabulary.ofName? word : Option Topic) with
  | some topic =>
    match ← readFields subject topic t with
    -- a simple statement ends with its last field
    | (head, []) => some (simple head)
    | _ => none
  | none => ofArguments? subject (← Vocabulary.ofName? word) t

/-- The phrase that a whole text is: the keyword of a bare statement, or a sentence. -/
def ofText? (t : Text) : Option Phrase :=
  match Vocabulary.ofName? t with
  -- other topics have fields, and so they are sentences
  | some topic => if topic.form = .bare then some (simple { topic }) else ofSentence? t
  | none => ofSentence? t

end Phrase

end Parley
