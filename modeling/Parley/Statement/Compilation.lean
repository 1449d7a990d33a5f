import Parley.Statement.Phrase
import Parley.Statement.Completion

/-!
# Compiling chat

Every text compiles to a statement. A text that is no statement compiles to `Skip`, and so does one
whose operands are too many, too few or nested too deeply; an operand that is no statement becomes a
`Skip` among its siblings. What was recognised and what was given up is told by a list of events.

The limit on nesting is spent as a budget, one unit for each level of brackets, so compilation is
recursive on what is left of it.
-/

namespace Parley

/-- Something that happens while a text is compiled. -/
inductive Event where
  /-- The text has the form of a statement; its operands come next. -/
  | matched
  /-- The statement at this depth may have no operands, being as deep as the limit allows. -/
  | nestedTooDeeply (depth : Nat)
  /-- The operator does not take this number of operands. -/
  | wrongOperandCount (operator : Operator) (count : Nat)
  /-- The text at this depth is given up, and `Skip` stands in for it. -/
  | unparseable (text : Text) (depth : Nat)
deriving DecidableEq, Repr

/-- What compiling a text comes to: a statement, and the events on the way to it. -/
structure Compilation where
  statement : Statement
  events : List Event
deriving Repr

namespace Compilation

/-- How many levels of operands a statement may have unless another limit is set. -/
def defaultLimit : Nat := 32

/-- The compiled operands of a region. There are none if nothing is left to compile them with, or if
the operator does not take as many as there are groups. -/
def operands (compileOperand : Option (Text → Compilation)) (depth : Nat) (operator : Operator)
    (region : Text) : Except Event (List Compilation) :=
  match compileOperand with
  -- the depth is looked at first, whatever the number of groups
  | none => .error (.nestedTooDeeply depth)
  | some compile =>
    let groups := Text.groups region
    if operator.arity.accepts groups.length then .ok (groups.map compile)
    else .error (.wrongOperandCount operator groups.length)

/-- Whom a request is addressed to that names no addressee: the speaker of its operand, or anybody
if that is left open. -/
def impliedAddressee : List Statement → Agent
  | [] => .any
  | operand :: _ => operand.subject.orElse .any

/-- Joins compiled operands under the head that is chosen for them. -/
def join (head : List Statement → Head) (operands : List Compilation) : Compilation :=
  let statements := operands.map (·.statement)
  ⟨.assemble (head statements) statements, operands.flatMap (·.events)⟩

/-- Completes a phrase, given how to compile the operands of a region. -/
def ofPhrase (operands : Operator → Text → Except Event (List Compilation)) :
    Phrase → Except Event Compilation
  | .simple head => .ok (join (fun _ => head) [])
  | .compound head region => (operands head.operator region).map (join fun _ => head)
  -- the addressee is known only when the operand has been compiled
  | .bareRequest subject region =>
    (operands .request region).map <| join fun statements =>
      { topic := .operator, operator := .request, subject, target := impliedAddressee statements }

/-- Compiles the text of one statement at a depth, given how to compile its operands. -/
def step (compileOperand : Option (Text → Compilation)) (depth : Nat) (t : Text) : Compilation :=
  let text := t.trim
  match Phrase.ofText? text with
  | none => ⟨.skip, [.unparseable text depth]⟩
  | some phrase =>
    match ofPhrase (operands compileOperand depth) phrase with
    | .ok result => { result with events := .matched :: result.events }
    -- the form has matched already when the operands are refused
    | .error cause => ⟨.skip, [.matched, cause, .unparseable text depth]⟩

/-- Compiles the text of a statement at a depth, with `budget` levels of operands to go. -/
def atDepth : (budget depth : Nat) → Text → Compilation
  | 0, depth, t => step none depth t
  | budget + 1, depth, t => step (some (atDepth budget (depth + 1))) depth t

/-- Compiles a text whose statement may have `limit` levels of operands. -/
def ofText (limit : Nat) (t : Text) : Compilation :=
  atDepth limit 0 t

end Compilation

namespace Statement

/-- The statement of a text that may have `limit` levels of operands. -/
def compileWithin (limit : Nat) (t : Text) : Statement :=
  (Compilation.ofText limit t).statement

/-- The statement of a text. -/
def compile (t : Text) : Statement :=
  compileWithin Compilation.defaultLimit t

/-- The statements of the bracketed groups of a text, whatever stands between them. A group counts
as one level of operands. -/
def embeddedIn (t : Text) : List Statement :=
  (Text.groups t).map fun group =>
    -- the brackets of the group are the level that is missing here
    (Compilation.atDepth (Compilation.defaultLimit - 1) 1 group).statement

end Statement

end Parley
