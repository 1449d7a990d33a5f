import Parley.Vocabulary

/-!
# Keywords of statements

A statement is simple and has a topic, or it joins other statements by an operator. Topics fall
into a few forms, each with its own fields; operators differ in how many operands they take and in
whom the operands address.
-/

namespace Parley

/-- What a statement is about. The topic `operator` marks a statement that joins others. -/
inductive Topic where
  | dummy | estimate | comingout | divination | divined | identified | guard | guarded | vote
  | voted | attack | attacked | agree | disagree | finished | skip | operator
deriving DecidableEq, Repr, Inhabited

/-- How a statement joins its operands. The operator `nop` marks a simple statement. -/
inductive Operator where
  | nop | request | inquire | because | day | not | and | or | xor
deriving DecidableEq, Repr, Inhabited

/-- The form of the statements on a topic: which fields follow the keyword. -/
inductive Form where
  /-- Nothing at all is written. -/
  | empty
  /-- The keyword stands alone, without a speaker. -/
  | bare
  /-- An utterance, by channel, day and index. -/
  | agreement
  /-- A player and a role. -/
  | claim
  /-- A player and a species. -/
  | finding
  /-- A player. -/
  | action
  /-- Operands in parentheses. -/
  | compound
deriving DecidableEq, Repr

/-- How many operands an operator takes. -/
inductive Arity where
  | exactly (n : Nat)
  | atLeast (n : Nat)
deriving DecidableEq, Repr

namespace Topic

/-- The keyword of a topic. -/
def name : Topic → String
  | dummy => "DUMMY"
  | estimate => "ESTIMATE"
  | comingout => "COMINGOUT"
  | divination => "DIVINATION"
  | divined => "DIVINED"
  | identified => "IDENTIFIED"
  | guard => "GUARD"
  | guarded => "GUARDED"
  | vote => "VOTE"
  | voted => "VOTED"
  | attack => "ATTACK"
  | attacked => "ATTACKED"
  | agree => "AGREE"
  | disagree => "DISAGREE"
  | finished => "Over"
  | skip => "Skip"
  | operator => "OPERATOR"

/-- The form of the statements on a topic. -/
def form : Topic → Form
  | dummy => .empty
  | skip | finished => .bare
  | agree | disagree => .agreement
  | estimate | comingout => .claim
  | divined | identified => .finding
  | attack | attacked | divination | guard | guarded | vote | voted => .action
  | operator => .compound

end Topic

/-- Whether statements of this form name a player as their target. -/
def Form.hasTarget : Form → Bool
  | claim | finding | action => true
  | _ => false

namespace Operator

/-- The keyword of an operator. -/
def name : Operator → String
  | nop => "NOP"
  | request => "REQUEST"
  | inquire => "INQUIRE"
  | because => "BECAUSE"
  | day => "DAY"
  | not => "NOT"
  | and => "AND"
  | or => "OR"
  | xor => "XOR"

/-- How many operands the operator takes. -/
def arity : Operator → Arity
  | nop => .exactly 0
  | request | inquire | not | day => .exactly 1
  | because | xor => .exactly 2
  | and | or => .atLeast 1

/-- Whether the operand is put in the mouth of the target, as in a request or an inquiry, rather
than in the mouth of the speaker. -/
def addressesTarget : Operator → Bool
  | request | inquire => true
  | _ => false

end Operator

/-- Whether this many operands are allowed. -/
def Arity.accepts : Arity → Nat → Bool
  | exactly n, count => count == n
  | atLeast n, count => n ≤ count

instance : Vocabulary Topic where
  words := [.dummy, .estimate, .comingout, .divination, .divined, .identified, .guard, .guarded,
    .vote, .voted, .attack, .attacked, .agree, .disagree, .finished, .skip, .operator]
  name := Topic.name
  mem_words := by intro a; cases a <;> decide
  name_unique := by decide

instance : Vocabulary Operator where
  words := [.nop, .request, .inquire, .because, .day, .not, .and, .or, .xor]
  name := Operator.name
  mem_words := by intro a; cases a <;> decide
  name_unique := by decide

end Parley
