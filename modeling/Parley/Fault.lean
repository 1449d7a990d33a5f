import Parley.Game
import Parley.Agent
import Parley.Statement.Keyword

/-!
# Faults

The ways in which building a statement or accepting a record can fail. Compiling chat is not among
them: a text that is no statement compiles to `Skip`.
-/

namespace Parley

/-- Why a statement, a name or a record was refused. -/
inductive Fault where
  /-- The operator needs at least one operand and was given none. -/
  | emptyOperandList (operator : Operator)
  /-- The number is no player's index. -/
  | agentIndexOutOfRange (index : Int)
  /-- The text is no topic or no operator. -/
  | unknownKeyword (name : Text)
  | unknownRole (name : Text)
  | unknownSpecies (name : Text)
  | unknownStatus (name : Text)
  | unknownChannel (name : Text)
deriving DecidableEq, Repr

/-- The wording of a fault. -/
def Fault.message : Fault → Text
  | emptyOperandList operator =>
    Vocabulary.spell operator ++ " requires at least one operand".toList
  | agentIndexOutOfRange index => "agent index out of range: ".toList ++ Text.ofInt index
  | unknownKeyword name => "unknown keyword: ".toList ++ name
  | unknownRole name => "unknown role: ".toList ++ name
  | unknownSpecies name => "unknown species: ".toList ++ name
  | unknownStatus name => "unknown status: ".toList ++ name
  | unknownChannel name => "unknown utterance kind: ".toList ++ name

/-- The word spelled by a text, or the fault that this is none. -/
def Vocabulary.parse {α : Type} [Vocabulary α] (fault : Text → Fault) (t : Text) :
    Except Fault α :=
  match ofName? t with
  | some a => .ok a
  | none => .error (fault t)

/-- The role of this name. -/
def Role.parse : Text → Except Fault Role := Vocabulary.parse .unknownRole

/-- The species of this name. -/
def Species.parse : Text → Except Fault Species := Vocabulary.parse .unknownSpecies

/-- The status of this name. -/
def Status.parse : Text → Except Fault Status := Vocabulary.parse .unknownStatus

/-- The channel of this name. -/
def Channel.parse : Text → Except Fault Channel := Vocabulary.parse .unknownChannel

/-- The topic of this name. -/
def Topic.parse : Text → Except Fault Topic := Vocabulary.parse .unknownKeyword

/-- The operator of this name. -/
def Operator.parse : Text → Except Fault Operator := Vocabulary.parse .unknownKeyword

/-- The agent of an index, or the fault that the index is out of range. -/
def Agent.ofIndex (n : Int) : Except Fault Agent :=
  match ofInt? n with
  | some a => .ok a
  | none => .error (.agentIndexOutOfRange n)

end Parley
