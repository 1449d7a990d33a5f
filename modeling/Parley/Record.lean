import Parley.Wire
import Parley.Utterance
import Parley.Statement.Draft
import Parley.Statement.Compilation

/-!
# Records of the game

The server tells players what was said, what was found out and who voted for whom. It does so in
plain records, whose indices and names are yet to be checked; the checked values give rise to
statements.
-/

namespace Parley

/-! ### Utterances -/

/-- An utterance as the server tells it. -/
structure UtteranceRecord where
  day : Int32
  agent : Int64
  index : Int32
  text : Text
  turn : Int32
deriving DecidableEq, Repr

instance : Wire UtteranceRecord where
  toJson r := .object [Wire.member "day" r.day, Wire.member "agent" r.agent,
    Wire.member "idx" r.index, Wire.member "text" r.text, Wire.member "turn" r.turn]
  ofJson? json := do
    let [day, agent, index, text, turn] ← json.fields? ["day", "agent", "idx", "text", "turn"]
      | none
    return {
      day := ← Wire.ofJson? day
      agent := ← Wire.ofJson? agent
      index := ← Wire.ofJson? index
      text := ← Wire.ofJson? text
      turn := ← Wire.ofJson? turn }

instance : Wire Utterance where
  toJson u := .object [Wire.member "kind" u.channel, Wire.member "day" u.day,
    Wire.member "speaker" u.speaker, Wire.member "index" u.index, Wire.member "text" u.text,
    Wire.member "turn" u.turn]
  ofJson? json := do
    let [channel, day, speaker, index, text, turn] ←
      json.fields? ["kind", "day", "speaker", "index", "text", "turn"] | none
    return {
      channel := ← Wire.ofJson? channel
      day := ← Wire.ofJson? day
      speaker := ← Wire.ofJson? speaker
      index := ← Wire.ofJson? index
      text := ← Wire.ofJson? text
      turn := ← Wire.ofJson? turn }

namespace Utterance

/-- The utterance of a record on a channel. -/
def ofRecord (channel : Channel) (record : UtteranceRecord) : Except Fault Utterance := do
  let speaker ← Agent.ofIndex record.agent.toInt
  return {
    channel
    day := record.day
    speaker
    index := record.index
    text := record.text
    turn := record.turn }

/-- The statement that the utterance makes. -/
def statement (u : Utterance) : Statement :=
  .compile u.text

end Utterance

/-! ### Findings -/

/-- The result of a divination or of a medium, as the server tells it. -/
structure JudgeRecord where
  agent : Int64
  day : Int32
  target : Int64
  result : Text
deriving DecidableEq, Repr

instance : Wire JudgeRecord where
  toJson r := .object [Wire.member "agent" r.agent, Wire.member "day" r.day,
    Wire.member "target" r.target, Wire.member "result" r.result]
  ofJson? json := do
    let [agent, day, target, result] ← json.fields? ["agent", "day", "target", "result"] | none
    return {
      agent := ← Wire.ofJson? agent
      day := ← Wire.ofJson? day
      target := ← Wire.ofJson? target
      result := ← Wire.ofJson? result }

/-- The result of a divination or of a medium. -/
structure Judge where
  agent : Agent
  day : Int32
  target : Agent
  result : Species
deriving DecidableEq, Repr

namespace Judge

/-- The finding of a record. The agent is checked before the target, and the result last. -/
def ofRecord (record : JudgeRecord) : Except Fault Judge := do
  let agent ← Agent.ofIndex record.agent.toInt
  let target ← Agent.ofIndex record.target.toInt
  let result ← Species.parse record.result
  return { agent, day := record.day, target, result }

/-- The finding as a seer reports it. -/
def divined (judge : Judge) : Statement :=
  (Draft.divined judge.target judge.result).build

/-- The finding as a medium reports it. -/
def identified (judge : Judge) : Statement :=
  (Draft.identified judge.target judge.result).build

end Judge

/-! ### Votes -/

/-- A vote as the server tells it. -/
structure VoteRecord where
  agent : Int64
  day : Int32
  target : Int64
deriving DecidableEq, Repr

instance : Wire VoteRecord where
  toJson r := .object [Wire.member "agent" r.agent, Wire.member "day" r.day,
    Wire.member "target" r.target]
  ofJson? json := do
    let [agent, day, target] ← json.fields? ["agent", "day", "target"] | none
    return {
      agent := ← Wire.ofJson? agent
      day := ← Wire.ofJson? day
      target := ← Wire.ofJson? target }

/-- A vote of one player against another. -/
structure Vote where
  agent : Agent
  day : Int32
  target : Agent
deriving DecidableEq, Repr

namespace Vote

/-- The vote of a record. The agent is checked before the target. -/
def ofRecord (record : VoteRecord) : Except Fault Vote := do
  let agent ← Agent.ofIndex record.agent.toInt
  let target ← Agent.ofIndex record.target.toInt
  return { agent, day := record.day, target }

/-- The vote as a statement of the player who cast it. -/
def voted (vote : Vote) : Statement :=
  ((Draft.voted vote.target).spokenBy vote.agent).build

end Vote

end Parley
