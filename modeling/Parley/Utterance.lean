import Parley.Game
import Parley.Agent

/-!
# Utterances

Something a player has already said, by the channel, the day and the place where it was said.
Agreements refer to one.
-/

namespace Parley

/-- An utterance that a player has made. -/
structure Utterance where
  channel : Channel
  day : Int32
  speaker : Agent
  index : Int32
  text : Text
  turn : Int32
deriving DecidableEq, Repr

namespace Utterance

/-- The utterance of a statement that refers to none. -/
def unset : Utterance where
  channel := .talk
  day := -1
  speaker := .unspec
  index := -1
  text := []
  turn := -1

/-- A reference to an utterance of which only the channel, the day and the index are known. -/
def reference (channel : Channel) (day index : Int32) : Utterance :=
  { unset with channel, day, index }

end Utterance

end Parley
