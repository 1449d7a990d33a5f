import Parley.Vocabulary

/-!
# The words of the game

The parts a player can have, what an inspection can find, whether a player still lives, and the two
channels on which players speak. The first word of each list is the one that stands for "unset".
-/

namespace Parley

/-- The part a player has in the game, or `any` part at all. -/
inductive Role where
  | unc | bodyguard | fox | freemason | medium | possessed | seer | villager | werewolf | any
deriving DecidableEq, Repr, Inhabited

/-- What a divination or a medium finds a player to be. -/
inductive Species where
  | unc | human | werewolf | any
deriving DecidableEq, Repr, Inhabited

/-- Whether a player is still in the game. -/
inductive Status where
  | unc | alive | dead
deriving DecidableEq, Repr, Inhabited

/-- The channel of an utterance: the public talk or the whisper among werewolves. -/
inductive Channel where
  | talk | whisper
deriving DecidableEq, Repr, Inhabited

/-- The written name of a role. -/
def Role.name : Role → String
  | unc => "UNC"
  | bodyguard => "BODYGUARD"
  | fox => "FOX"
  | freemason => "FREEMASON"
  | medium => "MEDIUM"
  | possessed => "POSSESSED"
  | seer => "SEER"
  | villager => "VILLAGER"
  | werewolf => "WEREWOLF"
  | any => "ANY"

/-- The written name of a species. -/
def Species.name : Species → String
  | unc => "UNC"
  | human => "HUMAN"
  | werewolf => "WEREWOLF"
  | any => "ANY"

/-- The written name of a status. -/
def Status.name : Status → String
  | unc => "UNC"
  | alive => "ALIVE"
  | dead => "DEAD"

/-- The written name of a channel. -/
def Channel.name : Channel → String
  | talk => "TALK"
  | whisper => "WHISPER"

instance : Vocabulary Role where
  words := [.unc, .bodyguard, .fox, .freemason, .medium, .possessed, .seer, .villager, .werewolf,
    .any]
  name := Role.name
  mem_words := by intro a; cases a <;> decide
  name_unique := by decide

instance : Vocabulary Species where
  words := [.unc, .human, .werewolf, .any]
  name := Species.name
  mem_words := by intro a; cases a <;> decide
  name_unique := by decide

instance : Vocabulary Status where
  words := [.unc, .alive, .dead]
  name := Status.name
  mem_words := by intro a; cases a <;> decide
  name_unique := by decide

instance : Vocabulary Channel where
  words := [.talk, .whisper]
  name := Channel.name
  mem_words := by intro a; cases a <;> decide
  name_unique := by decide

end Parley
