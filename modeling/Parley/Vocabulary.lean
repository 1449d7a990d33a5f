import Parley.Text.Basic

/-!
# Closed vocabularies

Roles, species, topics and the like are closed lists of words. Each word has one spelling, used in
statements, in messages and in JSON alike, and is recognised by exactly that spelling.

* `ofName?_eq_some_iff`  a text is read as a word exactly when it is the word's name
-/

namespace Parley

/-- A finite type whose values are written as words, no two alike. -/
class Vocabulary (α : Type) where
  /-- Every word of the vocabulary. -/
  words : List α
  /-- The spelling of a word. -/
  name : α → String
  mem_words : ∀ a, a ∈ words
  name_unique : ∀ a ∈ words, ∀ b ∈ words, name a = name b → a = b

namespace Vocabulary

variable {α : Type} [Vocabulary α]

/-- The spelling of a word, as a text. -/
def spell (a : α) : Text :=
  (name a).toList

/-- The word spelled by a text. -/
def ofName? (t : Text) : Option α :=
  (words (α := α)).find? fun a => spell a == t

/-- Reads the longest run of upper-case letters, which must spell a word of the vocabulary. -/
def read : Reader α := fun t => do
  let (keyword, rest) ← Text.keyword t
  let a ← ofName? keyword
  return (a, rest)

/-- Words are known from their names. -/
theorem name_injective {a b : α} (h : name a = name b) : a = b :=
  name_unique a (mem_words a) b (mem_words b) h

/-- A text is read as a word exactly when it is the name of the word. -/
theorem ofName?_eq_some_iff {t : Text} {a : α} : ofName? t = some a ↔ t = spell a := by
  constructor
  · intro h
    have := List.find?_some h
    exact (beq_iff_eq.mp this).symm
  · rintro rfl
    unfold ofName?
    cases h : (words (α := α)).find? fun b => spell b == spell a with
    -- the word is in the list, so something is found
    | none => exact absurd (List.find?_eq_none.mp h a (mem_words a)) (by simp)
    -- what is found first has the same name, so it is the same word
    | some b =>
      have := List.find?_some h
      exact congrArg some (name_injective (String.toList_inj.mp (beq_iff_eq.mp this)))

end Vocabulary

end Parley
