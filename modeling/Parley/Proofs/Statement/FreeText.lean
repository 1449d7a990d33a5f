import Mathlib.Data.List.Forall2
import Parley.Proofs.Text.Decomposition
import Parley.Proofs.Statement.Stability

/-!
# Statements in free text

Statements that are quoted in brackets are found in any text around them, as long as that opens no
brackets of its own; it may close some. Each of them is compiled by itself, with one level less than
a text by itself has, and comes back as it was unless it is too deep for that.

## Key results

- `groups_quotations`: the groups of a text with quotations are what is quoted
- `Quotation.compileWithin_beq_iff`: what is quoted comes back exactly if it fits into the limit
- `embeddedIn_quotations`: all statements that are quoted are found, in order
-/

namespace Parley.Statement

/-- A statement that is quoted in a text, and what stands in front of its bracket. The statement can
be made, and it says something everywhere. -/
structure Quotation where
  before : Text
  statement : Statement
  not_mem_before : '(' ∉ before
  reachable : statement.Reachable
  full : ∀ n ∈ statement.nodes, n.topic ≠ .dummy

namespace Quotation

/-- The quotation as it stands in a text. -/
def written (q : Quotation) : Text :=
  q.before ++ '(' :: q.statement.text ++ [')']

/-- The quotation is a group of the text, since texts of statements are balanced. -/
def group (q : Quotation) : Text.Group where
  before := q.before
  interior := q.statement.text
  not_mem_before := q.not_mem_before
  balanced := by
    -- the text of a statement is balanced as an operand is
    rw [← operandText_unspec (q.reachable.settled q.statement (mem_nodes_self _))]
    exact balanced_operandText q.reachable.settled .unspec

/-- What is quoted comes back from its text exactly if it fits into the limit. -/
theorem compileWithin_beq_iff (q : Quotation) (limit : Nat) :
    compileWithin limit q.statement.text == q.statement ↔ q.statement.nesting ≤ limit := by
  rw [beq_iff_text_eq, text_compileWithin_text_iff q.reachable.shaped q.reachable.settled]
  exact and_iff_left q.full

end Quotation

/-- The groups of a text with quotations are the texts of the statements that are quoted. -/
theorem groups_quotations (quotations : List Quotation) {rest : Text} (hrest : '(' ∉ rest) :
    Text.groups (quotations.flatMap Quotation.written ++ rest) =
      quotations.map fun q => q.statement.text := by
  -- the decomposition of the text is known, and it is the only one
  let d : Text.Decomposition :=
    { groups := quotations.map Quotation.group
      rest
      unclosed := none
      not_mem_rest := hrest
      staysOpen := nofun }
  have htext : d.text = quotations.flatMap Quotation.written ++ rest := by
    rw [Text.Decomposition.text, List.flatMap_map, Text.Decomposition.ending, List.append_nil]
    rfl
  rw [← htext, d.groups_text, Text.Decomposition.interiors, List.map_map]
  rfl

/-- All statements that are quoted in a text are found, in order and each by itself, whatever stands
around them. Those with fewer levels than a text by itself may have come back equal, and those with
as many or more do not, which makes no difference to the others. -/
theorem embeddedIn_quotations (quotations : List Quotation) {rest : Text} (hrest : '(' ∉ rest) :
    let found := embeddedIn (quotations.flatMap Quotation.written ++ rest)
    found.length = quotations.length ∧
      (List.Forall₂ (fun s q => s == q.statement) found quotations ↔
        ∀ q ∈ quotations, q.statement.nesting < Compilation.defaultLimit) ∧
      ∀ (i : Nat) (q : Quotation), quotations[i]? = some q →
        ∃ s, found[i]? = some s ∧
          s = compileWithin (Compilation.defaultLimit - 1) q.statement.text ∧
          (s == q.statement ↔ q.statement.nesting < Compilation.defaultLimit) := by
  intro found
  let limit := Compilation.defaultLimit - 1
  have hfound : found = quotations.map fun q => compileWithin limit q.statement.text := by
    show embeddedIn _ = _
    rw [embeddedIn_eq_map, groups_quotations quotations hrest, List.map_map]
    rfl
  have hback : ∀ q : Quotation, compileWithin limit q.statement.text == q.statement ↔
      q.statement.nesting < Compilation.defaultLimit := by
    -- the bracket around the statement counts as a level
    intro q
    rw [q.compileWithin_beq_iff, Nat.le_sub_one_iff_lt (by decide)]
  refine ⟨by rw [hfound, List.length_map], ?_, fun i q hq => ⟨_, ?_, rfl, hback q⟩⟩
  · -- each pair is asked for itself, since each is compiled by itself
    rw [hfound, List.forall₂_map_left_iff, List.forall₂_same]
    exact forall₂_congr fun q _ => hback q
  · rw [hfound, List.getElem?_map, hq]
    rfl

/-- A vote and a negation of as many levels as a text by itself may have, among closing brackets.
Both are found, and the vote is found as it is, but the negation is cut off at its innermost
level. -/
theorem embeddedIn_quotations_not :
    let opened := (List.replicate 32 "NOT (".toList).flatten
    let vote := compileWithin 32 "Agent[1]VOTE Agent[2]".toList
    let negation := compileWithin 32 (opened ++ "Over".toList ++ List.replicate 32 ')')
    let found := embeddedIn
      ("I say) ".toList ++ '(' :: vote.text ++ [')'] ++
        (") then ".toList ++ '(' :: negation.text ++ [')']) ++ ").".toList)
    '(' ∉ ").".toList ∧ found.length = 2 ∧
      (∃ s, found[0]? = some s ∧ s == vote) ∧ ∃ s, found[1]? = some s ∧ ¬ s == negation := by
  intro opened vote negation found
  have hrest : '(' ∉ ").".toList := by decide
  have hshallow : vote.nesting < Compilation.defaultLimit := by decide +kernel
  have hdeep : ¬ negation.nesting < Compilation.defaultLimit := by decide +kernel
  have hvote : vote.Reachable ∧ vote.Fits 32 :=
    ⟨.compileWithin 32 _, (compiled_compileWithin 32 _).fits⟩
  have hnegation : negation.Reachable ∧ negation.Fits 32 :=
    ⟨.compileWithin 32 _, (compiled_compileWithin 32 _).fits⟩
  -- from here on it does not matter how the statements have been compiled
  clear_value vote negation
  let first : Quotation := ⟨"I say) ".toList, vote, by decide, hvote.1, hvote.2.2⟩
  let second : Quotation := ⟨") then ".toList, negation, by decide, hnegation.1, hnegation.2.2⟩
  have htext : [first, second].flatMap Quotation.written ++ ").".toList =
      "I say) ".toList ++ '(' :: vote.text ++ [')'] ++
        (") then ".toList ++ '(' :: negation.text ++ [')']) ++ ").".toList := by
    rw [List.flatMap_cons, List.flatMap_singleton]
    rfl
  obtain ⟨hlength, -, hat⟩ := embeddedIn_quotations [first, second] hrest
  rw [htext] at hlength hat
  obtain ⟨s, hs, -, hfound⟩ := hat 0 first rfl
  obtain ⟨t, ht, -, hcut⟩ := hat 1 second rfl
  exact ⟨hrest, hlength, ⟨s, hs, hfound.mpr hshallow⟩, t, ht, mt hcut.mp hdeep⟩

end Parley.Statement
