import Mathlib.Algebra.Order.BigOperators.Group.List
import Mathlib.Algebra.Order.Ring.Nat
import Parley.Proofs.Text.Decomposition
import Parley.Proofs.Statement.Acceptance
import Parley.Proofs.Statement.GrammarText
import Parley.Proofs.Statement.Tree

/-!
# How large compiled statements are

Chat is written by other players, so nothing may be gained by writing it oddly. Every node below the
root of a compiled statement comes from a group of its text, and every group has an opening bracket
that belongs to no other group, be it beside this one or inside it.

## Key results

- `Text.sum_count_groups_le`: groups share no bracket, neither with each other nor with what is in
  them
- `length_nodes_assemble`: completion keeps the number of nodes
- `length_nodes_compileWithin_le`: the nodes of compiled statements are paid for by brackets
-/

namespace Parley

namespace Text

/-- The opening brackets of a text are those of its groups, those inside the groups, and those of
what is never closed. -/
theorem Decomposition.count_text (d : Decomposition) :
    d.text.count '(' = (d.interiors.map fun g => 1 + g.count '(').sum + d.ending.count '(' := by
  induction d using Decomposition.induction with
  -- without groups, an opening bracket can only be one that is never closed
  | last d hnil =>
    have hrest := List.count_eq_zero.mpr d.not_mem_rest
    simp [text_of_groups_eq_nil hnil, interiors, hnil, hrest]
  | cons g d ih =>
    have hbefore := List.count_eq_zero.mpr g.not_mem_before
    have hinteriors : (cons g d).interiors = g.interior :: d.interiors := rfl
    have hending : (cons g d).ending = d.ending := rfl
    simp only [text_cons, hinteriors, hending, List.count_append, List.count_cons, hbefore, ih,
      List.map_cons, List.sum_cons]
    simp
    omega

/-- Groups share no opening bracket, neither with each other nor with the groups inside them. -/
theorem sum_count_groups_le (t : Text) :
    ((groups t).map fun g => 1 + g.count '(').sum ≤ t.count '(' := by
  obtain ⟨d, rfl⟩ := Decomposition.exists_decomposition t
  rw [d.groups_text, d.count_text]
  exact Nat.le_add_right ..

end Text

namespace Statement

/-- Completion changes heads and texts, but no node is added or lost. -/
theorem length_nodes_complete (subject : Agent) (s : Statement) :
    (complete subject s).nodes.length = s.nodes.length := by
  induction s generalizing subject with
  | node head operands text ih =>
    -- every operand is completed in a context of its own
    have hoperands : ∀ operand ∈ operands,
        (complete (operand.subject.orElse (head.spokenBy subject).context) operand).nodes.length =
          operand.nodes.length := fun operand ho => ih operand ho _
    rw [nodes_eq_cons, nodes_eq_cons, operands_complete, completeAll_eq_map, List.length_cons,
      List.length_cons, List.flatMap_map, List.length_flatMap, List.length_flatMap]
    exact congrArg (fun lengths => List.sum lengths + 1) (List.map_congr_left hoperands)

/-- A finished statement has one node more than its operands. -/
theorem length_nodes_assemble (head : Head) (operands : List Statement) :
    (assemble head operands).nodes.length =
      1 + (operands.map fun operand => operand.nodes.length).sum := by
  rw [assemble, finish, length_nodes_complete, nodes_eq_cons, List.length_cons,
    List.length_flatMap, Nat.add_comm]

/-- Groups pay for their nodes with the brackets around them and in them. -/
private theorem sum_length_nodes_le {compile : Text → Statement} (t : Text)
    (h : ∀ g ∈ Text.groups t, (compile g).nodes.length ≤ 1 + g.count '(') :
    (((Text.groups t).map compile).map fun s => s.nodes.length).sum ≤ t.count '(' := by
  -- each group pays for itself, and no bracket pays twice
  rw [List.map_map]
  exact (List.sum_le_sum h).trans (Text.sum_count_groups_le t)

/-- The root is free, and every other node is paid for by a bracket. -/
private theorem length_nodes_le_count (limit : Nat) (t : Text) :
    (compileWithin limit t).nodes.length ≤ 1 + t.count '(' := by
  -- strong induction on the limit, which the operands have less of
  induction limit using Nat.strongRecOn generalizing t with
  | ind limit ih =>
    rcases admissible_or_skip limit t with ⟨p, hread, hadmissible⟩ | hskip
    · obtain ⟨pattern, hgrammar⟩ := Phrase.ofText?_eq_some_iff.mp hread
      -- the operands are the groups of the text, each compiled with a level less
      have hgroups : ∀ g ∈ Text.groups t.trim,
          (compileWithin (limit - 1) g).nodes.length ≤ 1 + g.count '(' := by
        intro g hg
        rw [hgrammar.groups_eq] at hg
        exact ih _ (Nat.sub_one_lt_of_lt (hadmissible.pos hg)) g
      have hoperands := sum_length_nodes_le t.trim hgroups
      -- trimming takes no bracket away that could be needed
      have htrim := (Text.trim_infix t).sublist.count_le '('
      rw [compileWithin_eq_assemble hread hadmissible, length_nodes_assemble, ← hgrammar.groups_eq]
      omega
    · rw [hskip]
      exact Nat.le_add_right 1 _

/-- Hostile text gains nothing. Whatever the text and the limit, the statement that it compiles to
has one node at most besides those that its opening brackets pay for, and the statements embedded in
it have no more nodes altogether than it has opening brackets. -/
theorem length_nodes_compileWithin_le (limit : Nat) (t : Text) :
    (compileWithin limit t).nodes.length ≤ 1 + t.count '(' ∧
      ((embeddedIn t).flatMap nodes).length ≤ t.count '(' := by
  refine ⟨length_nodes_le_count limit t, ?_⟩
  rw [embeddedIn_eq_map, List.length_flatMap]
  exact sum_length_nodes_le t fun g _ => length_nodes_le_count _ g

/-- The bounds are met: three groups with a statement in each, two of them inside the third. -/
example :
    (compileWithin 2 "NOT (XOR (Over) (Skip))".toList).nodes.length = 4 ∧
      ((embeddedIn "so (NOT (Over)) and (Over)".toList).flatMap nodes).length = 3 := by
  decide +kernel

end Statement

end Parley
