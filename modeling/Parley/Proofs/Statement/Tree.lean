import Parley.Statement.Completion
import Parley.Proofs.List

/-!
# Statements as trees

A statement is a tree of heads. This file has the induction over such trees, the list of a tree's
nodes, its depth in operators, and the trees that arise by changing every head or by cutting off
what lies too deep.

## Key results

- `Statement.induction`: a property holds of a statement when it is inherited from the operands
- `forall_nodes_iff`: what holds of every node holds of the root and of every node of an operand
- `forall_nodes_complete`: what completion establishes at one node holds at every node
- `fits_succ_iff`: a compound statement fits into a limit when its operands fit into one less
-/

namespace Parley.Statement

/-- A property holds of every statement if a statement has it whenever all its operands do. -/
@[elab_as_elim, induction_eliminator]
theorem induction {motive : Statement → Prop}
    (node : ∀ (head : Head) (operands : List Statement) (text : Text),
      (∀ operand ∈ operands, motive operand) → motive ⟨head, operands, text⟩)
    (s : Statement) : motive s := by
  -- the second motive is about lists of operands
  refine Statement.rec (motive_1 := motive)
    (motive_2 := fun operands => ∀ operand ∈ operands, motive operand) ?_ ?_ ?_ s
  · exact node
  · intro operand hmem
    exact absurd hmem List.not_mem_nil
  · intro first rest ihfirst ihrest operand hmem
    cases hmem with
    | head => exact ihfirst
    | tail _ hmem => exact ihrest operand hmem

/-! ### Nodes -/

mutual

/-- The nodes of a statement, from the root on: each before its operands. -/
def nodes : Statement → List Statement
  | ⟨head, operands, text⟩ => ⟨head, operands, text⟩ :: nodesAll operands

/-- The nodes of the operands of a statement, in order. -/
def nodesAll : List Statement → List Statement
  | [] => []
  | operand :: rest => nodes operand ++ nodesAll rest

end

/-- The nodes of operands are those of each of them, one after the other. -/
theorem nodesAll_eq_flatMap (operands : List Statement) :
    nodesAll operands = operands.flatMap nodes := by
  induction operands with
  | nil => rfl
  | cons operand rest ih => rw [nodesAll, ih, List.flatMap_cons]

/-- The nodes of a statement are the statement itself and those of its operands. -/
theorem nodes_eq_cons (s : Statement) : s.nodes = s :: s.operands.flatMap nodes := by
  cases s
  rw [nodes, nodesAll_eq_flatMap]

/-- A statement without operands is its only node. -/
theorem nodes_leaf {s : Statement} (hnil : s.operands = []) : s.nodes = [s] := by
  rw [nodes_eq_cons, hnil, List.flatMap_nil]

/-- A statement is a node of itself. -/
theorem mem_nodes_self (s : Statement) : s ∈ s.nodes := by
  rw [nodes_eq_cons]
  exact List.mem_cons_self

/-- The nodes of an operand are nodes of the statement. -/
theorem mem_nodes_of_mem_operands {s operand n : Statement} (ho : operand ∈ s.operands)
    (hn : n ∈ operand.nodes) : n ∈ s.nodes := by
  rw [nodes_eq_cons]
  exact List.mem_cons_of_mem _ (List.mem_flatMap_of_mem ho hn)

/-- What holds of every node holds of the root and of every node of an operand, and the other way
round. -/
theorem forall_nodes_iff {P : Statement → Prop} {s : Statement} :
    (∀ n ∈ s.nodes, P n) ↔ P s ∧ ∀ operand ∈ s.operands, ∀ n ∈ operand.nodes, P n := by
  rw [nodes_eq_cons]
  simp only [List.mem_cons, List.mem_flatMap]
  constructor
  · intro h
    exact ⟨h s (Or.inl rfl), fun operand ho n hn => h n (Or.inr ⟨operand, ho, hn⟩)⟩
  · intro h n hn
    rcases hn with rfl | ⟨operand, ho, hn⟩
    · exact h.1
    · exact h.2 operand ho n hn

/-- What completion establishes at the root, given a property of the statement that it starts from,
it establishes at every node. -/
theorem forall_nodes_complete {P Q : Statement → Prop}
    (root : ∀ s subject, Q s → P (complete subject s)) {s : Statement}
    (h : ∀ n ∈ s.nodes, Q n) (subject : Agent) : ∀ n ∈ (complete subject s).nodes, P n := by
  -- an operand is completed by another agent than the statement is
  induction s generalizing subject with
  | node head operands text ih =>
    obtain ⟨hself, hbelow⟩ := forall_nodes_iff.mp h
    rw [forall_nodes_iff]
    refine ⟨root _ subject hself, ?_⟩
    intro completed hmem
    rw [operands_complete, completeAll_eq_map] at hmem
    -- an operand of the completion is the completion of an operand
    obtain ⟨operand, ho, rfl⟩ := List.mem_map.mp hmem
    exact ih operand ho (hbelow operand ho) _

/-! ### Nesting -/

mutual

/-- How many levels of operators there are, one inside the other. -/
def nesting : Statement → Nat
  | ⟨head, operands, _⟩ => (if head.topic = .operator then 1 else 0) + nestingAll operands

/-- The deepest nesting among operands. -/
def nestingAll : List Statement → Nat
  | [] => 0
  | operand :: rest => max (nesting operand) (nestingAll rest)

end

/-- Operands fit into a limit if each of them does. -/
theorem nestingAll_le_iff {operands : List Statement} {limit : Nat} :
    nestingAll operands ≤ limit ↔ ∀ operand ∈ operands, operand.nesting ≤ limit := by
  induction operands with
  | nil => simp [nestingAll]
  | cons operand rest ih => rw [nestingAll, Nat.max_le, ih, List.forall_mem_cons]

/-- A compound statement fits into a limit when one level is left for it and its operands fit into
the rest. -/
theorem nesting_le_iff {s : Statement} (h : s.topic = .operator) {limit : Nat} :
    s.nesting ≤ limit ↔ 0 < limit ∧ ∀ operand ∈ s.operands, operand.nesting ≤ limit - 1 := by
  obtain ⟨head, operands, text⟩ := s
  have htopic : head.topic = .operator := h
  rw [nesting, if_pos htopic, ← nestingAll_le_iff]
  -- what is left is arithmetic about the one level of the root
  dsimp only
  omega

/-- A simple statement has no level of operators. -/
theorem nesting_leaf {s : Statement} (hsimple : s.topic ≠ .operator) (hnil : s.operands = []) :
    s.nesting = 0 := by
  obtain ⟨head, operands, text⟩ := s
  have hnil : operands = [] := hnil
  rw [nesting, if_neg hsimple, hnil, nestingAll]

/-- The statement says something everywhere, and it has at most `limit` levels of operators. -/
def Fits (limit : Nat) (s : Statement) : Prop :=
  s.nesting ≤ limit ∧ ∀ n ∈ s.nodes, n.topic ≠ .dummy

/-- A simple statement that says something fits into every limit. -/
theorem fits_leaf {s : Statement} (hsimple : s.topic ≠ .operator) (hfull : s.topic ≠ .dummy)
    (hnil : s.operands = []) (limit : Nat) : s.Fits limit := by
  rw [Fits, nesting_leaf hsimple hnil, nodes_leaf hnil]
  exact ⟨Nat.zero_le limit, by simpa using hfull⟩

/-- A statement that says nothing fits into no limit. -/
theorem not_fits_dummy {s : Statement} (h : s.topic = .dummy) (limit : Nat) : ¬ s.Fits limit :=
  fun hfits => hfits.2 s (mem_nodes_self s) h

/-- A compound statement needs one level at least. -/
theorem not_fits_zero {s : Statement} (h : s.topic = .operator) : ¬ s.Fits 0 := by
  intro hfits
  have hlevel := ((nesting_le_iff h).mp hfits.1).1
  omega

/-- A compound statement fits if its operands fit into one level less. -/
theorem fits_succ_iff {s : Statement} (h : s.topic = .operator) {limit : Nat} :
    s.Fits (limit + 1) ↔ ∀ operand ∈ s.operands, operand.Fits limit := by
  have hfull : s.topic ≠ .dummy := by
    rw [h]
    decide
  -- the root itself says something, so only the operands are asked
  rw [Fits, nesting_le_iff h, forall_nodes_iff]
  constructor
  · intro hfits operand ho
    obtain ⟨⟨_, hnesting⟩, _, hnodes⟩ := hfits
    exact ⟨hnesting operand ho, hnodes operand ho⟩
  · intro hfits
    refine ⟨⟨Nat.succ_pos limit, ?_⟩, hfull, ?_⟩
    · exact fun operand ho => (hfits operand ho).1
    · exact fun operand ho => (hfits operand ho).2

/-! ### Changing heads -/

mutual

/-- The statement with every head changed by `f` and every text kept. -/
def mapHeads (f : Head → Head) : Statement → Statement
  | ⟨head, operands, text⟩ => ⟨f head, mapHeadsAll f operands, text⟩

/-- The operands with every head changed. -/
def mapHeadsAll (f : Head → Head) : List Statement → List Statement
  | [] => []
  | operand :: rest => mapHeads f operand :: mapHeadsAll f rest

end

/-- The operands are changed one by one. -/
theorem mapHeadsAll_eq_map (f : Head → Head) (operands : List Statement) :
    mapHeadsAll f operands = operands.map (mapHeads f) := by
  induction operands with
  | nil => rfl
  | cons operand rest ih => rw [mapHeadsAll, ih, List.map_cons]

/-- Where there are no operands, the head of the root is all that changes. -/
theorem mapHeads_leaf {s : Statement} (hnil : s.operands = []) (f : Head → Head) :
    s.mapHeads f = ⟨f s.toHead, [], s.text⟩ := by
  obtain ⟨head, operands, text⟩ := s
  have hnil : operands = [] := hnil
  rw [hnil, mapHeads, mapHeadsAll]

/-! ### Cutting off -/

mutual

/-- The statement with a `Skip` in place of every statement that says nothing, and of every compound
statement that has `limit` or more statements around it. -/
def truncate (limit : Nat) : Statement → Statement
  | ⟨head, operands, text⟩ =>
    if head.topic = .dummy ∨ head.topic = .operator ∧ limit = 0 then skip
    else ⟨head, truncateAll (limit - 1) operands, text⟩

/-- The operands, each cut off at the same depth. -/
def truncateAll (limit : Nat) : List Statement → List Statement
  | [] => []
  | operand :: rest => truncate limit operand :: truncateAll limit rest

end

/-- The operands are cut off one by one. -/
theorem truncateAll_eq_map (limit : Nat) (operands : List Statement) :
    truncateAll limit operands = operands.map (truncate limit) := by
  induction operands with
  | nil => rfl
  | cons operand rest ih => rw [truncateAll, ih, List.map_cons]

end Parley.Statement
