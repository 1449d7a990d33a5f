import Parley.Proofs.Statement.Construction
import Parley.Proofs.Statement.ReadBack

/-!
# Who speaks below

Statements are built from the inside out, and every layer that is put around a statement completes
it again. The outcome is as if each open speaker had been looked up once, in the whole nested
expression: it is the one that the nearest statement around supplies.

## Key results

- `build?_eq_finish`: building step by step is completing once what the expression gives
- `map_toHead_at?_completeIn`: completion looks every speaker up along the path to its node
- `build?_nearest_ancestor`: the head at every place of what an expression builds
-/

namespace Parley

/-! ### Places in a tree -/

namespace Statement

/-- The node at a place. A place says at which operand to go on, from the root down. -/
def at? : List Nat → Statement → Option Statement
  | [], s => some s
  | i :: path, s => s.operands[i]?.bind (at? path)

/-- The heads of the statements around a place, the nearest one first. -/
def above : List Nat → Statement → List Head
  | [], _ => []
  | i :: path, s =>
    match s.operands[i]? with
    | none => []
    | some operand => above path operand ++ [s.toHead]

end Statement

/-! ### Looking up a speaker -/

/-- The first agent that is not left open. -/
def Agent.firstKnown (agents : List Agent) : Agent :=
  (agents.find? fun a => a ≠ .unspec).getD .unspec

/-- Whom a statement supplies as the speaker of what stands in it: a request or an inquiry its
addressee, who is anybody if none is named, and every other statement its own speaker, if it has
one. -/
def Head.supplied (head : Head) : Agent :=
  if head.operator.addressesTarget then
    if head.target = .unspec then .any else head.target
  else head.subject

/-- The head where the statements around it supply what it leaves open: its own speaker, or else the
first one that is supplied on the way up. Nothing else is filled in but an open addressee. -/
def Head.resolved (above : List Head) (head : Head) : Head :=
  { head with
    subject := Agent.firstKnown (head.subject :: above.map Head.supplied)
    target :=
      if head.operator.addressesTarget ∧ head.target = .unspec then .any else head.target }

namespace Agent

@[simp] theorem firstKnown_nil : firstKnown [] = unspec := rfl

/-- The first agent is taken unless it is open. -/
@[simp] theorem firstKnown_cons (a : Agent) (agents : List Agent) :
    firstKnown (a :: agents) = a.orElse (firstKnown agents) := by
  by_cases hopen : a = unspec
  · simp [firstKnown, hopen]
  · simp [firstKnown, hopen, orElse]

/-- The agents behind are asked only if all in front are open. -/
theorem firstKnown_append (agents others : List Agent) :
    firstKnown (agents ++ others) = (firstKnown agents).orElse (firstKnown others) := by
  induction agents with
  | nil => simp
  | cons a agents ih => simp [ih, orElse_assoc]

end Agent

namespace Head

/-- Resolving a head is giving it the speaker that is found on the way up. -/
theorem resolved_eq_spokenBy (above : List Head) (head : Head) :
    head.resolved above =
      head.spokenBy (head.subject.orElse (Agent.firstKnown (above.map supplied))) := by
  simp [resolved, spokenBy]

/-- What a completed statement hands on to its operands is what it supplies, or else what it has
been handed itself. -/
theorem context_spokenBy_orElse (head : Head) (context : Agent) :
    (head.spokenBy (head.subject.orElse context)).context = head.supplied.orElse context := by
  by_cases haddress : head.operator.addressesTarget = true
  · -- an addressee is always supplied, so nothing that is handed down passes it
    by_cases hopen : head.target = .unspec
    · have hany : Agent.any.orElse context = .any := Agent.orElse_of_ne (by decide) context
      simp [Head.context, spokenBy, supplied, haddress, hopen, hany]
    · simp [Head.context, spokenBy, supplied, haddress, hopen, Agent.orElse_of_ne hopen]
  · -- no addressee, so the speaker is handed on as it has been filled in
    simp [Head.context, spokenBy, supplied, haddress]

end Head

namespace Statement

/-- Completion looks every speaker up along the path to its node: what is left open there is
supplied by the statements around it, and in the end by the context of the whole. -/
theorem map_toHead_at?_completeIn (context : Agent) (s : Statement) (path : List Nat) :
    ((completeIn context s).at? path).map Statement.toHead =
      (s.at? path).map fun n =>
        n.toHead.spokenBy (n.subject.orElse
          ((Agent.firstKnown ((s.above path).map Head.supplied)).orElse context)) := by
  -- induction on the place; an operand has another context, so the context is general
  induction path generalizing context s with
  | nil => simp [at?, above, completeIn, toHead_complete]
  | cons i path ih =>
    have hcontext := s.toHead.context_spokenBy_orElse context
    -- one step down, an operand is completed in what the root supplies or has been handed
    have hoperand : (completeIn context s).operands[i]? =
        s.operands[i]?.map (completeIn (s.toHead.supplied.orElse context)) := by
      rw [completeIn, operands_complete, completeAll_eq_map, hcontext, List.getElem?_map]
      rfl
    rw [at?, at?, above, hoperand]
    cases s.operands[i]? with
    | none => rfl
    | some operand =>
      -- the statement itself is the last one on the way up from below
      simp [ih, Agent.firstKnown_append, Agent.orElse_assoc]

end Statement

/-! ### Nested expressions -/

/-- A nested expression of constructors: a simple draft, or a constructor that an agent applies to
the statements which other expressions build. An agent that is left open is one that is not
given. -/
inductive Expression where
  | simple (draft : Draft) (made : draft.Made) (leaf : draft.operands = [])
  | joined (c : Connective) (subject : Agent) (operands : List Expression)

namespace Expression

/-- A property holds of every expression if it holds of the simple ones and of those that join
expressions of which it holds. -/
@[elab_as_elim, induction_eliminator]
theorem induction {motive : Expression → Prop}
    (simple : ∀ draft made leaf, motive (simple draft made leaf))
    (joined : ∀ c subject operands, (∀ operand ∈ operands, motive operand) →
      motive (joined c subject operands)) (e : Expression) : motive e := by
  -- the second motive is about lists of operands
  refine Expression.rec (motive_1 := motive)
    (motive_2 := fun operands => ∀ operand ∈ operands, motive operand) simple joined ?_ ?_ e
  · exact fun _ hmem => nomatch hmem
  · intro first rest ihfirst ihrest
    exact List.forall_mem_cons.mpr ⟨ihfirst, ihrest⟩

mutual

/-- What the expression gives: the heads as they are given to the constructors, before anything is
filled in or written. -/
def given : Expression → Statement
  | simple draft _ _ => ⟨draft.toHead, [], []⟩
  | joined c subject operands => ⟨c.headFor subject, givenAll operands, []⟩

/-- What the operands of an expression give. -/
def givenAll : List Expression → List Statement
  | [] => []
  | e :: rest => given e :: givenAll rest

end

mutual

/-- The statement that the expression builds. Every operand is built before a constructor is applied
to it, and a constructor refuses operands that are too many or too few. -/
def build? : Expression → Option Statement
  | simple draft _ _ => some draft.build
  | joined c subject operands =>
    ((buildAll? operands).bind c.draft?).map fun draft => (draft.spokenBy subject).build

/-- The statements that the operands of an expression build. -/
def buildAll? : List Expression → Option (List Statement)
  | [] => some []
  | e :: rest => (build? e).bind fun s => (buildAll? rest).map (s :: ·)

end

/-- The operands give what each of them gives. -/
theorem givenAll_eq_map (operands : List Expression) : givenAll operands = operands.map given := by
  induction operands with
  | nil => rfl
  | cons e rest ih => rw [givenAll, ih, List.map_cons]

/-! ### Building is completing once -/

/-- Statements that are finished first are completed as operands like the given ones. -/
private theorem finish_finished (head : Head) (operands : List Statement) :
    Statement.finish ⟨head, operands.map Statement.finish, []⟩ =
      Statement.finish ⟨head, operands, []⟩ := by
  -- `completeIn_finish` forgets the completion of each operand, in every context
  have hoperands : ∀ context, Statement.completeAll context (operands.map Statement.finish) =
      Statement.completeAll context operands := by
    intro context
    rw [Statement.completeAll_eq_map, Statement.completeAll_eq_map, List.map_map]
    exact List.map_congr_left fun operand _ => Statement.completeIn_finish context operand
  simp only [Statement.finish, Statement.complete, hoperands]

/-- Operands that can be built are the finished statements of what they give. -/
private theorem buildAll?_eq_some {operands : List Expression} {built : List Statement}
    (ih : ∀ e ∈ operands, ∀ s, e.build? = some s → s = e.given.finish)
    (h : buildAll? operands = some built) : built = (operands.map given).map Statement.finish := by
  induction operands generalizing built with
  | nil => simpa [buildAll?] using h.symm
  | cons e rest ihrest =>
    obtain ⟨hfirst, hrest⟩ := List.forall_mem_cons.mp ih
    -- the first operand is built, and then the rest
    simp only [buildAll?, Option.bind_eq_some_iff, Option.map_eq_some_iff] at h
    obtain ⟨s, hs, others, hothers, rfl⟩ := h
    rw [hfirst s hs, ihrest hrest hothers]
    rfl

/-- Building step by step is completing once what the expression gives. -/
theorem build?_eq_finish {e : Expression} {s : Statement} (h : e.build? = some s) :
    s = e.given.finish := by
  -- the operands have been finished on their own before the constructor sees them
  induction e generalizing s with
  | simple draft made leaf =>
    cases h
    rw [given, ← leaf]
    rfl
  | joined c subject operands ih =>
    simp only [build?, Option.map_eq_some_iff, Option.bind_eq_some_iff] at h
    obtain ⟨draft, ⟨built, hbuilt, hdraft⟩, rfl⟩ := h
    obtain ⟨-, rfl⟩ := Connective.draft?_eq_some_iff.mp hdraft
    -- the speaker is given to the draft, and in the expression it is given to the head
    have hhead : ({ c.headFor .unspec with subject } : Head) = c.headFor subject := by
      cases c <;> rfl
    rw [buildAll?_eq_some (fun e he s => ih e he) hbuilt, given, givenAll_eq_map,
      ← finish_finished, ← hhead]
    rfl

/-- All operands can be built if each of them can. -/
private theorem exists_buildAll?_iff {operands : List Expression} :
    (∃ built, buildAll? operands = some built) ↔
      ∀ e ∈ operands, ∃ s, e.build? = some s := by
  induction operands with
  | nil => simp [buildAll?]
  | cons e rest ih =>
    rw [List.forall_mem_cons, ← ih]
    simp only [buildAll?, Option.bind_eq_some_iff, Option.map_eq_some_iff]
    constructor
    · rintro ⟨_, s, hs, others, hothers, rfl⟩
      exact ⟨⟨s, hs⟩, others, hothers⟩
    · rintro ⟨⟨s, hs⟩, others, hothers⟩
      exact ⟨_, s, hs, others, hothers, rfl⟩

/-- One statement is built for each operand. -/
private theorem length_of_buildAll? {operands : List Expression} {built : List Statement}
    (h : buildAll? operands = some built) : built.length = operands.length := by
  rw [buildAll?_eq_some (fun e _ s hs => build?_eq_finish hs) h, List.length_map, List.length_map]

/-- An expression builds a statement exactly if every constructor in it takes as many operands as it
is applied to. -/
theorem exists_build?_iff (e : Expression) :
    (∃ s, e.build? = some s) ↔
      ∀ n ∈ e.given.nodes, n.operator.arity.accepts n.operands.length := by
  induction e with
  | simple draft made leaf =>
    have haccepts := (made.shaped []).arity
    rw [leaf] at haccepts
    rw [given, Statement.nodes_leaf rfl]
    exact iff_of_true ⟨_, rfl⟩ (List.forall_mem_singleton.mpr haccepts)
  | joined c subject operands ih =>
    -- below the root the induction speaks of each operand
    have hbelow : (∀ e ∈ operands, ∃ s, e.build? = some s) ↔
        ∀ o ∈ operands.map given, ∀ n ∈ o.nodes,
          n.operator.arity.accepts n.operands.length := by
      rw [List.forall_mem_map]
      exact forall₂_congr ih
    rw [given, givenAll_eq_map, Statement.forall_nodes_iff, Connective.operator_headFor,
      List.length_map, ← hbelow, ← exists_buildAll?_iff]
    simp only [build?, Option.map_eq_some_iff, Option.bind_eq_some_iff,
      Connective.draft?_eq_some_iff]
    -- the constructor counts the statements that were built, the tree counts the operands
    constructor
    · rintro ⟨_, _, ⟨built, hbuilt, haccepts, rfl⟩, rfl⟩
      rw [length_of_buildAll? hbuilt] at haccepts
      exact ⟨haccepts, built, hbuilt⟩
    · rintro ⟨haccepts, built, hbuilt⟩
      rw [← length_of_buildAll? hbuilt] at haccepts
      exact ⟨_, _, ⟨built, hbuilt, haccepts, rfl⟩, rfl⟩

/-- The rule of the nearest ancestor. An expression builds a statement exactly if its constructors
take as many operands as they are applied to. The statement has the shape of the expression, and at
every place its head is the one that the expression gives there, resolved in the statements around:
an open speaker is the first one that they supply on the way up, and an open addressee is
anybody. -/
theorem build?_nearest_ancestor (e : Expression) :
    ((∃ s, e.build? = some s) ↔
        ∀ n ∈ e.given.nodes, n.operator.arity.accepts n.operands.length) ∧
      ∀ s, e.build? = some s → ∀ path,
        (s.at? path).map Statement.toHead =
          (e.given.at? path).map fun n => n.toHead.resolved (e.given.above path) := by
  refine ⟨exists_build?_iff e, ?_⟩
  intro s h path
  rw [build?_eq_finish h, Statement.finish_eq_completeIn, Statement.map_toHead_at?_completeIn]
  -- nothing stands around the whole, so its context is open
  simp only [Head.resolved_eq_spokenBy, Agent.orElse_unspec]

/-- A request that is spoken by nobody and addresses nobody, because of a conjunction, as said by an
agent: what is in the conjunction is spoken by the agent, and what is in the request by anybody. -/
theorem build?_nearest_ancestor_because :
    let vote := Expression.simple (.vote ⟨4⟩) (.vote _) rfl
    let e := Expression.joined .because ⟨1⟩ [.joined .and .unspec [vote, vote],
      .joined (.request .unspec) .unspec [.joined .not .unspec [vote]]]
    ∃ s, e.build? = some s ∧
      (s.at? [0, 1]).map Statement.toHead = some { topic := .vote, subject := ⟨1⟩, target := ⟨4⟩ } ∧
      (s.at? [1]).map Statement.toHead =
        some { topic := .operator, operator := .request, subject := ⟨1⟩, target := .any } ∧
      (s.at? [1, 0, 0]).map Statement.toHead =
        some { topic := .vote, subject := .any, target := ⟨4⟩ } := by
  intro vote e
  obtain ⟨hbuilds, hheads⟩ := build?_nearest_ancestor e
  -- every constructor has as many operands as it takes
  obtain ⟨s, hs⟩ := hbuilds.mpr (by decide)
  refine ⟨s, hs, ?_, ?_, ?_⟩ <;> rw [hheads s hs] <;> rfl

end Expression

end Parley
