import Parley.Proofs.Text.Slicing
import Parley.Proofs.Statement.Acceptance
import Parley.Proofs.Statement.GrammarText
import Parley.Proofs.Statement.CutSpeaker

/-!
# Compiling chat takes no misstep

Chat is written by other players, and no text of theirs may stop the program. Compilation is written
down here once more with every step that could be a misstep: groups are sliced out of the stored
text, the speaker of the first operand is asked for although there might be none, and operands are
compiled only if they are shorter than what they are operands of, on a level that the limit allows.
Each of these would be found out, and none of them happens.

## Key results

- `checkedOperands_eq_ok`: operands are compiled without a misstep if each of them is
- `checkedPhrase_eq_ok`: the first operand of a bare request is there to be asked
- `checkedAt_eq_ok`: compilation takes no misstep, at any depth
- `checked_eq_ok`: no text makes the library take a misstep
-/

namespace Parley

namespace Compilation

/-! ### Compilation with its missteps -/

/-- The first of some operands, which there must be. -/
def firstOperand? : List Statement → Except Misstep Statement
  | [] => .error .noOperand
  | operand :: _ => .ok operand

/-- The operands of a region at a depth below the limit, sliced out and compiled. -/
def checkedOperands (limit depth : Nat) (compile : Text → Except Misstep Compilation)
    (operator : Operator) (region : Text) : Except Misstep (Except Event (List Compilation)) :=
  if limit ≤ depth then return .error (.nestedTooDeeply depth)
  else do
    let groups ← Text.groups? region
    if operator.arity.accepts groups.length then return .ok (← groups.mapM compile)
    else return .error (.wrongOperandCount operator groups.length)

/-- Completes a phrase. Whom a bare request addresses is asked of its first operand. -/
def checkedPhrase (operands : Operator → Text → Except Misstep (Except Event (List Compilation))) :
    Phrase → Except Misstep (Except Event Compilation)
  | .simple head => return .ok (join (fun _ => head) [])
  | .compound head region => return (← operands head.operator region).map (join fun _ => head)
  | .bareRequest subject region => do
    match ← operands .request region with
    | .error cause => return .error cause
    | .ok compiled =>
      let first ← firstOperand? (compiled.map (·.statement))
      let head : Head := {
        topic := .operator, operator := .request, subject, target := first.subject.orElse .any }
      return .ok (join (fun _ => head) compiled)

/-- Goes on with a part of a text, which must be shorter than the text. -/
def ifShorter? {α : Type} (part whole : Text) (next : Except Misstep α) : Except Misstep α :=
  if String.utf8Len part < String.utf8Len whole then next else .error .notShorter

/-- Compiles the text of a statement at a depth. An operand must be shorter than the text, and it is
compiled one level deeper only if the limit allows. -/
def checkedAt (limit depth : Nat) (t : Text) : Except Misstep Compilation :=
  let text := t.trim
  match Phrase.ofText? text with
  | none => return ⟨.skip, [.unparseable text depth]⟩
  | some phrase => do
    let compile (group : Text) : Except Misstep Compilation :=
      ifShorter? group text <|
        if h : depth < limit then checkedAt limit (depth + 1) group else .error (.overflow limit)
    match ← checkedPhrase (checkedOperands limit depth compile) phrase with
    | .ok result => return { result with events := .matched :: result.events }
    | .error cause => return ⟨.skip, [.matched, cause, .unparseable text depth]⟩
termination_by limit - depth

/-- The statements of the groups of a text, sliced out and compiled. -/
def checkedEmbedded (t : Text) : Except Misstep (List Statement) := do
  let groups ← Text.groups? t
  groups.mapM fun group => ifShorter? group t do
    let depth ← increment? defaultLimit 0
    return (← checkedAt defaultLimit depth group).statement

/-! ### No misstep is taken -/

/-- A group is shorter than its text, so the check lets it pass. -/
theorem ifShorter?_of_mem_groups {α : Type} {group t : Text} (h : group ∈ Text.groups t)
    (next : Except Misstep α) : ifShorter? group t next = next :=
  if_pos (Text.utf8Len_of_mem_groups h)

variable {budget depth : Nat} {compile : Text → Except Misstep Compilation}

/-- Operands are compiled without a misstep if each of them is, as long as a level is left. -/
theorem checkedOperands_eq_ok {operator : Operator} {region : Text}
    (h : ∀ g ∈ Text.groups region, 0 < budget →
      compile g = .ok (atDepth (budget - 1) (depth + 1) g)) :
    checkedOperands (depth + budget) depth compile operator region =
      .ok (operands (operandAt budget depth) depth operator region) := by
  cases budget with
  | zero => exact if_pos (Nat.le_refl depth)
  | succ budget =>
    -- the groups are sliced out without a misstep and compiled one by one
    have hgroups := mapM_eq_pure fun g hg => h g hg (Nat.succ_pos budget)
    rw [checkedOperands, if_neg (by omega), Text.groups?_eq_ok]
    show (if operator.arity.accepts (Text.groups region).length then _ else _) = _
    rw [hgroups]
    by_cases haccepts : operator.arity.accepts (Text.groups region).length
    · rw [if_pos haccepts, operandAt, operands, if_pos haccepts]
      rfl
    · rw [if_neg haccepts, operandAt, operands, if_neg haccepts]
      rfl

/-- A request has an operand, so there is one to be asked for its speaker. -/
theorem operands_request_ne_nil {region : Text} {compiled : List Compilation}
    (h : operands (operandAt budget depth) depth .request region = .ok compiled) :
    compiled ≠ [] := by
  rintro rfl
  cases budget with
  | zero => simp [operandAt, operands] at h
  | succ budget =>
    rw [operandAt, operands] at h
    split at h
    · next haccepts =>
      -- one group is what a request takes
      have hnil : Text.groups region = [] := List.map_eq_nil_iff.mp (Except.ok.inj h)
      rw [hnil] at haccepts
      exact absurd haccepts (by decide)
    · simp at h

/-- A phrase is completed without a misstep if its operands are compiled without one. -/
theorem checkedPhrase_eq_ok {p : Phrase} (h : ∀ g ∈ p.groups, 0 < budget →
      compile g = .ok (atDepth (budget - 1) (depth + 1) g)) :
    checkedPhrase (checkedOperands (depth + budget) depth compile) p =
      .ok (ofPhrase (operands (operandAt budget depth) depth) p) := by
  cases p with
  | simple head => rfl
  | compound head region =>
    rw [checkedPhrase, checkedOperands_eq_ok h]
    rfl
  | bareRequest subject region =>
    rw [checkedPhrase, checkedOperands_eq_ok h, ofPhrase]
    -- only where operands are accepted is the first one asked
    cases hcompiled : operands (operandAt budget depth) depth .request region with
    | error cause => rfl
    | ok compiled =>
      cases compiled with
      | nil => exact absurd rfl (operands_request_ne_nil hcompiled)
      | cons first rest => rfl

/-- Compiling a text takes no misstep, whatever the depth it is found at. -/
theorem checkedAt_eq_ok (budget depth : Nat) (t : Text) :
    checkedAt (depth + budget) depth t = .ok (atDepth budget depth t) := by
  -- the limit is the depth and the levels that are left, and the induction is on these
  induction budget using Nat.strongRecOn generalizing depth t with
  | ind budget ih =>
    rw [checkedAt, atDepth_eq_step, step]
    cases hread : Phrase.ofText? t.trim with
    | none => rfl
    | some p =>
      obtain ⟨pattern, hgrammar⟩ := Phrase.ofText?_eq_some_iff.mp hread
      -- an operand is a group of the text, so it is shorter, and it has a level
      have hoperand : ∀ g ∈ p.groups, 0 < budget →
          (ifShorter? g t.trim <|
            if _ : depth < depth + budget then checkedAt (depth + budget) (depth + 1) g
            else .error (.overflow (depth + budget))) =
          .ok (atDepth (budget - 1) (depth + 1) g) := by
        intro g hg hpos
        rw [← hgrammar.groups_eq] at hg
        have hlimit : depth + budget = depth + 1 + (budget - 1) := by omega
        rw [ifShorter?_of_mem_groups hg, dif_pos (by omega), hlimit]
        exact ih (budget - 1) (by omega) (depth + 1) g
      have hphrase := checkedPhrase_eq_ok hoperand
      dsimp only
      rw [hphrase]
      cases ofPhrase (operands (operandAt budget depth) depth) p <;> rfl

/-- The statements embedded in a text are compiled without a misstep. -/
theorem checkedEmbedded_eq_ok (t : Text) :
    checkedEmbedded t = .ok (Statement.embeddedIn t) := by
  have hgroup : ∀ g ∈ Text.groups t, (ifShorter? g t do
      let depth ← increment? defaultLimit 0
      return (← checkedAt defaultLimit depth g).statement) =
        .ok (atDepth (defaultLimit - 1) 1 g).statement := by
    intro g hg
    have hcompiled := checkedAt_eq_ok (defaultLimit - 1) 1 g
    rw [ifShorter?_of_mem_groups hg]
    -- counting up from nothing stays in range
    show (checkedAt defaultLimit 1 g).bind _ = _
    rw [show defaultLimit = 1 + (defaultLimit - 1) from rfl, hcompiled]
    rfl
  rw [checkedEmbedded, Text.groups?_eq_ok]
  exact mapM_eq_pure hgroup

/-- No text makes the library take a misstep. Compiling it within any limit, and compiling what is
embedded in it, come to what they come to without a group whose slice is out of order or cuts a
character, without a counter out of its range, without a missing first operand, and without an
operand that is as long as what it belongs to or deeper than the limit. What is left of a text
without its speaker, or without the agent it begins with, is a slice of it as well. -/
theorem checked_eq_ok (limit : Nat) (t : Text) :
    checkedAt limit 0 t = .ok (ofText limit t) ∧
      checkedEmbedded t = .ok (Statement.embeddedIn t) ∧
      (Statement.stripSubject t).IsSlice t ∧
      t.trim.IsSlice t ∧ ∀ p ∈ Agent.read t.trim, p.2.IsSlice t.trim := by
  refine ⟨?_, checkedEmbedded_eq_ok t, ?_, Text.isSlice_of_infix (Text.trim_infix t), ?_⟩
  · have h := checkedAt_eq_ok limit 0 t
    rwa [Nat.zero_add] at h
  · exact Text.isSlice_of_infix (Statement.stripSubject_suffix t).isInfix
  · rintro ⟨a, rest⟩ hread
    -- what is behind the agent is the end of the text
    obtain ⟨w, -, htext, -⟩ := Agent.recognises_read.read_iff.mp hread
    exact Text.isSlice_of_infix ⟨w, [], by rw [htext, List.append_nil]⟩

end Compilation

end Parley
