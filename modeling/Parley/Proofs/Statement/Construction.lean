import Mathlib.Data.List.Basic
import Parley.Proofs.Statement.Compilation
import Parley.Proofs.Statement.PhraseText
import Parley.Statement.Draft

/-!
# Reading is building

A compound statement can be read from a text or built from its operands. This file proves that the
two come to the same: the text of an operator over a region compiles to what the constructor for
that operator builds from the compiled groups of the region.

## Key results

- `Connective.draft?_eq_some`: a constructor takes as many operands as the arity of its operator
- `compile_eq_build`: reading an operator and building it are the same
-/

namespace Parley

/-- The ways to join operands: an operator with its argument, if it takes one. -/
inductive Connective where
  | and | or | xor | because | not
  | onDay (day : Int32)
  | request (target : Agent)
  | inquire (target : Agent)
deriving DecidableEq, Repr

namespace Connective

/-- The operator that joins the operands. -/
def operator : Connective → Operator
  | and => .and
  | or => .or
  | xor => .xor
  | because => .because
  | not => .not
  | onDay _ => .day
  | request _ => .request
  | inquire _ => .inquire

/-- What is written from the keyword up to the space in front of the operands. An addressee may be
in any of its spellings. -/
inductive Written : Connective → Text → Prop where
  | and : Written .and "AND".toList
  | or : Written .or "OR".toList
  | xor : Written .xor "XOR".toList
  | because : Written .because "BECAUSE".toList
  | not : Written .not "NOT".toList
  | onDay {day : Int32} :
      Written (.onDay day) ("DAY".toList ++ Statement.field (Text.ofInt day.toInt))
  | request {target : Agent} {w : Text} (hw : target.Spelling w) :
      Written (.request target) ("REQUEST".toList ++ Statement.field w)
  | inquire {target : Agent} {w : Text} (hw : target.Spelling w) :
      Written (.inquire target) ("INQUIRE".toList ++ Statement.field w)

/-- The draft that the constructor for the operator begins, unless it is given too many operands or
too few. -/
def draft? : Connective → List Statement → Option Draft
  | and, operands => (Draft.and operands).toOption
  | or, operands => (Draft.or operands).toOption
  | xor, [first, second] => some (.xor first second)
  | because, [reason, action] => some (.because reason action)
  | not, [content] => some (.not content)
  | onDay day, [content] => some (.onDay day content)
  | request target, [action] => some (.request target action)
  | inquire target, [action] => some (.inquire target action)
  | _, _ => none

/-- The head of the statement, as spoken by an agent. -/
def headFor (c : Connective) (subject : Agent) : Head :=
  match c with
  | onDay day => { topic := .operator, operator := .day, subject, day }
  | request target => { topic := .operator, operator := .request, subject, target }
  | inquire target => { topic := .operator, operator := .inquire, subject, target }
  | _ => { topic := .operator, operator := c.operator, subject }

@[simp] theorem operator_headFor (c : Connective) (subject : Agent) :
    (c.headFor subject).operator = c.operator := by
  cases c <;> rfl

@[simp] theorem subject_headFor (c : Connective) (subject : Agent) :
    (c.headFor subject).subject = subject := by
  cases c <;> rfl

/-- Given as many operands as the operator takes, its constructor begins a draft, whose head is
known and whose operands are the given ones. -/
theorem draft?_eq_some (c : Connective) {operands : List Statement}
    (h : c.operator.arity.accepts operands.length) :
    c.draft? operands = some { toHead := c.headFor .unspec, operands } := by
  -- the arity says how many operands there are, and the constructor matches on as many
  have hone : ∀ {a : Arity}, a = .exactly 1 → a.accepts operands.length →
      ∃ operand, operands = [operand] := by
    intro a ha haccepts
    subst ha
    exact List.length_eq_one_iff.mp (beq_iff_eq.mp haccepts)
  have htwo : ∀ {a : Arity}, a = .exactly 2 → a.accepts operands.length →
      ∃ first second, operands = [first, second] := by
    intro a ha haccepts
    subst ha
    exact List.length_eq_two.mp (beq_iff_eq.mp haccepts)
  cases c with
  | and | or =>
    -- an empty list of operands is refused by the arity as it is by the constructor
    cases operands with
    | nil => exact nomatch h
    | cons _ _ => rfl
  | xor | because =>
    obtain ⟨first, second, rfl⟩ := htwo rfl h
    rfl
  | not | onDay | request | inquire =>
    obtain ⟨operand, rfl⟩ := hone rfl h
    rfl

/-- A constructor begins no draft of too many operands or too few. -/
private theorem accepts_of_draft? {c : Connective} {operands : List Statement} {draft : Draft}
    (h : c.draft? operands = some draft) : c.operator.arity.accepts operands.length := by
  unfold draft? at h
  split at h
  case h_1 | h_2 =>
    cases operands with
    | nil => contradiction
    | cons operand rest =>
      show decide (1 ≤ (operand :: rest).length) = true
      simp
  case h_9 => contradiction
  -- the other constructors match on as many operands as they take
  all_goals rfl

/-- A constructor begins a draft exactly if it is given as many operands as the operator takes. -/
theorem draft?_eq_some_iff {c : Connective} {operands : List Statement} {draft : Draft} :
    c.draft? operands = some draft ↔
      c.operator.arity.accepts operands.length ∧
        draft = { toHead := c.headFor .unspec, operands } := by
  constructor
  · intro h
    have haccepts := accepts_of_draft? h
    rw [c.draft?_eq_some haccepts] at h
    exact ⟨haccepts, (Option.some.inj h).symm⟩
  · rintro ⟨haccepts, rfl⟩
    exact c.draft?_eq_some haccepts

/-- What is written is the keyword of the operator and its arguments. -/
private theorem Written.arguments {c : Connective} {w : Text} (hw : c.Written w) (subject : Agent) :
    ∃ arguments, Phrase.Arguments (c.headFor subject) arguments ∧
      w = Vocabulary.spell c.operator ++ arguments := by
  -- only a day and an addressee stand between the keyword and the operands
  cases hw with
  | and | or | xor | because | not => exact ⟨[], .none (by decide), rfl⟩
  | onDay => exact ⟨_, .day, rfl⟩
  | request hw => exact ⟨_, .addressee rfl hw, rfl⟩
  | inquire hw => exact ⟨_, .addressee rfl hw, rfl⟩

end Connective

namespace Statement

/-- Reading agrees with building. An operator with a speaker in front, or none, and with a region
after it whose groups are as many as the operator takes, compiles to the statement that the
constructor builds from the compiled groups and that is spoken by this speaker. What is embedded in
a text is what the groups of the text compile to, with one level less than the default. -/
theorem compile_eq_build (limit : Nat) :
    (∀ {c : Connective} {k : Agent} {p w region : Text}, k.SpeakerPrefix p → c.Written w →
      Phrase.IsRegion region → c.operator.arity.accepts (Text.groups region).length →
      (c.draft? ((Text.groups region).map (compileWithin limit))).map
          (fun draft => (draft.spokenBy k).build) =
        some (compileWithin (limit + 1) (p ++ (w ++ field region)))) ∧
    ∀ t : Text, embeddedIn t = (Text.groups t).map (compileWithin 31) := by
  refine ⟨?_, embeddedIn_eq_map⟩
  intro c k p w region hp hw hregion haccepts
  have hcount : c.operator.arity.accepts
      ((Text.groups region).map (compileWithin limit)).length := by
    rwa [List.length_map]
  obtain ⟨arguments, harguments, rfl⟩ := hw.arguments k
  -- the text is read as the head of the operator and the whole region
  have hspeaker : (c.headFor k).subject.SpeakerPrefix p := by
    rwa [Connective.subject_headFor]
  have hread := Phrase.ofText?_compound hspeaker harguments hregion
  rw [Connective.operator_headFor, ← Phrase.trim_compound hp hregion] at hread
  rw [← Connective.operator_headFor c k] at haccepts
  -- so it compiles to the operands under that head, and the constructor makes the same
  rw [c.draft?_eq_some hcount, List.append_assoc, compileWithin_compound hread haccepts]
  -- a head may get its speaker first or last, which is the same for every operator
  cases c <;> rfl

/-- An inquiry with a spare zero in the addressee, over a group that is no statement. -/
theorem compile_eq_build_inquiry :
    ((Draft.inquire ⟨3⟩ (compileWithin 7 "no (statement)".toList)).spokenBy ⟨1⟩).build =
      compileWithin 8 "Agent[01] INQUIRE Agent[003] (no (statement))".toList := by
  have hspeaker : Agent.SpeakerPrefix ⟨1⟩ ("Agent[01]".toList ++ [' ']) :=
    .written (@Agent.Spelling.index ⟨1⟩ "01".toList (by decide) (List.all_eq_true.mp rfl) rfl)
  have hwritten :
      (Connective.inquire ⟨3⟩).Written ("INQUIRE".toList ++ field "Agent[003]".toList) :=
    .inquire (@Agent.Spelling.index ⟨3⟩ "003".toList (by decide) (List.all_eq_true.mp rfl) rfl)
  have hregion : Phrase.IsRegion "(no (statement))".toList := by
    constructor <;> decide
  exact Option.some.inj ((compile_eq_build 7).1 hspeaker hwritten hregion (by decide))

end Statement

end Parley
