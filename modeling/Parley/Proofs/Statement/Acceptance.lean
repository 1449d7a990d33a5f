import Parley.Proofs.Statement.Compilation

/-!
# Which texts are accepted

Compilation never fails, but it says what it gives up: a text is accepted if it is not given up
itself, whatever becomes of its operands. Accepted are exactly the texts of the grammar whose
operands are not too deep and as many as the operator takes.

## Key results

- `atDepth_cases`: a text is no phrase, or it is completed, or it is given up for a cause
- `le_depth_of_unparseable`: nothing is given up above the text that is compiled
- `not_unparseable_iff`: a text is accepted if it is a phrase with admissible operands
- `accepts_iff_grammar`: the texts that are accepted, and the head that is read off them
-/

namespace Parley

open Statement (compileWithin)

/-- A phrase has a level left for its operands, and as many of them as its operator takes. -/
def Phrase.Admissible (limit : Nat) : Phrase → Prop
  | simple _ => True
  | compound head region => 0 < limit ∧ head.operator.arity.accepts (Text.groups region).length
  | bareRequest _ region => 0 < limit ∧ Operator.request.arity.accepts (Text.groups region).length

/-- Where there are operands, a level is left for them. -/
theorem Phrase.Admissible.pos {limit : Nat} {p : Phrase} (h : p.Admissible limit) {group : Text}
    (hgroup : group ∈ p.groups) : 0 < limit := by
  cases p with
  | simple => exact nomatch hgroup
  | compound | bareRequest => exact h.1

/-- What is admissible within a limit is admissible within a wider one. -/
theorem Phrase.Admissible.mono {limit more : Nat} {p : Phrase} (h : p.Admissible limit)
    (hle : limit ≤ more) : p.Admissible more := by
  cases p with
  | simple => trivial
  | compound | bareRequest => exact ⟨Nat.lt_of_lt_of_le h.1 hle, h.2⟩

/-- How many levels are left does not matter as long as there is one. -/
theorem Phrase.Admissible.of_pos {limit more : Nat} {p : Phrase} (h : p.Admissible more)
    (hpos : 0 < limit) : p.Admissible limit := by
  cases p with
  | simple => trivial
  | compound | bareRequest => exact ⟨hpos, h.2⟩

/-- The head of the statement of a phrase. An open addressee is anybody, and a request that names
none addresses the speaker of its operand. -/
def Phrase.headWithin (limit : Nat) : Phrase → Head
  | simple head => head
  | compound head _ => head.spokenBy head.subject
  | bareRequest subject region =>
    { topic := .operator, operator := .request, subject,
      target := Compilation.impliedAddressee
        ((Text.groups region).map (compileWithin (limit - 1))) }

/-- Whether the event is a cause to give up a text that has the form of a statement. -/
def Event.isCause : Event → Bool
  | .nestedTooDeeply _ | .wrongOperandCount _ _ => true
  | .matched | .unparseable _ _ => false

namespace Compilation

/-- How the operands of a text at this depth are compiled; not at all if no level is left. -/
def operandAt : (budget depth : Nat) → Option (Text → Compilation)
  | 0, _ => none
  | budget + 1, depth => some (atDepth budget (depth + 1))

/-- Compilation is one step, given how the operands are compiled at this depth. -/
theorem atDepth_eq_step (budget depth : Nat) (t : Text) :
    atDepth budget depth t = step (operandAt budget depth) depth t := by
  cases budget <;> rfl

/-- Operands are compiled one by one, unless there is a cause why none are. -/
private theorem operands_cases (budget depth : Nat) (operator : Operator) (region : Text) :
    ((0 < budget ∧ operator.arity.accepts (Text.groups region).length) ∧
        operands (operandAt budget depth) depth operator region =
          .ok ((Text.groups region).map (atDepth (budget - 1) (depth + 1)))) ∨
      ¬ (0 < budget ∧ operator.arity.accepts (Text.groups region).length) ∧
        ∃ cause : Event, cause.isCause ∧
          operands (operandAt budget depth) depth operator region = .error cause := by
  -- the depth is checked before the number of operands
  cases budget with
  | zero => exact Or.inr ⟨by simp, .nestedTooDeeply depth, rfl, rfl⟩
  | succ budget =>
    by_cases haccepts : operator.arity.accepts (Text.groups region).length
    · exact Or.inl ⟨⟨Nat.succ_pos _, haccepts⟩, if_pos haccepts⟩
    · exact Or.inr ⟨fun h => haccepts h.2, .wrongOperandCount operator (Text.groups region).length,
        rfl, if_neg haccepts⟩

/-- A phrase is completed if its operands are admissible, and then all further events are theirs. -/
private theorem ofPhrase_cases (budget depth : Nat) (p : Phrase) :
    (p.Admissible budget ∧ ∃ result,
        ofPhrase (operands (operandAt budget depth) depth) p = .ok result ∧
        result.events = p.groups.flatMap fun g => (atDepth (budget - 1) (depth + 1) g).events) ∨
      ¬ p.Admissible budget ∧ ∃ cause : Event, cause.isCause ∧
        ofPhrase (operands (operandAt budget depth) depth) p = .error cause := by
  -- the events of the operands are joined in order, whatever head is put over them
  cases p with
  | simple head => exact Or.inl ⟨trivial, _, rfl, rfl⟩
  | compound head region =>
    rcases operands_cases budget depth head.operator region with
      ⟨hadmissible, h⟩ | ⟨hadmissible, cause, hcause, h⟩
    · exact Or.inl ⟨hadmissible, _, by rw [ofPhrase, h]; rfl, List.flatMap_map ..⟩
    · exact Or.inr ⟨hadmissible, cause, hcause, by rw [ofPhrase, h]; rfl⟩
  | bareRequest subject region =>
    rcases operands_cases budget depth .request region with
      ⟨hadmissible, h⟩ | ⟨hadmissible, cause, hcause, h⟩
    · exact Or.inl ⟨hadmissible, _, by rw [ofPhrase, h]; rfl, List.flatMap_map ..⟩
    · exact Or.inr ⟨hadmissible, cause, hcause, by rw [ofPhrase, h]; rfl⟩

/-- A text is no phrase, or it is one with admissible operands, whose events follow, or it is given
up for a cause. -/
theorem atDepth_cases (budget depth : Nat) (t : Text) :
    (Phrase.ofText? t.trim = none ∧
        atDepth budget depth t = ⟨.skip, [.unparseable t.trim depth]⟩) ∨
      (∃ p, Phrase.ofText? t.trim = some p ∧ p.Admissible budget ∧
        (atDepth budget depth t).events = .matched ::
          p.groups.flatMap fun g => (atDepth (budget - 1) (depth + 1) g).events) ∨
      ∃ p cause, Phrase.ofText? t.trim = some p ∧ ¬ p.Admissible budget ∧ cause.isCause ∧
        atDepth budget depth t = ⟨.skip, [.matched, cause, .unparseable t.trim depth]⟩ := by
  -- one step of compilation tells all that can be told about the text itself
  rw [atDepth_eq_step, step]
  cases hread : Phrase.ofText? t.trim with
  | none => exact Or.inl ⟨rfl, rfl⟩
  | some p =>
    rcases ofPhrase_cases budget depth p with
      ⟨hadmissible, result, h, hevents⟩ | ⟨hadmissible, cause, hcause, h⟩
    · exact Or.inr (Or.inl ⟨p, rfl, hadmissible, by simp only [h, hevents]⟩)
    · exact Or.inr (Or.inr ⟨p, cause, rfl, hadmissible, hcause, by simp only [h]⟩)

/-- The events of an accepted text: the match, and the events of its operands. -/
theorem events_of_admissible {budget : Nat} {t : Text} {p : Phrase}
    (hread : Phrase.ofText? t.trim = some p) (hadmissible : p.Admissible budget) (depth : Nat) :
    (atDepth budget depth t).events =
      .matched :: p.groups.flatMap fun g => (atDepth (budget - 1) (depth + 1) g).events := by
  rcases atDepth_cases budget depth t with
    ⟨hnone, -⟩ | ⟨q, hread', -, hlog⟩ | ⟨q, cause, hread', hrefused, -, -⟩
  · simp [hread] at hnone
  · rw [hread] at hread'
    cases hread'
    exact hlog
  · rw [hread] at hread'
    cases hread'
    exact absurd hadmissible hrefused

/-- Nothing is given up that is less deep than the text that is compiled. -/
theorem le_depth_of_unparseable {budget depth d : Nat} {t text : Text}
    (h : .unparseable text d ∈ (atDepth budget depth t).events) : depth ≤ d := by
  -- strong induction, as the levels left go down by a truncated subtraction
  induction budget using Nat.strongRecOn generalizing depth t with
  | ind budget ih =>
    rcases atDepth_cases budget depth t with
      ⟨-, hlog⟩ | ⟨p, -, hadmissible, hlog⟩ | ⟨p, cause, -, -, hcause, hlog⟩ <;> rw [hlog] at h
    · obtain ⟨-, rfl⟩ : text = t.trim ∧ d = depth := by simpa using h
      exact Nat.le_refl d
    · -- an operand is deeper, and what is given up there is at least as deep
      obtain ⟨group, hgroup, h⟩ : ∃ group ∈ p.groups,
          .unparseable text d ∈ (atDepth (budget - 1) (depth + 1) group).events := by
        simpa using h
      exact Nat.le_of_succ_le (ih _ (Nat.sub_one_lt_of_lt (hadmissible.pos hgroup)) h)
    · -- a cause is no such event
      have hne : .unparseable text d ≠ cause := by
        intro heq
        rw [← heq] at hcause
        exact nomatch hcause
      obtain ⟨-, rfl⟩ : text = t.trim ∧ d = depth := by simpa [hne] using h
      exact Nat.le_refl d

/-- A text is accepted exactly if it is a phrase with admissible operands. -/
theorem not_unparseable_iff (limit : Nat) (t : Text) :
    (∀ text, .unparseable text 0 ∉ (ofText limit t).events) ↔
      ∃ p, Phrase.ofText? t.trim = some p ∧ p.Admissible limit := by
  rw [ofText]
  constructor
  · intro h
    -- in two of the three cases the text itself is given up
    rcases atDepth_cases limit 0 t with
      ⟨-, hlog⟩ | ⟨p, hread, hadmissible, -⟩ | ⟨p, cause, -, -, -, hlog⟩
    · exact absurd (by simp [hlog]) (h t.trim)
    · exact ⟨p, hread, hadmissible⟩
    · exact absurd (by simp [hlog]) (h t.trim)
  · rintro ⟨p, hread, hadmissible⟩ text h
    -- what is given up below is deeper than the text itself
    rw [events_of_admissible hread hadmissible] at h
    obtain ⟨group, -, h⟩ : ∃ group ∈ p.groups,
        .unparseable text 0 ∈ (atDepth (limit - 1) (0 + 1) group).events := by
      simpa using h
    exact absurd (le_depth_of_unparseable h) (by decide)

end Compilation

namespace Statement

/-- A text that is no phrase with admissible operands compiles to `Skip`. -/
theorem compileWithin_of_not_admissible {limit : Nat} {t : Text}
    (h : ∀ p, Phrase.ofText? t.trim = some p → ¬ p.Admissible limit) :
    compileWithin limit t = skip := by
  rw [← statement_atDepth limit 0 t]
  -- one case has an admissible phrase, the others leave a `Skip`
  rcases Compilation.atDepth_cases limit 0 t with
    ⟨-, hlog⟩ | ⟨p, hread, hadmissible, -⟩ | ⟨p, cause, -, -, -, hlog⟩
  · rw [hlog]
  · exact absurd hadmissible (h p hread)
  · rw [hlog]

/-- A text is a phrase with admissible operands, or it compiles to `Skip`. -/
theorem admissible_or_skip (limit : Nat) (t : Text) :
    (∃ p, Phrase.ofText? t.trim = some p ∧ p.Admissible limit) ∨ compileWithin limit t = skip := by
  by_cases haccepted : ∃ p, Phrase.ofText? t.trim = some p ∧ p.Admissible limit
  · exact Or.inl haccepted
  · refine Or.inr (compileWithin_of_not_admissible ?_)
    exact fun p hread hadmissible => haccepted ⟨p, hread, hadmissible⟩

/-- A phrase that is refused compiles to `Skip`. -/
theorem compileWithin_of_refused {limit : Nat} {t : Text} {p : Phrase}
    (hread : Phrase.ofText? t.trim = some p) (hrefused : ¬ p.Admissible limit) :
    compileWithin limit t = skip := by
  apply compileWithin_of_not_admissible
  intro q hq
  rw [hread] at hq
  cases hq
  exact hrefused

/-- It makes no difference whether the speaker of a head has been filled in before. -/
theorem assemble_spokenBy (head : Head) (operands : List Statement) :
    assemble (head.spokenBy head.subject) operands = assemble head operands := by
  rw [assemble, assemble, finish, finish, complete, complete, Head.subject_spokenBy,
    Head.spokenBy_spokenBy]

/-- A bare request always addresses somebody, if only anybody. -/
theorem impliedAddressee_ne_unspec (operands : List Statement) :
    Compilation.impliedAddressee operands ≠ .unspec := by
  cases operands with
  | nil => decide
  | cons operand _ => exact Agent.orElse_ne_unspec (by decide)

/-- The statement of an accepted text: the head of its phrase over the compiled operands. -/
theorem compileWithin_eq_assemble {limit : Nat} {t : Text} {p : Phrase}
    (hread : Phrase.ofText? t.trim = some p) (hadmissible : p.Admissible limit) :
    compileWithin limit t =
      assemble (p.headWithin limit) (p.groups.map (compileWithin (limit - 1))) := by
  cases p with
  | simple head => exact compileWithin_simple hread limit
  | compound head region =>
    -- an admissible operator has a level to spend
    obtain ⟨limit, rfl⟩ := Nat.exists_eq_add_one_of_ne_zero (Nat.ne_of_gt hadmissible.1)
    rw [compileWithin_compound hread hadmissible.2]
    exact (assemble_spokenBy _ _).symm
  | bareRequest subject region =>
    obtain ⟨limit, rfl⟩ := Nat.exists_eq_add_one_of_ne_zero (Nat.ne_of_gt hadmissible.1)
    rw [compileWithin_succ, hread, Option.bind_some]
    simp only [ofPhrase?, operandsOf?, Option.bind_some, hadmissible.2, if_true, Option.map_some,
      Option.getD_some]
    rfl

/-- The head that a phrase stands for is complete. -/
theorem headWithin_spokenBy {p : Phrase} (hwf : p.WellFormed) (limit : Nat) :
    (p.headWithin limit).spokenBy (p.headWithin limit).subject = p.headWithin limit := by
  -- an addressee is filled in already, or there is none
  cases p with
  | simple head =>
    apply Head.spokenBy_subject
    intro haddress
    rw [Phrase.headWithin, hwf.1.operator_eq_nop hwf.2.1] at haddress
    exact nomatch haddress
  | compound head region => exact Head.spokenBy_spokenBy ..
  | bareRequest subject region =>
    exact Head.spokenBy_subject fun _ => impliedAddressee_ne_unspec _

/-- The head of an accepted text is the one of its phrase. -/
theorem toHead_compileWithin {limit : Nat} {t : Text} {p : Phrase}
    (hread : Phrase.ofText? t.trim = some p) (hadmissible : p.Admissible limit) :
    (compileWithin limit t).toHead = p.headWithin limit := by
  rw [compileWithin_eq_assemble hread hadmissible, assemble, finish, toHead_complete]
  exact headWithin_spokenBy (Phrase.wellFormed_of_ofText? hread) limit

end Statement

/-- Compilation accepts exactly the grammar. A text is not given up itself exactly if, without the
blanks around it, it follows a pattern and its operands are admissible. It follows one pattern in
one way only, so no order of the patterns matters. Its head is the head of the statement, and its
groups are compiled to the operands. -/
theorem Compilation.accepts_iff_grammar (limit : Nat) (t : Text) :
    ((∀ text, .unparseable text 0 ∉ (ofText limit t).events) ↔
        ∃ pattern p, Phrase.Grammar pattern t.trim p ∧ p.Admissible limit) ∧
      (∀ first second p q, Phrase.Grammar first t.trim p → Phrase.Grammar second t.trim q →
        first = second ∧ p = q) ∧
      ∀ pattern p, Phrase.Grammar pattern t.trim p → p.Admissible limit →
        (ofText limit t).statement.toHead = p.headWithin limit ∧
          (ofText limit t).statement =
            .assemble (p.headWithin limit) (p.groups.map (compileWithin (limit - 1))) := by
  refine ⟨?_, fun _ _ _ _ hp hq => hp.unique hq, ?_⟩
  · -- the reader and the grammar accept the same texts, so only the operands are left to be asked
    rw [not_unparseable_iff]
    constructor
    · rintro ⟨p, hread, hadmissible⟩
      obtain ⟨pattern, hgrammar⟩ := Phrase.ofText?_eq_some_iff.mp hread
      exact ⟨pattern, p, hgrammar, hadmissible⟩
    · rintro ⟨pattern, p, hgrammar, hadmissible⟩
      exact ⟨p, Phrase.ofText?_eq_some_iff.mpr ⟨pattern, hgrammar⟩, hadmissible⟩
  · intro pattern p hgrammar hadmissible
    have hread := Phrase.ofText?_eq_some_iff.mpr ⟨pattern, hgrammar⟩
    exact ⟨Statement.toHead_compileWithin hread hadmissible,
      Statement.compileWithin_eq_assemble hread hadmissible⟩

/-- A request by anybody that names no addressee, with odd gaps: one level is enough for it, and the
speaker of its operand becomes the addressee. Without a level it is given up. -/
theorem Compilation.accepts_iff_grammar_request :
    let t : Text := "\u00a0ANYREQUEST\t\n(Agent[003]VOTE ANY) ".toList
    let p := Phrase.bareRequest .any "(Agent[003]VOTE ANY)".toList
    Phrase.Grammar .bareRequest t.trim p ∧ p.Admissible 1 ∧
      (∀ text, .unparseable text 0 ∉ (ofText 1 t).events) ∧
      (ofText 1 t).statement.toHead =
        { topic := .operator, operator := .request, subject := .any, target := ⟨3⟩ } ∧
      ¬ ∀ text, .unparseable text 0 ∉ (ofText 0 t).events := by
  intro t p
  have hgap : Text.IsGap ['\t', '\n'] := ⟨List.cons_ne_nil _ _, by simp⟩
  have hregion : Phrase.IsRegion "(Agent[003]VOTE ANY)".toList := ⟨rfl, rfl⟩
  have htrim : t.trim = "ANY".toList ++ [] ++
      ("REQUEST".toList ++ (['\t', '\n'] ++ "(Agent[003]VOTE ANY)".toList)) := by decide +kernel
  have hgrammar : Phrase.Grammar .bareRequest t.trim p := by
    rw [htrim]
    exact .sentence (.written .any (List.forall_mem_nil _)) (.bareRequest hgap hregion)
  have hadmissible : p.Admissible 1 := ⟨by decide, by decide⟩
  obtain ⟨haccepted, -, hstatement⟩ := accepts_iff_grammar 1 t
  have hhead := (hstatement _ _ hgrammar hadmissible).1
  have hnamed : p.headWithin 1 =
      { topic := .operator, operator := .request, subject := .any, target := ⟨3⟩ } := by
    decide +kernel
  rw [hnamed] at hhead
  refine ⟨hgrammar, hadmissible, haccepted.mpr ⟨_, p, hgrammar, hadmissible⟩, hhead, ?_⟩
  -- within no level the text is still this phrase and no other, and this phrase is inadmissible
  obtain ⟨hrefused, hunique, -⟩ := accepts_iff_grammar 0 t
  intro hnone
  obtain ⟨pattern, q, hq, hlevel⟩ := hrefused.mp hnone
  obtain ⟨-, rfl⟩ := hunique _ _ _ _ hgrammar hq
  exact Nat.lt_irrefl 0 hlevel.1

end Parley
