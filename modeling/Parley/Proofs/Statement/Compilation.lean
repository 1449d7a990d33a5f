import Parley.Proofs.Statement.Grammar
import Parley.Proofs.Statement.Invariant
import Parley.Statement.Compilation

/-!
# The statement that a text compiles to

Compilation tells its events and counts its depth on the way. The statement alone depends on
neither, and it satisfies a recursion on the limit of nesting.

## Key results

- `wellFormed_of_ofText?`: every phrase that is read has a well-formed head
- `statement_atDepth`: the statement of a text depends on the levels that are left, not on its depth
- `compileWithin_zero` / `compileWithin_succ`: the recursion, without events
- `compileWithin_eq_getD`: both at once, given how operands are compiled within a limit
- `compileWithin_induction`: what holds of simple statements and is passed on by operators holds of
  every statement that a text compiles to
-/

namespace Parley

namespace Phrase

/-- The texts of the operands of a phrase. -/
def groups : Phrase → List Text
  | simple _ => []
  | compound _ region | bareRequest _ region => Text.groups region

/-- What phrases are like when they are read: a simple statement says something, a bare one has no
speaker, and a compound one has an operator. -/
def WellFormed : Phrase → Prop
  | simple head => head.WellFormed ∧ head.topic ≠ .operator ∧ head.topic ≠ .dummy ∧
      (head.topic.form = .bare → head.subject = .unspec)
  | compound head _ => head.WellFormed ∧ head.topic = .operator
  | bareRequest _ _ => True

/-- The grammar has well-formed phrases only. -/
theorem Grammar.wellFormed {pattern : Pattern} {t : Text} {p : Phrase} (h : Grammar pattern t p) :
    p.WellFormed := by
  -- a form that is written is neither empty nor compound, and this rules out the other topics
  have hsimple : ∀ {head : Head} {form : Form}, head.WellFormed → head.topic.form = form →
      form ≠ .empty ∧ form ≠ .compound → (form = .bare → head.subject = .unspec) →
      (simple head).WellFormed := by
    rintro head _ hhead rfl hne hbare
    refine ⟨hhead, ?_, ?_, hbare⟩
    · intro htopic
      exact hne.2 (by rw [htopic]; rfl)
    · intro htopic
      exact hne.1 (by rw [htopic]; rfl)
  -- the clause says which fields there are, and the head has these and no others
  cases h with
  | bare hkeyword =>
    exact hsimple (Head.wellFormed_bare (Or.inl hkeyword.form_eq) .unspec) hkeyword.form_eq
      (by decide) fun _ => rfl
  | @sentence speaker _ _ _ _ _ hbody =>
    cases hbody with
    | agreement hkeyword =>
      exact hsimple (Head.wellFormed_agreement hkeyword.form_eq speaker _ _ _) hkeyword.form_eq
        (by decide) fun hbare => nomatch hbare
    | claim hkeyword =>
      exact hsimple (Head.wellFormed_claim hkeyword.form_eq speaker _ _) hkeyword.form_eq
        (by decide) fun hbare => nomatch hbare
    | finding hkeyword =>
      exact hsimple (Head.wellFormed_finding hkeyword.form_eq speaker _ _) hkeyword.form_eq
        (by decide) fun hbare => nomatch hbare
    | action hkeyword =>
      exact hsimple (Head.wellFormed_action hkeyword.form_eq speaker _) hkeyword.form_eq
        (by decide) fun hbare => nomatch hbare
    | @addressed operator _ _ _ _ _ hkeyword =>
      have haddress := (keyword_addresses.mp hkeyword).1
      -- the operator that marks simple statements addresses nobody
      have hne : operator ≠ .nop := by
        intro hnop
        rw [hnop] at haddress
        exact nomatch haddress
      exact ⟨Head.wellFormed_compound hne speaker (fun hnone => absurd haddress (by simp [hnone]))
        fun _ => rfl, rfl⟩
    | connective hkeyword =>
      exact ⟨Head.wellFormed_compound (keyword_connectives.mp hkeyword).1.1 speaker (fun _ => rfl)
        fun _ => rfl, rfl⟩
    | bareRequest => trivial
    | dated =>
      exact ⟨Head.wellFormed_compound (by decide) speaker (fun _ => rfl)
        fun hne => absurd rfl hne, rfl⟩

/-- Every phrase that is read is well-formed. -/
theorem wellFormed_of_ofText? {t : Text} {p : Phrase} (h : ofText? t = some p) : p.WellFormed := by
  obtain ⟨pattern, hgrammar⟩ := ofText?_eq_some_iff.mp h
  exact hgrammar.wellFormed

end Phrase

namespace Statement

/-- The operands of a region, given how to compile one of them. -/
def operandsOf? (compileOperand : Option (Text → Statement)) (operator : Operator)
    (region : Text) : Option (List Statement) :=
  compileOperand.bind fun compile =>
    let groups := Text.groups region
    if operator.arity.accepts groups.length then some (groups.map compile) else none

/-- The statement of a phrase, given how to compile an operand. -/
def ofPhrase? (compileOperand : Option (Text → Statement)) : Phrase → Option Statement
  | .simple head => some (assemble head [])
  | .compound head region =>
    (operandsOf? compileOperand head.operator region).map (assemble head)
  | .bareRequest subject region =>
    (operandsOf? compileOperand .request region).map fun operands =>
      assemble { topic := .operator, operator := .request, subject,
                 target := Compilation.impliedAddressee operands } operands

/-- The operands are compiled, or refused, whatever is told about it. -/
private theorem toOption_operands (compileOperand : Option (Text → Compilation)) (depth : Nat)
    (operator : Operator) (region : Text) :
    (Compilation.operands compileOperand depth operator region).toOption.map
        (List.map Compilation.statement) =
      operandsOf? (compileOperand.map fun compile t => (compile t).statement) operator region := by
  cases compileOperand with
  | none => rfl
  | some compile =>
    simp only [Compilation.operands, operandsOf?, Option.map_some, Option.bind_some]
    -- the number of operands is checked in the same place on both sides
    split
    · simp [Except.toOption, Function.comp_def]
    · rfl

/-- Joining operands makes the statement of their head over their statements. -/
private theorem map_join (head : List Statement → Head)
    (operands : Except Event (List Compilation)) :
    (operands.map (Compilation.join head)).toOption.map Compilation.statement =
      (operands.toOption.map (List.map Compilation.statement)).map fun statements =>
        assemble (head statements) statements := by
  cases operands with
  | error _ => rfl
  | ok _ => rfl

/-- What a phrase compiles to depends on the statements of its operands, and not on what is told
about them. -/
private theorem statement_ofPhrase (compileOperand : Option (Text → Compilation)) (depth : Nat)
    (phrase : Phrase) :
    (Compilation.ofPhrase (Compilation.operands compileOperand depth) phrase).toOption.map
        Compilation.statement =
      ofPhrase? (compileOperand.map fun compile t => (compile t).statement) phrase := by
  cases phrase with
  | simple head => rfl
  | compound head region =>
    rw [Compilation.ofPhrase, map_join, toOption_operands]
    rfl
  | bareRequest subject region =>
    rw [Compilation.ofPhrase, map_join, toOption_operands]
    rfl

/-- One step of compilation makes the statement of the phrase, or `Skip`. -/
private theorem statement_step (compileOperand : Option (Text → Compilation)) (depth : Nat)
    (t : Text) :
    (Compilation.step compileOperand depth t).statement =
      ((Phrase.ofText? t.trim).bind
        (ofPhrase? (compileOperand.map fun compile t => (compile t).statement))).getD skip := by
  simp only [Compilation.step]
  cases Phrase.ofText? t.trim with
  | none => rfl
  | some phrase =>
    -- a phrase that is refused has no statement, and `Skip` stands in for it
    rw [Option.bind_some, ← statement_ofPhrase compileOperand depth phrase]
    dsimp only
    cases Compilation.ofPhrase (Compilation.operands compileOperand depth) phrase <;> rfl

/-- The depth shows in the events only. -/
theorem statement_atDepth (budget depth : Nat) (t : Text) :
    (Compilation.atDepth budget depth t).statement = compileWithin budget t := by
  show _ = (Compilation.atDepth budget 0 t).statement
  -- the depth is general, as operands are met one level deeper
  induction budget generalizing depth t with
  | zero => rw [Compilation.atDepth, Compilation.atDepth, statement_step, statement_step]
  | succ budget ih =>
    -- the operands are one deeper on both sides, and their depth does not show either
    have hoperand : (fun group => (Compilation.atDepth budget (depth + 1) group).statement) =
        fun group => (Compilation.atDepth budget (0 + 1) group).statement := by
      funext group
      rw [ih, ih (0 + 1)]
    rw [Compilation.atDepth, Compilation.atDepth, statement_step, statement_step, Option.map_some,
      Option.map_some, hoperand]

/-- With no level left, only simple statements are compiled. -/
theorem compileWithin_zero (t : Text) :
    compileWithin 0 t = ((Phrase.ofText? t.trim).bind (ofPhrase? none)).getD skip := by
  rw [compileWithin, Compilation.ofText, Compilation.atDepth, statement_step]
  rfl

/-- With a level left, the operands are compiled with one level less. -/
theorem compileWithin_succ (limit : Nat) (t : Text) :
    compileWithin (limit + 1) t =
      ((Phrase.ofText? t.trim).bind (ofPhrase? (some (compileWithin limit)))).getD skip := by
  -- the operands are compiled from depth one, which does not show
  have hoperand : (fun group => (Compilation.atDepth limit (0 + 1) group).statement) =
      compileWithin limit := by
    funext group
    exact statement_atDepth limit (0 + 1) group
  rw [compileWithin, Compilation.ofText, Compilation.atDepth, statement_step, Option.map_some,
    hoperand]

/-- How the operands of a text are compiled within a limit; not at all if no level is left. -/
def operandWithin : Nat → Option (Text → Statement)
  | 0 => none
  | limit + 1 => some (compileWithin limit)

/-- A text compiles to the statement of its phrase, or to `Skip` if there is none. -/
theorem compileWithin_eq_getD (limit : Nat) (t : Text) :
    compileWithin limit t =
      ((Phrase.ofText? t.trim).bind (ofPhrase? (operandWithin limit))).getD skip := by
  cases limit with
  | zero => exact compileWithin_zero t
  | succ limit => exact compileWithin_succ limit t

/-- Blanks around a text make no difference to what it compiles to. -/
theorem compileWithin_congr {s t : Text} (h : s.trim = t.trim) (limit : Nat) :
    compileWithin limit s = compileWithin limit t := by
  rw [compileWithin_eq_getD, compileWithin_eq_getD limit t, h]

/-- A text that is no phrase compiles to `Skip`. -/
theorem compileWithin_of_no_phrase {t : Text} (h : Phrase.ofText? t.trim = none) (limit : Nat) :
    compileWithin limit t = skip := by
  rw [compileWithin_eq_getD, h]
  rfl

/-- A text that is read as a simple statement compiles to it within every limit. -/
theorem compileWithin_simple {t : Text} {head : Head}
    (h : Phrase.ofText? t.trim = some (.simple head)) (limit : Nat) :
    compileWithin limit t = assemble head [] := by
  rw [compileWithin_eq_getD, h]
  rfl

/-- A text that is read as a compound statement compiles to `Skip` if no level is left. -/
theorem compileWithin_zero_compound {t : Text} {head : Head} {region : Text}
    (h : Phrase.ofText? t.trim = some (.compound head region)) : compileWithin 0 t = skip := by
  rw [compileWithin_zero, h]
  rfl

/-- A text that is read as a compound statement compiles to its operands under its head, if the
operator takes as many. -/
theorem compileWithin_compound {t : Text} {head : Head} {region : Text}
    (h : Phrase.ofText? t.trim = some (.compound head region))
    (haccepts : head.operator.arity.accepts (Text.groups region).length) (limit : Nat) :
    compileWithin (limit + 1) t =
      assemble head ((Text.groups region).map (compileWithin limit)) := by
  rw [compileWithin_succ, h, Option.bind_some]
  simp only [ofPhrase?, operandsOf?, Option.bind_some, haccepts, if_true, Option.map_some,
    Option.getD_some]

/-- Operands that are not refused are the compiled groups, as many as the operator takes. -/
theorem operandsOf?_eq_some {compileOperand : Option (Text → Statement)}
    {operator : Operator} {region : Text} {operands : List Statement}
    (h : operandsOf? compileOperand operator region = some operands) :
    ∃ compile, compileOperand = some compile ∧ operator.arity.accepts operands.length ∧
      operands = (Text.groups region).map compile := by
  obtain ⟨compile, hcompile, h⟩ := Option.bind_eq_some_iff.mp h
  dsimp only at h
  split at h
  · next haccepts =>
    cases h
    exact ⟨compile, hcompile, by rwa [List.length_map], rfl⟩
  · exact nomatch h

/-- A phrase makes a simple statement, or a compound one of as many compiled operands as its
operator takes. -/
private theorem ofPhrase?_cases {compileOperand : Option (Text → Statement)} {phrase : Phrase}
    {s : Statement} (hphrase : phrase.WellFormed) (h : ofPhrase? compileOperand phrase = some s) :
    (∃ head, (Phrase.simple head).WellFormed ∧ s = assemble head []) ∨
      ∃ compile head groups, compileOperand = some compile ∧ head.WellFormed ∧
        head.topic = .operator ∧ head.operator.arity.accepts (List.map compile groups).length ∧
        s = assemble head (groups.map compile) := by
  cases phrase with
  | simple head =>
    cases h
    exact Or.inl ⟨head, hphrase, rfl⟩
  | compound head region =>
    obtain ⟨operands, hoperands, rfl⟩ := Option.map_eq_some_iff.mp h
    obtain ⟨compile, hcompile, haccepts, rfl⟩ := operandsOf?_eq_some hoperands
    exact Or.inr ⟨compile, head, _, hcompile, hphrase.1, hphrase.2, haccepts, rfl⟩
  | bareRequest subject region =>
    obtain ⟨operands, hoperands, rfl⟩ := Option.map_eq_some_iff.mp h
    obtain ⟨compile, hcompile, haccepts, rfl⟩ := operandsOf?_eq_some hoperands
    -- a bare request is a compound statement once its addressee is known
    refine Or.inr ⟨compile, _, _, hcompile, ?_, rfl, haccepts, rfl⟩
    exact Head.wellFormed_compound (by decide) subject (fun h => nomatch h) (fun _ => rfl)

/-- A text compiles to `Skip` or to the statement of its phrase. -/
private theorem getD_ofPhrase?_cases (compileOperand : Option (Text → Statement)) (t : Text) :
    ((Phrase.ofText? t.trim).bind (ofPhrase? compileOperand)).getD skip = skip ∨
      ∃ phrase s, phrase.WellFormed ∧ ofPhrase? compileOperand phrase = some s ∧
        ((Phrase.ofText? t.trim).bind (ofPhrase? compileOperand)).getD skip = s := by
  cases hmade : (Phrase.ofText? t.trim).bind (ofPhrase? compileOperand) with
  | none => exact Or.inl rfl
  | some s =>
    obtain ⟨phrase, hread, hphrase⟩ := Option.bind_eq_some_iff.mp hmade
    exact Or.inr ⟨phrase, s, Phrase.wellFormed_of_ofText? hread, hphrase, rfl⟩

/-- What holds of simple statements, and of compound ones whose operands it holds of with one level
less, holds of every statement that a text compiles to. -/
theorem compileWithin_induction {P : Nat → Statement → Prop}
    (simple : ∀ limit head, (Phrase.simple head).WellFormed → P limit (assemble head []))
    (compound : ∀ limit head operands, head.WellFormed → head.topic = .operator →
      head.operator.arity.accepts operands.length → (∀ operand ∈ operands, P limit operand) →
      P (limit + 1) (assemble head operands))
    (limit : Nat) (t : Text) : P limit (compileWithin limit t) := by
  -- what is given up is a `Skip`, which is simple
  have hskip : (Phrase.simple { topic := .skip }).WellFormed :=
    ⟨Head.wellFormed_bare (Or.inl rfl) .unspec, by decide, by decide, fun _ => rfl⟩
  induction limit generalizing t with
  | zero =>
    -- with no level left there is no way to compile an operand, so nothing is compound
    rw [compileWithin_zero]
    rcases getD_ofPhrase?_cases none t with h | ⟨phrase, s, hphrase, hmade, h⟩ <;> rw [h]
    · exact simple 0 _ hskip
    · rcases ofPhrase?_cases hphrase hmade with ⟨head, hhead, rfl⟩ | ⟨compile, _, _, hnone, _⟩
      · exact simple 0 head hhead
      · exact nomatch hnone
  | succ limit ih =>
    rw [compileWithin_succ]
    rcases getD_ofPhrase?_cases (some (compileWithin limit)) t with
      h | ⟨phrase, s, hphrase, hmade, h⟩ <;> rw [h]
    · exact simple (limit + 1) _ hskip
    · rcases ofPhrase?_cases hphrase hmade with
        ⟨head, hhead, rfl⟩ | ⟨compile, head, groups, hsome, hhead, htopic, haccepts, rfl⟩
      · exact simple (limit + 1) head hhead
      · -- each operand is a group, compiled with one level less
        cases hsome
        apply compound limit head _ hhead htopic haccepts
        intro operand hmem
        obtain ⟨group, _, rfl⟩ := List.mem_map.mp hmem
        exact ih group

/-- The groups of a text are compiled as operands are, each by itself. -/
theorem embeddedIn_eq_map (t : Text) :
    embeddedIn t = (Text.groups t).map (compileWithin (Compilation.defaultLimit - 1)) := by
  -- groups are compiled from depth one, with the levels that are left there
  apply List.map_congr_left
  intro group _
  exact statement_atDepth _ 1 group

end Statement

end Parley
