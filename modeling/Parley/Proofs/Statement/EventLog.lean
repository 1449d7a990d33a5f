import Mathlib.Data.List.Basic
import Parley.Proofs.Statement.Acceptance
import Parley.Proofs.Statement.GrammarText
import Parley.Proofs.Statement.RoundTrip

/-!
# What the events tell about the statement

Events are emitted one at a time while a text is compiled, and the statement is only there in the
end. Every node of it leaves its part of the log, in pre-order: a node that is kept leaves one
event, and a `Skip` that stands in for something else says so, after the cause if there is one. So
the log tells a `Skip` that was written from one that was not.

## Key results

- `origins_complete`: where the nodes come from does not change when the statement is completed
- `accounts_atDepth`: the events of a text are those of the nodes of its statement, in pre-order
- `events_operandText`: nothing is given up when the text of a statement is read again
- `log_accounts`: causes, counts and stand-ins, as they can be seen in any log
-/

namespace Parley

/-! ### Where nodes come from -/

/-- Where a node of a compiled statement comes from: how deep it is, and the text that it was
compiled from, without the blanks around it. -/
structure Origin where
  depth : Nat
  source : Text
  topic : Topic
deriving Repr

/-- The node stands in for something else: it is a `Skip` that was not written as one. -/
def Origin.Substituted (o : Origin) : Prop :=
  o.topic = .skip ∧ o.source ≠ "Skip".toList

instance (o : Origin) : Decidable o.Substituted :=
  inferInstanceAs (Decidable (_ ∧ _))

namespace Statement

mutual

/-- Where the nodes of the statement of a text come from, from the root on: each before its
operands, which come from the groups of the text, one level deeper. -/
def origins (depth : Nat) (source : Text) : Statement → List Origin
  | ⟨head, operands, _⟩ =>
    ⟨depth, source.trim, head.topic⟩ :: originsAll (depth + 1) (Text.groups source.trim) operands

/-- Where the nodes of operands come from, each operand from the next of the texts. -/
def originsAll (depth : Nat) (sources : List Text) : List Statement → List Origin
  | [] => []
  | operand :: rest =>
    origins depth (sources.headD []) operand ++ originsAll depth sources.tail rest

end

/-- There is one origin for each node. -/
theorem map_topic_origins (depth : Nat) (source : Text) (s : Statement) :
    (s.origins depth source).map (·.topic) = s.nodes.map (·.topic) := by
  induction s generalizing depth source with
  | node head operands text ih =>
    -- the texts of the operands do not matter, so there may be any of them
    have hall : ∀ sources, (originsAll (depth + 1) sources operands).map (·.topic) =
        (nodesAll operands).map (·.topic) := by
      induction operands with
      | nil => simp [originsAll, nodesAll]
      | cons operand rest ihrest =>
        intro sources
        rw [originsAll, nodesAll, List.map_append, List.map_append, ih operand List.mem_cons_self,
          ihrest fun o ho => ih o (List.mem_cons_of_mem _ ho)]
    rw [origins, nodes, List.map_cons, List.map_cons, hall]

/-- Completion changes no topic, and so it does not change where the nodes come from. -/
theorem origins_complete (subject : Agent) (depth : Nat) (source : Text) (s : Statement) :
    (complete subject s).origins depth source = s.origins depth source := by
  induction s generalizing subject depth source with
  | node head operands text ih =>
    -- the operands are completed in whatever context and come from whatever texts
    have hall : ∀ context sources,
        originsAll (depth + 1) sources (completeAll context operands) =
          originsAll (depth + 1) sources operands := by
      induction operands with
      | nil => simp [completeAll]
      | cons operand rest ihrest =>
        intro context sources
        rw [completeAll, originsAll, originsAll, ih operand List.mem_cons_self,
          ihrest fun o ho => ih o (List.mem_cons_of_mem _ ho)]
    rw [complete, origins, origins, hall, Head.topic_spokenBy]

/-- Operands that are compiled from texts come from these texts. -/
theorem originsAll_map (depth : Nat) (sources : List Text) (compile : Text → Statement) :
    originsAll depth sources (sources.map compile) =
      sources.flatMap fun source => (compile source).origins depth source := by
  induction sources with
  | nil => simp [originsAll]
  | cons source rest ih => simp [originsAll, ih]

end Statement

/-! ### The log of a node -/

namespace Event

/-- Whether the event says that a text is given up. -/
def isUnparseable : Event → Bool
  | .unparseable _ _ => true
  | .matched | .nestedTooDeeply _ | .wrongOperandCount _ _ => false

/-- Whether the event is told at the level of what goes wrong; a form that matches is told at a
lower one. -/
def isDebug : Event → Bool
  | .matched => false
  | .nestedTooDeeply _ | .wrongOperandCount _ _ | .unparseable _ _ => true

@[simp] theorem isCause_matched : isCause .matched = false := rfl

@[simp] theorem isCause_unparseable (t : Text) (depth : Nat) :
    isCause (.unparseable t depth) = false := rfl

@[simp] theorem isUnparseable_matched : isUnparseable .matched = false := rfl

@[simp] theorem isUnparseable_unparseable (t : Text) (depth : Nat) :
    isUnparseable (.unparseable t depth) = true := rfl

/-- A cause is not a match. -/
theorem ne_matched_of_isCause {e : Event} (h : e.isCause) : e ≠ .matched := by
  intro heq
  simp [heq] at h

/-- A cause does not give up a text by itself. -/
theorem not_isUnparseable_of_isCause {e : Event} (h : e.isCause) : e.isUnparseable = false := by
  cases e with
  | unparseable => simp at h
  | matched | nestedTooDeeply | wrongOperandCount => rfl

end Event

namespace Compilation

open Statement (compileWithin operandText)

/-- What a node leaves in the log by itself. -/
inductive NodeLog (o : Origin) : List Event → Prop where
  /-- The form matched, and the statement is kept. -/
  | kept (h : ¬ o.Substituted) : NodeLog o [.matched]
  /-- No form matched. -/
  | unread (h : o.Substituted) : NodeLog o [.unparseable o.source o.depth]
  /-- A form matched, but there is a cause why the statement is not kept. -/
  | refused {cause : Event} (hcause : cause.isCause) (h : o.Substituted) :
      NodeLog o [.matched, cause, .unparseable o.source o.depth]

/-- The events are what the nodes leave in the log, one after the other. -/
inductive Accounts : List Origin → List Event → Prop where
  | nil : Accounts [] []
  | cons {o : Origin} {os : List Origin} {log events : List Event} (hlog : NodeLog o log)
      (hrest : Accounts os events) : Accounts (o :: os) (log ++ events)

/-- Nodes one after the other leave what they leave one after the other. -/
theorem Accounts.append {first second : List Origin} {events more : List Event}
    (h : Accounts first events) (hmore : Accounts second more) :
    Accounts (first ++ second) (events ++ more) := by
  induction h with
  | nil => exact hmore
  | cons hlog _ ih =>
    rw [List.append_assoc]
    exact .cons hlog ih

/-- So do the nodes of a list of trees. -/
theorem Accounts.flatMap {α : Type} {list : List α} {f : α → List Origin} {g : α → List Event}
    (h : ∀ a ∈ list, Accounts (f a) (g a)) : Accounts (list.flatMap f) (list.flatMap g) := by
  induction list with
  | nil => exact .nil
  | cons a rest ih =>
    obtain ⟨ha, hrest⟩ := List.forall_mem_cons.mp h
    rw [List.flatMap_cons, List.flatMap_cons]
    exact ha.append (ih hrest)

/-! ### What can be seen in a log -/

section

variable {os : List Origin} {events : List Event}

/-- An event that is not the first one is found behind it. -/
private theorem exists_behind {first e : Event} (hne : first ≠ e) {rest before after : List Event}
    (hsplit : first :: rest = before ++ e :: after) :
    ∃ before', before = first :: before' ∧ rest = before' ++ e :: after := by
  cases before with
  | nil => exact absurd (List.cons.inj hsplit).1 hne
  | cons _ before' =>
    obtain ⟨rfl, hrest⟩ := List.cons.inj hsplit
    exact ⟨before', rfl, hrest⟩

/-- In the log of a node, a cause stands between a match and what is given up for it. -/
private theorem NodeLog.around_cause {o : Origin} {log before after : List Event} {cause : Event}
    (h : NodeLog o log) (hcause : cause.isCause) (hsplit : log = before ++ cause :: after) :
    before = [.matched] ∧ after = [.unparseable o.source o.depth] := by
  have hmatched : .matched ≠ cause := (Event.ne_matched_of_isCause hcause).symm
  have hunparseable : .unparseable o.source o.depth ≠ cause := by
    intro heq
    simp [← heq] at hcause
  -- a cause can only be the middle one of three events
  cases h with
  | kept =>
    obtain ⟨_, -, hrest⟩ := exists_behind hmatched hsplit
    simp at hrest
  | unread =>
    obtain ⟨_, -, hrest⟩ := exists_behind hunparseable hsplit
    simp at hrest
  | refused =>
    obtain ⟨between, rfl, hrest⟩ := exists_behind hmatched hsplit
    cases between with
    | nil =>
      obtain ⟨-, rfl⟩ := List.cons.inj hrest
      exact ⟨rfl, rfl⟩
    | cons _ between =>
      -- what is given up is the last event, and it is no cause
      obtain ⟨_, -, hrest⟩ := exists_behind hunparseable (List.cons.inj hrest).2
      simp at hrest

/-- A cause stands between a match and what is given up for it. -/
theorem Accounts.around_cause (h : Accounts os events) {before after : List Event} {cause : Event}
    (hcause : cause.isCause) (hsplit : events = before ++ cause :: after) :
    before.getLast? = some .matched ∧ ∃ text d, after.head? = some (.unparseable text d) := by
  induction h generalizing before with
  | nil => simp at hsplit
  | @cons o os log events hlog hrest ih =>
    -- a cause behind the log of this node has its neighbours behind it too
    have hlater : ∀ before', events = before' ++ cause :: after →
        (log ++ before').getLast? = some .matched ∧
          ∃ text d, after.head? = some (.unparseable text d) := by
      intro before' heq
      obtain ⟨hlast, hnext⟩ := ih heq
      simp [hlast, hnext]
    rcases List.append_eq_append_iff.mp hsplit with ⟨before', rfl, heq⟩ | ⟨own, hlogs, heq⟩
    · exact hlater before' heq
    · cases own with
      -- the cut is right behind the log of the node, so the cause is a later one
      | nil =>
        rw [List.append_nil] at hlogs
        rw [← hlogs, ← List.append_nil log]
        exact hlater [] heq.symm
      | cons e own =>
        -- the cause is one of the node itself
        obtain ⟨rfl, rfl⟩ := List.cons.inj heq
        obtain ⟨rfl, rfl⟩ := hlog.around_cause hcause hlogs
        simp

/-- Every node leaves a match or a text that is given up, and both only if there is a cause. -/
theorem Accounts.count (h : Accounts os events) :
    os.length + events.countP Event.isCause =
      events.count .matched + events.countP Event.isUnparseable := by
  induction h with
  | nil => simp
  | cons hlog _ ih =>
    -- a node pays for itself: one match, or one text given up, or both and a cause
    cases hlog with
    | kept =>
      simp
      omega
    | unread =>
      simp [List.countP_cons]
      omega
    | refused hcause =>
      have hmatched := Event.ne_matched_of_isCause hcause
      have hunparseable := Event.not_isUnparseable_of_isCause hcause
      simp [List.countP_cons, hcause, hmatched, hunparseable]
      omega

/-- What is given up are the nodes that stand in for something else, in order. -/
theorem Accounts.filter_isUnparseable (h : Accounts os events) :
    events.filter Event.isUnparseable =
      (os.filter (·.Substituted)).map fun o => .unparseable o.source o.depth := by
  induction h with
  | nil => simp
  | cons hlog _ ih =>
    cases hlog with
    | kept h => simp [h, ih]
    | unread h => simp [List.filter_cons, h, ih]
    | refused hcause h =>
      simp [List.filter_cons, Event.not_isUnparseable_of_isCause hcause, h, ih]

/-- Nothing goes wrong exactly if no node stands in for something else. -/
theorem Accounts.not_isDebug_iff (h : Accounts os events) :
    (∀ e ∈ events, ¬ e.isDebug) ↔ ∀ o ∈ os, ¬ o.Substituted := by
  induction h with
  | nil => simp
  | cons hlog _ ih =>
    -- a node that is kept tells of a match only
    cases hlog with
    | kept h => simp [Event.isDebug, h, ← ih]
    | unread h => simp [Event.isDebug, h]
    | refused _ h => simp [Event.isDebug, h]

end

/-! ### The log of a text -/

/-- A text is read as `Skip` only if it is written so. -/
private theorem eq_skip_of_headWithin {pattern : Phrase.Pattern} {t : Text} {p : Phrase}
    (h : Phrase.Grammar pattern t p) {limit : Nat} (hskip : (p.headWithin limit).topic = .skip) :
    t = "Skip".toList := by
  cases h with
  | bare hkeyword =>
    obtain ⟨-, rfl⟩ := (Phrase.keyword_topics (by decide)).mp hkeyword
    show Vocabulary.spell _ = Vocabulary.spell Topic.skip
    exact congrArg _ hskip
  | sentence _ hbody =>
    have hne : ∀ {form : Form} {topic : Topic}, topic.form = form → topic = .skip →
        form = .bare := by
      intro form topic hform hskip
      rw [← hform, hskip]
      rfl
    -- a clause has another form, or it is compound
    cases hbody with
    | agreement hkeyword => exact nomatch hne hkeyword.form_eq hskip
    | claim hkeyword => exact nomatch hne hkeyword.form_eq hskip
    | finding hkeyword => exact nomatch hne hkeyword.form_eq hskip
    | action hkeyword => exact nomatch hne hkeyword.form_eq hskip
    | addressed | connective | bareRequest | dated => exact nomatch hskip

/-- What stands in for a text that is given up was not written as `Skip`. -/
private theorem substituted_of_not_admissible {t : Text} {limit : Nat}
    (h : ∀ p, Phrase.ofText? t.trim = some p → ¬ p.Admissible limit) (depth : Nat) :
    (⟨depth, t.trim, .skip⟩ : Origin).Substituted := by
  refine ⟨rfl, ?_⟩
  show t.trim ≠ "Skip".toList
  -- the word itself is read and has no operands, so it is never given up
  intro heq
  rw [heq] at h
  exact h (.simple { topic := .skip }) rfl trivial

/-- A text that is given up has one node, and the node stands in for the text. -/
private theorem accounts_of_given_up {budget depth : Nat} {t : Text} {events : List Event}
    (hlog : atDepth budget depth t = ⟨.skip, events⟩)
    (hnode : NodeLog ⟨depth, t.trim, .skip⟩ events) :
    Accounts ((compileWithin budget t).origins depth t) (atDepth budget depth t).events := by
  rw [← Statement.statement_atDepth budget depth t, hlog, ← List.append_nil events]
  exact .cons hnode .nil

/-- An accepted text has a node that is kept, in front of the nodes of its operands. -/
private theorem accounts_of_admissible {budget depth : Nat} {t : Text} {p : Phrase}
    (hread : Phrase.ofText? t.trim = some p) (hadmissible : p.Admissible budget)
    (hoperands : ∀ g ∈ p.groups, Accounts ((compileWithin (budget - 1) g).origins (depth + 1) g)
      (atDepth (budget - 1) (depth + 1) g).events) :
    Accounts ((compileWithin budget t).origins depth t) (atDepth budget depth t).events := by
  obtain ⟨pattern, hgrammar⟩ := Phrase.ofText?_eq_some_iff.mp hread
  have hkept : ¬ (⟨depth, t.trim, (p.headWithin budget).topic⟩ : Origin).Substituted :=
    fun h => h.2 (eq_skip_of_headWithin hgrammar h.1)
  -- the operands come from the groups of the text, which are those of the phrase
  rw [events_of_admissible hread hadmissible, Statement.compileWithin_eq_assemble hread hadmissible,
    Statement.assemble, Statement.finish, Statement.origins_complete, Statement.origins,
    hgrammar.groups_eq, Statement.originsAll_map]
  exact .cons (.kept hkept) (.flatMap hoperands)

/-- The events of a text are what the nodes of its statement leave in the log, in pre-order. -/
theorem accounts_atDepth (budget depth : Nat) (t : Text) :
    Accounts ((compileWithin budget t).origins depth t) (atDepth budget depth t).events := by
  -- strong induction on the levels that are left, as for the depth of what is given up
  induction budget using Nat.strongRecOn generalizing depth t with
  | ind budget ih =>
    rcases atDepth_cases budget depth t with
      ⟨hnone, hlog⟩ | ⟨p, hread, hadmissible, -⟩ | ⟨p, cause, hread, hrefused, hcause, hlog⟩
    · -- no phrase, so none that is admissible
      have hnever : ∀ p, Phrase.ofText? t.trim = some p → ¬ p.Admissible budget := by simp [hnone]
      exact accounts_of_given_up hlog (.unread (substituted_of_not_admissible hnever depth))
    · -- the operands have fewer levels, since there is one to spend
      apply accounts_of_admissible hread hadmissible
      intro g hg
      exact ih _ (Nat.sub_one_lt_of_lt (hadmissible.pos hg)) (depth + 1) g
    · have hnever : ∀ p, Phrase.ofText? t.trim = some p → ¬ p.Admissible budget := by
        simp [hread, hrefused]
      exact accounts_of_given_up hlog (.refused hcause (substituted_of_not_admissible hnever depth))

/-- Where nothing of an operand is cut off, reading it again leaves one match for each node. -/
theorem events_operandText {s : Statement} (hshaped : ∀ n ∈ s.nodes, n.Shaped)
    (hsettled : ∀ n ∈ s.nodes, n.Settled) {budget : Nat} (hfits : s.Fits budget)
    (context : Agent) (depth : Nat) :
    (atDepth budget depth (operandText context s)).events =
      s.nodes.map fun _ => .matched := by
  induction s generalizing budget context depth with
  | node head operands text ih =>
    obtain ⟨hshape, hshapes⟩ := Statement.forall_nodes_iff.mp hshaped
    obtain ⟨hself, hbelow⟩ := Statement.forall_nodes_iff.mp hsettled
    -- what is read as a simple statement leaves a match and nothing else
    have hsimple : ∀ {t : Text} {h : Head}, head.topic ≠ .operator →
        Phrase.ofText? t.trim = some (.simple h) →
        (atDepth budget depth t).events =
          (Statement.mk head operands text).nodes.map fun _ => .matched := by
      intro t h hsimple hread
      rw [events_of_admissible hread trivial,
        Statement.nodes_leaf (hshape.operands_eq_nil hsimple)]
      rfl
    rcases head.topic.cases with hdummy | hbare | ⟨hvoiced, hsimple'⟩ | hop
    · exact absurd hfits (Statement.not_fits_dummy hdummy budget)
    · rw [Statement.operandText_bare hself hbare]
      exact hsimple (Topic.ne_of_bare hbare).2 (Statement.ofText?_spell_bare hbare)
    · exact hsimple hsimple'
        (Statement.ofText?_operandText_simple hshape hself hvoiced hsimple' context)
    · obtain ⟨region, hgroups, haccepts, hread⟩ :=
        Statement.ofText?_operandText_compound hshape hsettled hop context
      cases budget with
      | zero => exact absurd hfits (Statement.not_fits_zero hop)
      | succ budget =>
        have hfits := (Statement.fits_succ_iff hop).mp hfits
        have hoperands : operands.flatMap (fun o =>
              (atDepth budget (depth + 1) (operandText head.context o)).events) =
            operands.flatMap fun o => o.nodes.map fun _ => .matched := by
          apply List.flatMap_congr
          intro o ho
          exact ih o ho (hshapes o ho) (hbelow o ho) (hfits o ho) head.context (depth + 1)
        rw [events_of_admissible hread ⟨Nat.succ_pos budget, haccepts⟩, Statement.nodes_eq_cons,
          List.map_cons, List.map_flatMap, ← hoperands]
        -- the groups of the region are the texts of the operands
        show _ :: (Text.groups region).flatMap _ = _
        rw [hgroups, List.flatMap_map]
        rfl

/-- The log accounts for the statement. A cause comes right after a match and right before what is
given up; nodes and causes are as many as matches and texts that are given up; the texts that are
given up are the sources of the nodes that stand in for something else, in pre-order, each at the
depth of its node; and nothing goes wrong exactly if there is no such node. The text of a statement
that says something everywhere and fits into the limit leaves one match for each node. -/
theorem log_accounts (limit : Nat) (t : Text) :
    let s := (ofText limit t).statement
    let events := (ofText limit t).events
    let origins := s.origins 0 t
    (∀ before cause after, cause.isCause → events = before ++ cause :: after →
        before.getLast? = some .matched ∧ ∃ text d, after.head? = some (.unparseable text d)) ∧
      s.nodes.length + events.countP Event.isCause =
        events.count .matched + events.countP Event.isUnparseable ∧
      (origins.map (·.topic) = s.nodes.map (·.topic) ∧
        events.filter Event.isUnparseable =
          (origins.filter (·.Substituted)).map fun o => .unparseable o.source o.depth) ∧
      ((∀ e ∈ events, ¬ e.isDebug) ↔ ∀ o ∈ origins, ¬ o.Substituted) ∧
      ∀ made : Statement, made.Reachable → made.Fits limit →
        (ofText limit made.text).events = made.nodes.map fun _ => .matched := by
  intro s events origins
  -- every part is seen in the account of the nodes
  have haccounts : Accounts origins events := accounts_atDepth limit 0 t
  have htopics : origins.map (·.topic) = s.nodes.map (·.topic) := Statement.map_topic_origins 0 t s
  have hlength : origins.length = s.nodes.length := by
    simpa using congrArg List.length htopics
  refine ⟨fun _ _ _ => haccounts.around_cause, ?_, ⟨htopics, haccounts.filter_isUnparseable⟩,
    haccounts.not_isDebug_iff, ?_⟩
  · rw [← hlength]
    exact haccounts.count
  · intro made hmade hfits
    rw [← Statement.operandText_unspec (hmade.settled _ (Statement.mem_nodes_self made))]
    exact events_operandText hmade.shaped hmade.settled hfits .unspec 0

/-- A conjunction of a `Skip`, of something that is no statement, and of a negation that is one
level too deep: the last two are given up, one of them for a cause. The negation by itself is not
too deep. -/
theorem log_accounts_and :
    let t : Text := "AND (Skip)(what)( NOT (Over) )".toList
    let negation := (Draft.not Draft.finished.build).build
    let before : List Event := [.matched, .matched, .unparseable "what".toList 1, .matched]
    let after : List Event := [.unparseable "NOT (Over)".toList 1]
    (Event.isCause (.nestedTooDeeply 1) ∧
        (ofText 1 t).events = before ++ .nestedTooDeeply 1 :: after ∧
        before.getLast? = some .matched ∧ ∃ text d, after.head? = some (.unparseable text d)) ∧
      (((ofText 1 t).statement.origins 0 t).filter (·.Substituted)).map
          (fun o => .unparseable o.source o.depth) =
        (ofText 1 t).events.filter Event.isUnparseable ∧
      negation.Reachable ∧ negation.Fits 1 ∧
        (ofText 1 negation.text).events = [.matched, .matched] := by
  intro t negation before after
  obtain ⟨hcauses, -, ⟨-, hgiven⟩, -, hread⟩ := log_accounts 1 t
  have hevents : (ofText 1 t).events = before ++ .nestedTooDeeply 1 :: after := by decide +kernel
  have hmade : negation.Reachable :=
    .build (.not _) (List.forall_mem_singleton.mpr (.build_leaf .finished rfl))
  have hfits : negation.Fits 1 := by
    have hfinished : ∀ operand ∈ negation.operands, operand.Fits 0 :=
      List.forall_mem_singleton.mpr (Statement.fits_leaf (by decide) (by decide) rfl 0)
    exact (Statement.fits_succ_iff rfl).mpr hfinished
  exact ⟨⟨rfl, hevents, hcauses _ _ _ rfl hevents⟩, hgiven.symm, hmade, hfits,
    hread negation hmade hfits⟩

end Compilation

end Parley
