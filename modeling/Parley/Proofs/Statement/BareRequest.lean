import Parley.Proofs.Statement.Places
import Parley.Proofs.Statement.Printing

/-!
# Requests without an addressee

A request need not name whom it addresses. It is then the request to the agent whom its operand
speaks for, before anything around it has been looked at, and written in full it names that agent.

## Key results

- `compileWithin_eq_addressed`: the request compiles as the one that names the addressee
- `bareRequest_operand`: the operand is spoken by the addressee, so its speaker is not written
- `compileWithin_bareRequest`: the request with and without the addressee, by itself and anywhere in
  a text
-/

namespace Parley.Statement

/-- The speaker of the first group of a region, compiled by itself with a level less than the limit;
open if there is no group. -/
def firstSpeaker (limit : Nat) (region : Text) : Agent :=
  ((Text.groups region).head?.map fun g => (compileWithin (limit - 1) g).subject).getD .unspec

/-- The addressee that the operands imply is the speaker of the first group, or anybody. -/
theorem impliedAddressee_map (limit : Nat) (region : Text) :
    Compilation.impliedAddressee ((Text.groups region).map (compileWithin (limit - 1))) =
      (firstSpeaker limit region).orElse .any := by
  unfold firstSpeaker
  cases Text.groups region <;> rfl

/-- A request without an addressee is the request to the agent that the first group implies. -/
theorem ofPhrase?_bareRequest (limit : Nat) (k : Agent) (region : Text) :
    ofPhrase? (operandWithin limit) (.bareRequest k region) =
      ofPhrase? (operandWithin limit)
        (.compound ((Connective.request ((firstSpeaker limit region).orElse .any)).headFor k)
          region) := by
  cases limit with
  | zero => rfl
  | succ limit =>
    have himplied := impliedAddressee_map (limit + 1) region
    simp only [ofPhrase?, operandsOf?, operandWithin, Option.bind_some, Connective.headFor,
      ← himplied]
    -- both are refused, or both are made over the same operands
    split <;> rfl

/-- A request without an addressee is given up unless its operand is admissible. -/
theorem operator_bareRequest_iff {limit : Nat} {t region : Text} {k : Agent}
    (hread : Phrase.ofText? t.trim = some (.bareRequest k region)) :
    (compileWithin limit t).operator = .request ↔
      (Phrase.bareRequest k region).Admissible limit := by
  constructor
  · -- a text that is given up is a `Skip`, which has no such operator
    intro h
    by_contra hrefused
    rw [compileWithin_of_refused hread hrefused] at h
    exact absurd h (by decide)
  · intro hadmissible
    exact congrArg Head.operator (toHead_compileWithin hread hadmissible)

/-- What a request without an addressee compiles to: a request whose operand is spoken by the
addressee. -/
theorem bareRequest_operand {limit : Nat} {t region : Text} {k : Agent}
    (hread : Phrase.ofText? t.trim = some (.bareRequest k region))
    (hadmissible : (Phrase.bareRequest k region).Admissible limit) :
    (compileWithin limit t).toHead =
        (Connective.request ((firstSpeaker limit region).orElse .any)).headFor k ∧
      ∃ operand, (compileWithin limit t).operands = [operand] ∧
        operand.subject = (compileWithin limit t).toHead.context := by
  have hhead := toHead_compileWithin hread hadmissible
  rw [Phrase.headWithin, impliedAddressee_map] at hhead
  have hoperands := operands_compileWithin hread hadmissible
  -- a request takes one operand
  obtain ⟨g, hg⟩ : ∃ g, Text.groups region = [g] :=
    List.length_eq_one_iff.mp (beq_iff_eq.mp hadmissible.2)
  rw [Phrase.groups, hg, List.map_singleton] at hoperands
  have hspeaker : firstSpeaker limit region = (compileWithin (limit - 1) g).subject := by
    rw [firstSpeaker, hg]
    rfl
  refine ⟨hhead, _, hoperands, ?_⟩
  -- the addressee is the speaker of the operand, if that is not open
  rw [completeIn, subject_complete, hhead]
  show (compileWithin (limit - 1) g).subject.orElse ((firstSpeaker limit region).orElse .any) =
    (firstSpeaker limit region).orElse .any
  rw [hspeaker, ← Agent.orElse_assoc, Agent.orElse_self]

/-- The canonical text of a request, whose operand is written without its speaker. -/
theorem text_request {s operand : Statement} (hsettled : s.Settled) {k target : Agent}
    (hhead : s.toHead = (Connective.request target).headFor k) (hoperands : s.operands = [operand])
    (hspeaker : operand.subject = s.toHead.context) :
    s.text = k.speakerText ++ ("REQUEST".toList ++ (field target.targetText ++
      field ('(' :: stripSubject operand.text ++ [')']))) := by
  -- the operand is spoken by the context, so its speaker is cut off
  have hoperand : operandText s.toHead.context operand = stripSubject operand.text := by
    rw [← hspeaker, operandText_subject]
  rw [hsettled.text, render_voiced (by rw [hhead]; rfl), sentence_compound (by rw [hhead]; rfl),
    hoperands, List.map_singleton, hoperand, hhead]
  simp only [groupsText, List.flatMap_cons, List.flatMap_nil, List.append_nil]
  rfl

/-- A request without an addressee compiles as the one that names the speaker of its operand. -/
theorem compileWithin_eq_addressed (limit : Nat) {k : Agent} {front region : Text}
    (hfront : Phrase.Opening k front) (hregion : Phrase.IsRegion region) :
    compileWithin limit (front ++ ("REQUEST".toList ++ field region)) =
      compileWithin limit (front ++ ("REQUEST".toList ++
        (field (firstSpeaker limit region).targetText ++ field region))) := by
  let addressee := (firstSpeaker limit region).orElse .any
  have hbare : Phrase.Grammar .bareRequest (front ++ ("REQUEST".toList ++ field region))
      (.bareRequest k region) :=
    .sentence hfront (.bareRequest Text.isGap_space hregion)
  have hkeyword : Phrase.Keyword Phrase.addresses .request "REQUEST".toList :=
    Phrase.keyword_addresses.mpr ⟨rfl, rfl⟩
  have haddressed : Phrase.Grammar .addressed (front ++ ("REQUEST".toList ++
      (field (firstSpeaker limit region).targetText ++ field region)))
      (.compound ((Connective.request addressee).headFor k) region) :=
    .sentence hfront (.addressed hkeyword
      (Text.apart_field (Agent.spelling_targetText _)) Text.isGap_space hregion)
  -- the phrases differ, but not what is made of them
  rw [compileWithin_eq_getD, compileWithin_eq_getD, hbare.trim_eq, haddressed.trim_eq,
    Phrase.ofText?_eq_some_iff.mpr ⟨_, hbare⟩, Phrase.ofText?_eq_some_iff.mpr ⟨_, haddressed⟩,
    Option.bind_some, Option.bind_some, ofPhrase?_bareRequest]

/-- A request without an addressee is the request to the agent whom its operand implies. The two
compile to the same, a request exactly if a level is left and the region has one group. It is
written with the addressee in full and the operand without its speaker. And wherever the request
stands in a text of which nothing is nested too deeply, it addresses whom it addresses alone. -/
theorem compileWithin_bareRequest (limit : Nat) {k : Agent} {front region : Text}
    (hfront : Phrase.Opening k front) (hregion : Phrase.IsRegion region) :
    let addressee := firstSpeaker limit region
    let bare := front ++ ("REQUEST".toList ++ field region)
    let s := compileWithin limit bare
    s = compileWithin limit
        (front ++ ("REQUEST".toList ++ (field addressee.targetText ++ field region))) ∧
      (s.operator = .request ↔ 0 < limit ∧ (Text.groups region).length = 1) ∧
      (s.operator = .request → ∃ operand, s.operands = [operand] ∧
        s.text = k.speakerText ++ ("REQUEST".toList ++ (field addressee.targetText ++
          field ('(' :: stripSubject operand.text ++ [')']))) ∧
        ∀ (a : Agent) (w : Text), a.Spelling w → ¬ w <+: stripSubject operand.text) ∧
      ∀ (around : Text) (path : List Nat) (q : Text) (n : Statement) (alone : Nat),
        (Compilation.ofText limit around).InReach → Text.groupAt? path around = some q →
        q.trim = bare → (compileWithin limit around).at? path = some n →
        limit ≤ alone + path.length → n.target = (compileWithin alone bare).target := by
  intro addressee bare s
  have hbare : Phrase.Grammar .bareRequest bare (.bareRequest k region) :=
    .sentence hfront (.bareRequest Text.isGap_space hregion)
  -- there are no blanks around the request
  have hread : Phrase.ofText? bare.trim = some (.bareRequest k region) := by
    rw [hbare.trim_eq]
    exact Phrase.ofText?_eq_some_iff.mpr ⟨_, hbare⟩
  have hrequest : s.operator = .request ↔ (Phrase.bareRequest k region).Admissible limit :=
    operator_bareRequest_iff hread
  refine ⟨compileWithin_eq_addressed limit hfront hregion,
    hrequest.trans (and_congr_right fun _ => beq_iff_eq), ?_, ?_⟩
  · intro hoperator
    obtain ⟨hhead, operand, hoperands, hspeaker⟩ :=
      bareRequest_operand hread (hrequest.mp hoperator)
    have hsettled := forall_settled_compileWithin limit bare
    have hnode : operand ∈ s.nodes :=
      mem_nodes_of_mem_operands (hoperands ▸ List.mem_singleton_self operand) (mem_nodes_self _)
    refine ⟨operand, hoperands, ?_, ?_⟩
    · rw [text_request (hsettled s (mem_nodes_self s)) hhead hoperands hspeaker,
        Agent.targetText_orElse_any]
    · exact Agent.read_eq_none_iff.mp (read_stripSubject (hsettled operand hnode))
  · intro around path q n alone hreach hq htrim hn hle
    -- only the speaker may be another one, since a request addresses somebody
    rw [← hbare.trim_eq] at htrim
    obtain ⟨subject, hhead⟩ := toHead_at?_of_inReach hreach hq htrim hn hle
    have hsettled := forall_settled_compileWithin alone bare _ (mem_nodes_self _)
    rw [Head.spokenBy_of_addressee hsettled.addressee] at hhead
    rw [hhead]

/-- A request that is spoken by the third agent, inside an inquiry inside a reason. The vote is
spoken by the fourth agent, who is addressed for it, and so it is inside, where the first and the
second agent speak. -/
theorem compileWithin_bareRequest_inquiry :
    let region := "(Agent[04]VOTE ANY)".toList
    let bare := "Agent[03] REQUEST (Agent[04]VOTE ANY)".toList
    let around := "BECAUSE (INQUIRE Agent[02] ( Agent[03] REQUEST (Agent[04]VOTE ANY) )) (Skip)"
    Phrase.Opening ⟨3⟩ (Agent.speakerText ⟨3⟩) ∧ Phrase.IsRegion region ∧
      (compileWithin 3 bare).operator = .request ∧
      (Compilation.ofText 3 around.toList).InReach ∧
      Text.groupAt? [0, 0] around.toList = some (' ' :: bare ++ [' ']) ∧
      compileWithin 3 bare =
        compileWithin 3 "Agent[03] REQUEST Agent[04] (Agent[04]VOTE ANY)".toList ∧
      (∃ operand, (compileWithin 3 bare).operands = [operand] ∧
        ¬ "Agent[04]".toList <+: stripSubject operand.text) ∧
      ∃ n, (compileWithin 3 around.toList).at? [0, 0] = some n ∧ n.target = ⟨4⟩ := by
  intro region bare around
  have hfront : Phrase.Opening ⟨3⟩ (Agent.speakerText ⟨3⟩) :=
    (Agent.speakerPrefix_speakerText ⟨3⟩).opening
  have hregion : Phrase.IsRegion region := ⟨rfl, rfl⟩
  have hrequest : (compileWithin 3 bare).operator = .request := by decide +kernel
  have hreach : (Compilation.ofText 3 around.toList).InReach := by decide +kernel
  have hplace : Text.groupAt? [0, 0] around.toList = some (' ' :: bare ++ [' ']) := by
    decide +kernel
  have haddressee : firstSpeaker 3 region = ⟨4⟩ := by decide +kernel
  have hbare : Agent.speakerText ⟨3⟩ ++ ("REQUEST".toList ++ field region) = bare := by
    decide +kernel
  have haddressed : Agent.speakerText ⟨3⟩ ++ ("REQUEST".toList ++
      (field (Agent.targetText ⟨4⟩) ++ field region)) =
        "Agent[03] REQUEST Agent[04] (Agent[04]VOTE ANY)".toList := by
    decide +kernel
  obtain ⟨hsame, -, hprinted, htarget⟩ := compileWithin_bareRequest 3 hfront hregion
  rw [hbare, haddressee, haddressed] at hsame
  rw [hbare] at hprinted
  simp only [hbare] at htarget
  obtain ⟨operand, hoperands, -, hcut⟩ := hprinted hrequest
  have hspelling : (⟨4⟩ : Agent).Spelling "Agent[04]".toList := Agent.spelling_token _
  obtain ⟨n, hn⟩ : ∃ n, (compileWithin 3 around.toList).at? [0, 0] = some n :=
    Option.isSome_iff_exists.mp (by decide +kernel)
  refine ⟨hfront, hregion, hrequest, hreach, hplace, hsame,
    ⟨operand, hoperands, hcut _ _ hspelling⟩, n, hn, ?_⟩
  -- by itself the request needs one level, and inside it has as many
  rw [htarget around.toList [0, 0] _ n 1 hreach hplace (by decide +kernel) hn (Nat.le_refl 3)]
  decide +kernel

end Parley.Statement
