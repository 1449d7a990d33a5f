import Parley.Proofs.Statement.Stability

/-!
# The limit of nesting

A limit on the levels of operands cuts off what lies deeper and touches nothing else. A text
compiles to the same statement within two limits exactly if what it compiles to within the wider one
fits into the narrower one.

## Key results

- `nesting_ofPhrase?_le_iff`: what it takes for the statement of a phrase to fit into a limit
- `compileWithin_eq_of_nesting_le`: a limit that nothing exceeds is as good as any wider one
- `compileWithin_eq_iff_nesting_le`: and one that is exceeded is not
-/

namespace Parley

namespace Statement

/-- The number of operands does not depend on how they are compiled, so a phrase that is refused is
refused within every limit. -/
private theorem ofPhrase?_eq_none {compile : Text → Statement} {phrase : Phrase}
    (h : ofPhrase? (some compile) phrase = none) (compileOperand : Option (Text → Statement)) :
    ofPhrase? compileOperand phrase = none := by
  -- operands are refused for their number, or because no level is left
  have hoperands : ∀ operator region, operandsOf? (some compile) operator region = none →
      operandsOf? compileOperand operator region = none := by
    intro operator region hnone
    simp only [operandsOf?, Option.bind_some, ite_eq_right_iff] at hnone
    cases compileOperand with
    | none => rfl
    | some _ =>
      simp only [operandsOf?, Option.bind_some, ite_eq_right_iff]
      exact fun haccepts => absurd (hnone haccepts) (Option.some_ne_none _)
  cases phrase with
  | simple head => contradiction
  | compound head region =>
    exact Option.map_eq_none_iff.mpr (hoperands _ _ (Option.map_eq_none_iff.mp h))
  | bareRequest subject region =>
    exact Option.map_eq_none_iff.mpr (hoperands _ _ (Option.map_eq_none_iff.mp h))

/-- The statement of a phrase depends on what its own operands compile to. -/
private theorem ofPhrase?_congr {first second : Text → Statement} {phrase : Phrase}
    (h : ∀ group ∈ phrase.groups, first group = second group) :
    ofPhrase? (some first) phrase = ofPhrase? (some second) phrase := by
  have hoperands : ∀ operator region, (∀ group ∈ Text.groups region, first group = second group) →
      operandsOf? (some first) operator region = operandsOf? (some second) operator region := by
    intro operator region hgroups
    simp only [operandsOf?, Option.bind_some, List.map_congr_left hgroups]
  cases phrase with
  | simple head => rfl
  | compound head region => rw [ofPhrase?, ofPhrase?, hoperands _ _ h]
  | bareRequest subject region => rw [ofPhrase?, ofPhrase?, hoperands _ _ h]

/-- The statement of a phrase is simple, or it has one level for itself and the levels of its
operands below it. -/
private theorem nesting_ofPhrase?_le_iff {compile : Text → Statement} {phrase : Phrase}
    {s : Statement} (hphrase : phrase.WellFormed) (h : ofPhrase? (some compile) phrase = some s) :
    (∃ head, phrase = .simple head) ∨
      ∀ limit, s.nesting ≤ limit ↔
        0 < limit ∧ ∀ group ∈ phrase.groups, (compile group).nesting ≤ limit - 1 := by
  -- completion keeps the depth, so the level counts as it does in the tree
  have hassemble : ∀ (head : Head) (region : Text), head.topic = .operator → ∀ limit,
      (assemble head ((Text.groups region).map compile)).nesting ≤ limit ↔
        0 < limit ∧ ∀ group ∈ Text.groups region, (compile group).nesting ≤ limit - 1 := by
    intro head region hop limit
    rw [assemble, finish, nesting_complete, nesting_le_iff hop, List.forall_mem_map]
  cases phrase with
  | simple head => exact Or.inl ⟨head, rfl⟩
  | compound head region =>
    obtain ⟨operands, hoperands, rfl⟩ := Option.map_eq_some_iff.mp h
    obtain ⟨_, hcompile, _, rfl⟩ := operandsOf?_eq_some hoperands
    cases hcompile
    exact Or.inr (hassemble head region hphrase.2)
  | bareRequest subject region =>
    obtain ⟨operands, hoperands, rfl⟩ := Option.map_eq_some_iff.mp h
    obtain ⟨_, hcompile, _, rfl⟩ := operandsOf?_eq_some hoperands
    cases hcompile
    exact Or.inr (hassemble _ region rfl)

/-- One step of compilation gives the same within two limits if the outcome within the wider one
fits into the narrower one, and if operands that fit into what is left of it are compiled alike. -/
private theorem getD_ofPhrase?_congr {compileOperand : Option (Text → Statement)}
    {compile : Text → Statement} {limit : Nat} {t : Text}
    (hoperands : ∀ phrase : Phrase, 0 < limit →
      (∀ group ∈ phrase.groups, (compile group).nesting ≤ limit - 1) →
      ofPhrase? compileOperand phrase = ofPhrase? (some compile) phrase)
    (h : (((Phrase.ofText? t.trim).bind (ofPhrase? (some compile))).getD skip).nesting ≤ limit) :
    ((Phrase.ofText? t.trim).bind (ofPhrase? compileOperand)).getD skip =
      ((Phrase.ofText? t.trim).bind (ofPhrase? (some compile))).getD skip := by
  -- the reader is not asked about limits, so both sides have the same phrase or none
  cases hread : Phrase.ofText? t.trim with
  | none => rfl
  | some phrase =>
    rw [hread, Option.bind_some] at h
    rw [Option.bind_some, Option.bind_some]
    cases hmade : ofPhrase? (some compile) phrase with
    | none => rw [ofPhrase?_eq_none hmade]
    | some s =>
      rw [hmade, Option.getD_some] at h
      rcases nesting_ofPhrase?_le_iff (Phrase.wellFormed_of_ofText? hread) hmade with
        ⟨head, rfl⟩ | hnesting
      · -- a simple statement has no operands to compile
        rw [← hmade]
        rfl
      · obtain ⟨hlevel, hgroups⟩ := (hnesting limit).mp h
        rw [hoperands phrase hlevel hgroups, hmade]

/-- A limit that is not exceeded within a wider one makes no difference. -/
theorem compileWithin_eq_of_nesting_le {limit more : Nat} (hle : limit ≤ more) {t : Text}
    (h : (compileWithin more t).nesting ≤ limit) :
    compileWithin limit t = compileWithin more t := by
  -- the operands are compiled within smaller limits, both of them
  induction limit generalizing more t with
  | zero =>
    cases more with
    | zero => rfl
    | succ more =>
      rw [compileWithin_succ] at h
      rw [compileWithin_zero, compileWithin_succ]
      -- no level is left for a phrase with operands, so there are none to compare
      exact getD_ofPhrase?_congr (fun _ hlevel => absurd hlevel (Nat.lt_irrefl 0)) h
  | succ limit ih =>
    obtain ⟨more, rfl⟩ : ∃ n, more = n + 1 := ⟨more - 1, by omega⟩
    rw [compileWithin_succ] at h
    rw [compileWithin_succ, compileWithin_succ]
    refine getD_ofPhrase?_congr ?_ h
    -- each operand fits into what is left, and so it is the same within both limits
    intro phrase _ hgroups
    exact ofPhrase?_congr fun group hgroup =>
      ih (Nat.le_of_succ_le_succ hle) (hgroups group hgroup)

/-- The limit cuts exactly what is too deep. What a text compiles to fits into the limit, and it is
the same as within a wider limit exactly if what the text compiles to there fits as well. -/
theorem compileWithin_eq_iff_nesting_le {limit more : Nat} (hle : limit ≤ more) (t : Text) :
    (compileWithin limit t).nesting ≤ limit ∧
      (compileWithin limit t = compileWithin more t ↔ (compileWithin more t).nesting ≤ limit) := by
  have hfits := (compiled_compileWithin limit t).fits.1
  refine ⟨hfits, ?_, compileWithin_eq_of_nesting_le hle⟩
  intro h
  rwa [← h]

/-- A request without an addressee, over a negation that is one level too deep: the `Skip` in its
place has no speaker whom the request could be addressed to. -/
theorem compileWithin_eq_iff_nesting_le_request :
    let t := "REQUEST (Agent[02] NOT (Over))".toList
    (1 ≤ 2 ∧ (compileWithin 1 t).nesting ≤ 1 ∧ compileWithin 1 t ≠ compileWithin 2 t) ∧
      (2 ≤ 5 ∧ compileWithin 2 t = compileWithin 5 t) := by
  intro t
  have hdeep : ¬ (compileWithin 2 t).nesting ≤ 1 := by decide +kernel
  have hfits : (compileWithin 5 t).nesting ≤ 2 := by decide +kernel
  obtain ⟨hnarrow, hiff⟩ := compileWithin_eq_iff_nesting_le (show 1 ≤ 2 by decide) t
  refine ⟨⟨by decide, hnarrow, mt hiff.mp hdeep⟩, by decide, ?_⟩
  exact (compileWithin_eq_iff_nesting_le (show 2 ≤ 5 by decide) t).2.mpr hfits

end Statement

end Parley
