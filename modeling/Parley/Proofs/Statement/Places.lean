import Parley.Proofs.Statement.Acceptance
import Parley.Proofs.Statement.Ancestry
import Parley.Proofs.Statement.GrammarText

/-!
# Places in a text

The groups of a text are compiled one by one, so the node at a place of a statement goes back to the
group at the same place of its text. What is around the group makes no difference to the node but
for the speaker, and how many levels are left there makes none as long as they are enough.

## Key results

- `toHead_at?_compileWithin`: the node at a place is what the text at the place compiles to
- `inReach_of_at?`: nothing at a place is nested too deeply if nothing in the whole text is
- `compileWithin_eq_of_inReach`: if nothing is nested too deeply, then a wider limit makes no
  difference
- `toHead_at?_of_inReach`: and then the node at a place is what its text compiles to alone
-/

namespace Parley

/-- Whether the event says that a statement is nested too deeply. -/
def Event.isTooDeep : Event → Bool
  | .nestedTooDeeply _ => true
  | .matched | .wrongOperandCount _ _ | .unparseable _ _ => false

/-- Nothing in the text is nested too deeply. -/
def Compilation.InReach (c : Compilation) : Prop :=
  ∀ e ∈ c.events, ¬ e.isTooDeep

instance (c : Compilation) : Decidable c.InReach :=
  inferInstanceAs (Decidable (∀ e ∈ c.events, ¬ e.isTooDeep))

/-- What is in reach of a text is in reach of its operands, whose events are among its own. -/
theorem Compilation.InReach.operand {limit depth : Nat} {t g : Text} {p : Phrase}
    (h : (atDepth limit depth t).InReach) (hread : Phrase.ofText? t.trim = some p)
    (hadmissible : p.Admissible limit) (hg : g ∈ p.groups) :
    (atDepth (limit - 1) (depth + 1) g).InReach := by
  intro e he
  apply h e
  rw [events_of_admissible hread hadmissible]
  exact List.mem_cons_of_mem _ (List.mem_flatMap_of_mem hg he)

/-- The text at a place of a text: the group at the place, from the text itself down. -/
def Text.groupAt? : List Nat → Text → Option Text
  | [], t => some t
  | i :: path, t => (Text.groups t.trim)[i]?.bind (groupAt? path)

namespace Statement

/-! ### From a place in the tree to the text -/

/-- The operands of an accepted text are its groups, compiled with a level less and completed in the
context of the whole. -/
theorem operands_compileWithin {limit : Nat} {t : Text} {p : Phrase}
    (hread : Phrase.ofText? t.trim = some p) (hadmissible : p.Admissible limit) :
    (compileWithin limit t).operands =
      p.groups.map fun g =>
        completeIn (compileWithin limit t).toHead.context (compileWithin (limit - 1) g) := by
  have hhead := headWithin_spokenBy (Phrase.wellFormed_of_ofText? hread) limit
  rw [toHead_compileWithin hread hadmissible, compileWithin_eq_assemble hread hadmissible, assemble,
    finish, operands_complete, hhead, completeAll_eq_map, List.map_map]
  rfl

/-- A place below the root of a compiled text is a place in one of its groups, compiled by itself,
but for the speaker. -/
theorem exists_group_of_at? {limit : Nat} {t : Text} {i : Nat} {path : List Nat} {n : Statement}
    (h : (compileWithin limit t).at? (i :: path) = some n) :
    ∃ p g m subject, Phrase.ofText? t.trim = some p ∧ p.Admissible limit ∧ p.groups[i]? = some g ∧
      (compileWithin (limit - 1) g).at? path = some m ∧
      n.toHead = m.toHead.spokenBy subject := by
  -- a text that is given up has no places below the root
  obtain ⟨p, hread, hadmissible⟩ : ∃ p, Phrase.ofText? t.trim = some p ∧ p.Admissible limit := by
    refine (admissible_or_skip limit t).resolve_right ?_
    intro hskip
    rw [hskip] at h
    exact nomatch h
  rw [at?, operands_compileWithin hread hadmissible, List.getElem?_map] at h
  obtain ⟨operand, hoperand, hn⟩ := Option.bind_eq_some_iff.mp h
  obtain ⟨g, hg, rfl⟩ := Option.map_eq_some_iff.mp hoperand
  -- completing the operand in the whole changes nothing at its places but the speakers
  have hheads := congrArg (Option.map Statement.toHead) hn
  rw [map_toHead_at?_completeIn, Option.map_some, Option.map_eq_some_iff] at hheads
  obtain ⟨m, hm, hhead⟩ := hheads
  exact ⟨p, g, m, _, hread, hadmissible, hg, hm, hhead.symm⟩

/-- The node at a place is what the text at the place compiles to, but for the speaker, with as many
levels left as there are below the place. -/
theorem toHead_at?_compileWithin {limit : Nat} {t q : Text} {path : List Nat} {n : Statement}
    (hq : Text.groupAt? path t = some q) (h : (compileWithin limit t).at? path = some n) :
    ∃ subject, n.toHead = (compileWithin (limit - path.length) q).toHead.spokenBy subject := by
  -- induction on the place, with the text and the limit of the group at its first step
  induction path generalizing limit t n with
  | nil =>
    obtain rfl : t = q := Option.some.inj hq
    obtain rfl : compileWithin limit t = n := Option.some.inj h
    have hsettled := forall_settled_compileWithin limit t _ (mem_nodes_self _)
    exact ⟨_, (Head.spokenBy_subject hsettled.addressee).symm⟩
  | cons i path ih =>
    obtain ⟨p, g, m, subject, hread, -, hg, hm, hhead⟩ := exists_group_of_at? h
    obtain ⟨pattern, hgrammar⟩ := Phrase.ofText?_eq_some_iff.mp hread
    rw [Text.groupAt?, hgrammar.groups_eq, hg, Option.bind_some] at hq
    obtain ⟨other, hother⟩ := ih hq hm
    -- of two speakers on the way down the last one counts
    refine ⟨subject, ?_⟩
    rw [hhead, hother, Head.spokenBy_spokenBy, List.length_cons, Nat.sub_sub, Nat.add_comm 1]

/-- What is in reach of a text is in reach of the text at every place of it. -/
theorem inReach_of_at? {limit depth : Nat} {t q : Text} {path : List Nat} {n : Statement}
    (hreach : (Compilation.atDepth limit depth t).InReach) (hq : Text.groupAt? path t = some q)
    (h : (compileWithin limit t).at? path = some n) :
    (Compilation.atDepth (limit - path.length) (depth + path.length) q).InReach := by
  induction path generalizing limit depth t n with
  | nil =>
    cases hq
    exact hreach
  | cons i path ih =>
    obtain ⟨p, g, m, subject, hread, hadmissible, hg, hm, -⟩ := exists_group_of_at? h
    obtain ⟨pattern, hgrammar⟩ := Phrase.ofText?_eq_some_iff.mp hread
    rw [Text.groupAt?, hgrammar.groups_eq, hg, Option.bind_some] at hq
    have hbelow := ih (hreach.operand hread hadmissible (List.mem_of_getElem? hg)) hq hm
    -- the levels of the first step and of the rest are added up
    rwa [Nat.sub_sub, Nat.add_comm 1, Nat.add_assoc, Nat.add_comm 1] at hbelow

/-! ### Levels to spare -/

/-- A phrase that is refused, but is admissible within another limit, is too deep. -/
private theorem not_inReach_of_not_admissible {limit more depth : Nat} {t : Text} {p : Phrase}
    (hread : Phrase.ofText? t.trim = some p) (hmore : p.Admissible more)
    (h : ¬ p.Admissible limit) : ¬ (Compilation.atDepth limit depth t).InReach := by
  -- the number of operands is right, so it is the level that is missing
  have hzero : limit = 0 := by
    by_contra hne
    exact h (hmore.of_pos (Nat.pos_of_ne_zero hne))
  subst hzero
  have hdeep : .nestedTooDeeply depth ∈ (Compilation.atDepth 0 depth t).events := by
    rw [Compilation.atDepth, Compilation.step]
    cases p with
    | simple => exact absurd trivial h
    | compound | bareRequest =>
      simp [hread, Compilation.ofPhrase, Compilation.operands, Except.map]
  exact fun hreach => hreach _ hdeep rfl

/-- The head of a phrase depends on what its groups compile to. -/
theorem headWithin_congr {limit more : Nat} {p : Phrase}
    (h : p.groups.map (compileWithin (more - 1)) = p.groups.map (compileWithin (limit - 1))) :
    p.headWithin more = p.headWithin limit := by
  cases p with
  | simple | compound => rfl
  | bareRequest subject region =>
    have hgroups : (Text.groups region).map (compileWithin (more - 1)) =
      (Text.groups region).map (compileWithin (limit - 1)) := h
    rw [Phrase.headWithin, Phrase.headWithin, hgroups]

/-- If nothing is nested too deeply, then a wider limit makes no difference. -/
theorem compileWithin_eq_of_inReach {limit more depth : Nat} (hle : limit ≤ more) {t : Text}
    (h : (Compilation.atDepth limit depth t).InReach) :
    compileWithin more t = compileWithin limit t := by
  -- strong induction on the narrower limit; the wider one goes down along with it
  induction limit using Nat.strongRecOn generalizing more depth t with
  | ind limit ih =>
    cases hread : Phrase.ofText? t.trim with
    | none => rw [compileWithin_of_no_phrase hread, compileWithin_of_no_phrase hread]
    | some p =>
      by_cases hmore : p.Admissible more
      · have hadmissible : p.Admissible limit := by
          by_contra hrefused
          exact not_inReach_of_not_admissible hread hmore hrefused h
        have hoperands : p.groups.map (compileWithin (more - 1)) =
            p.groups.map (compileWithin (limit - 1)) := by
          apply List.map_congr_left
          intro g hg
          exact ih _ (Nat.sub_one_lt_of_lt (hadmissible.pos hg)) (Nat.sub_le_sub_right hle 1)
            (h.operand hread hadmissible hg)
        rw [compileWithin_eq_assemble hread hmore, compileWithin_eq_assemble hread hadmissible,
          headWithin_congr hoperands, hoperands]
      · -- what is refused within the wider limit is refused within the narrower one
        have hrefused : ¬ p.Admissible limit := fun hadmissible => hmore (hadmissible.mono hle)
        rw [compileWithin_of_refused hread hmore, compileWithin_of_refused hread hrefused]

/-- In a text of which nothing is nested too deeply, the node at a place is what its text compiles
to alone, but for the speaker, within every limit that leaves as many levels. -/
theorem toHead_at?_of_inReach {limit alone : Nat} {around q t : Text} {path : List Nat}
    {n : Statement} (hreach : (Compilation.ofText limit around).InReach)
    (hq : Text.groupAt? path around = some q) (htrim : q.trim = t.trim)
    (h : (compileWithin limit around).at? path = some n) (hle : limit ≤ alone + path.length) :
    ∃ subject, n.toHead = (compileWithin alone t).toHead.spokenBy subject := by
  -- alone, the text has as many levels as it has in its place, or more
  have halone : compileWithin alone t = compileWithin (limit - path.length) q := by
    rw [compileWithin_congr htrim.symm]
    exact compileWithin_eq_of_inReach (Nat.sub_le_of_le_add hle) (inReach_of_at? hreach hq h)
  rw [halone]
  exact toHead_at?_compileWithin hq h

end Statement

end Parley
