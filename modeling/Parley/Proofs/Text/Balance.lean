import Parley.Text.Bracket

/-!
# Balanced texts and their groups

A text is balanced when every bracket that it opens is closed in it, in order. The splitter of
groups walks through a balanced text without leaving the group that the text stands in, so operands
that are balanced one by one are found one by one.

## Key results

- `Balanced.append` / `Balanced.enclose`: balance is kept by concatenation and by brackets around
- `groupsFrom_append`: what the splitter has open after a text that closes no more than it opens
- `groups_enclosed`: a balanced text in brackets is the first group, and the splitter goes on behind
- `groups_unclosed`: a bracket that is never closed swallows everything after it
-/

namespace Parley.Text

/-- A text that opens and closes equally many brackets and never closes one that is not open. -/
structure Balanced (t : Text) : Prop where
  count_eq : t.count '(' = t.count ')'
  prefix_le : ∀ p : Text, p <+: t → p.count ')' ≤ p.count '('

/-- A text without brackets. -/
def Unbracketed (t : Text) : Prop :=
  '(' ∉ t ∧ ')' ∉ t

@[simp] theorem unbracketed_append {s t : Text} :
    Unbracketed (s ++ t) ↔ Unbracketed s ∧ Unbracketed t := by
  simp only [Unbracketed, List.mem_append, not_or]
  exact and_and_and_comm

@[simp] theorem unbracketed_nil : Unbracketed [] :=
  ⟨List.not_mem_nil, List.not_mem_nil⟩

@[simp] theorem unbracketed_cons {c : Char} {t : Text} :
    Unbracketed (c :: t) ↔ (c ≠ '(' ∧ c ≠ ')') ∧ Unbracketed t := by
  simp only [Unbracketed, List.mem_cons, not_or, @ne_comm _ c]
  exact and_and_and_comm

/-- A text whose characters are all of a kind that brackets are not of has no brackets. -/
theorem unbracketed_of_forall {P : Char → Prop} {t : Text} (h : ∀ c ∈ t, P c) (hopen : ¬ P '(')
    (hclose : ¬ P ')') : Unbracketed t :=
  ⟨fun hmem => hopen (h _ hmem), fun hmem => hclose (h _ hmem)⟩

/-- A text without brackets is balanced. -/
theorem Unbracketed.balanced {t : Text} (h : Unbracketed t) : Balanced t where
  -- no prefix closes anything
  count_eq := by rw [List.count_eq_zero_of_not_mem h.1, List.count_eq_zero_of_not_mem h.2]
  prefix_le := by
    intro p hp
    rw [List.count_eq_zero_of_not_mem fun hmem => h.2 (hp.subset hmem)]
    exact Nat.zero_le _

/-- The empty text is balanced. -/
theorem balanced_nil : Balanced [] :=
  unbracketed_nil.balanced

/-- A prefix of a concatenation ends in the first part or runs through it into the second. -/
private theorem prefix_append_cases {p s t : Text} (h : p <+: s ++ t) :
    p <+: s ∨ ∃ q, q <+: t ∧ p = s ++ q := by
  rcases List.prefix_or_prefix_of_prefix h (List.prefix_append s t) with hp | ⟨q, rfl⟩
  · exact Or.inl hp
  · exact Or.inr ⟨q, (List.prefix_append_right_inj s).mp h, rfl⟩

/-- Two balanced texts one behind the other are balanced. -/
theorem Balanced.append {s t : Text} (hs : Balanced s) (ht : Balanced t) : Balanced (s ++ t) where
  count_eq := by rw [List.count_append, List.count_append, hs.count_eq, ht.count_eq]
  prefix_le := by
    intro p hp
    rcases prefix_append_cases hp with hp | ⟨q, hq, rfl⟩
    · exact hs.prefix_le p hp
    · -- all of the first part is in the prefix, and it opens as many brackets as it closes
      have hcount := hs.count_eq
      have hle := ht.prefix_le q hq
      rw [List.count_append, List.count_append]
      omega

/-- A balanced text in brackets is balanced. -/
theorem Balanced.enclose {t : Text} (ht : Balanced t) : Balanced ('(' :: t ++ [')']) where
  count_eq := by
    have hcount := ht.count_eq
    simp [hcount]
  prefix_le := by
    intro p hp
    rcases prefix_append_cases hp with hp | ⟨q, hq, rfl⟩
    · -- the closing bracket is not reached
      cases p with
      | nil => simp
      | cons c p =>
        obtain ⟨rfl, _⟩ := List.cons_prefix_cons.mp hp
        have hle := ht.prefix_le p (List.cons_prefix_cons.mp hp).2
        simp
        omega
    · -- the prefix runs up to the closing bracket or through it
      have hcount := ht.count_eq
      have hle : q.count ')' ≤ 1 := hq.sublist.count_le ')'
      simp [List.count_append]
      omega

/-- A concatenation of balanced texts is balanced. -/
theorem balanced_flatMap {α : Type} {f : α → Text} {items : List α}
    (h : ∀ a ∈ items, Balanced (f a)) : Balanced (items.flatMap f) := by
  induction items with
  | nil => exact balanced_nil
  | cons a rest ih =>
    rw [List.flatMap_cons]
    exact (h a List.mem_cons_self).append (ih fun b hb => h b (List.mem_cons_of_mem _ hb))

/-! ### Groups -/

/-- A bracket that is opened inside a group belongs to the group. -/
theorem groupsFrom_open (depth : Nat) (seen t : Text) :
    groupsFrom (depth + 1) seen ('(' :: t) = groupsFrom (depth + 2) ('(' :: seen) t := rfl

/-- So does a bracket that closes one of those. -/
theorem groupsFrom_close_inner (inner : Nat) (seen t : Text) :
    groupsFrom (inner + 2) seen (')' :: t) = groupsFrom (inner + 1) (')' :: seen) t := rfl

/-- The bracket that closes the group itself ends it. -/
theorem groupsFrom_close (seen t : Text) :
    groupsFrom 1 seen (')' :: t) = seen.reverse :: groupsFrom 0 [] t := rfl

/-- Any other character inside a group belongs to it. -/
theorem groupsFrom_other {c : Char} (hopen : c ≠ '(') (hclose : c ≠ ')') (depth : Nat)
    (seen t : Text) :
    groupsFrom (depth + 1) seen (c :: t) = groupsFrom (depth + 1) (c :: seen) t := by
  simp only [groupsFrom, if_neg hopen, if_neg hclose]

/-- The splitter passes through a text that closes no more brackets than are open: all of it belongs
to the group that is open, and the count of open brackets goes up and down with the text. -/
private theorem groupsFrom_append (depth : Nat) (seen t rest : Text)
    (h : ∀ p, p <+: t → p.count ')' ≤ p.count '(' + depth) :
    groupsFrom (depth + 1) seen (t ++ rest) =
      groupsFrom (depth + t.count '(' - t.count ')' + 1) (t.reverse ++ seen) rest := by
  induction t generalizing depth seen with
  | nil => simp
  | cons c t ih =>
    have htail : ∀ p, p <+: t → (c :: p).count ')' ≤ (c :: p).count '(' + depth := fun p hp =>
      h (c :: p) (List.cons_prefix_cons.mpr ⟨rfl, hp⟩)
    have hself := htail [] (List.nil_prefix)
    -- the bound is handed on to the tail with one bracket more open, or one fewer, or as many
    -- one character is moved from the text to what has been seen of the group
    by_cases hopen : c = '('
    · subst hopen
      have hstep : ∀ p, p <+: t → p.count ')' ≤ p.count '(' + (depth + 1) := by
        intro p hp
        have := htail p hp
        simp at this
        omega
      have hdepth : depth + 1 + t.count '(' - t.count ')' =
          depth + ('(' :: t).count '(' - ('(' :: t).count ')' := by
        simp
        omega
      rw [List.cons_append, groupsFrom_open, ih (depth + 1) _ hstep, hdepth]
      simp
    · by_cases hclose : c = ')'
      · subst hclose
        -- a closing bracket is only met when an inner group is open
        obtain ⟨inner, rfl⟩ : ∃ inner, depth = inner + 1 := by
          simp at hself
          exact ⟨depth - 1, by omega⟩
        have hstep : ∀ p, p <+: t → p.count ')' ≤ p.count '(' + inner := by
          intro p hp
          have := htail p hp
          simp at this
          omega
        have hdepth : inner + t.count '(' - t.count ')' =
            inner + 1 + (')' :: t).count '(' - (')' :: t).count ')' := by
          simp
          omega
        rw [List.cons_append, groupsFrom_close_inner, ih inner _ hstep, hdepth]
        simp
      · -- no bracket, so the counts stay as they are
        have hcount : ∀ s : Text, (c :: s).count '(' = s.count '(' ∧
            (c :: s).count ')' = s.count ')' := by
          intro s
          exact ⟨List.count_cons_of_ne hopen, List.count_cons_of_ne hclose⟩
        have hstep : ∀ p, p <+: t → p.count ')' ≤ p.count '(' + depth := by
          intro p hp
          have := htail p hp
          rwa [(hcount p).1, (hcount p).2] at this
        rw [List.cons_append, groupsFrom_other hopen hclose, ih depth _ hstep, (hcount t).1,
          (hcount t).2]
        simp

/-- What stands in front of the first opening bracket is passed over. -/
theorem groups_cons_of_ne {c : Char} (h : c ≠ '(') (t : Text) : groups (c :: t) = groups t := by
  rw [groups, groupsFrom, if_neg h, groups]

/-- A text without opening brackets is passed over. -/
theorem groups_append_of_not_mem {s : Text} (h : '(' ∉ s) (t : Text) :
    groups (s ++ t) = groups t := by
  induction s with
  | nil => rfl
  | cons c s ih =>
    simp only [List.mem_cons, not_or] at h
    rw [List.cons_append, groups_cons_of_ne (Ne.symm h.1), ih h.2]

/-- A text without opening brackets has no groups, whatever it closes. -/
theorem groups_of_not_mem {t : Text} (h : '(' ∉ t) : groups t = [] := by
  have hskip := groups_append_of_not_mem h []
  rwa [List.append_nil] at hskip

/-- A bracket that is never closed swallows everything after it. -/
theorem groups_unclosed {t : Text} (h : ∀ p, p <+: t → p.count ')' ≤ p.count '(') :
    groups ('(' :: t) = [] := by
  have hpass := groupsFrom_append 0 [] t [] h
  rw [List.append_nil] at hpass
  -- the group is still open where the text ends
  rw [groups, groupsFrom, if_pos rfl, hpass, groupsFrom]

/-- A balanced text in brackets is the first group of a text that begins with it. -/
theorem groups_enclosed {t : Text} (ht : Balanced t) (rest : Text) :
    groups ('(' :: t ++ ')' :: rest) = t :: groups rest := by
  have hpass := groupsFrom_append 0 [] t (')' :: rest) ht.prefix_le
  -- after the text the one bracket in front of it is open again, and the next one closes it
  have hdepth : 0 + t.count '(' - t.count ')' + 1 = 1 := by
    have := ht.count_eq
    omega
  rw [hdepth, List.append_nil] at hpass
  rw [groups, List.cons_append, groupsFrom, if_pos rfl, hpass, groupsFrom_close,
    List.reverse_reverse, groups]

end Parley.Text
