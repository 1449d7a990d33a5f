import Parley.Proofs.Text.Balance
import Parley.Proofs.Text.Token

/-!
# A text and its outermost groups

Whatever its brackets are like, a text can be taken apart in one way: into the groups that close in
it, with what stands in front of each, into what stands behind the last of them, and into a group
that is opened there and never closed. The splitter finds the groups of this decomposition.

## Key results

- `exists_balanced_of_closes`: a text that closes more than it opens does so behind a balanced part
- `exists_decomposition` / `Decomposition.text_injective`: every text is taken apart in one way
- `groups_text`: the splitter finds the groups of a decomposition
- `groups_eq_iff_decomposition`: the specification of the splitter
-/

namespace Parley.Text

/-- A text in which a bracket that stands in front of it is never closed. -/
def StaysOpen (t : Text) : Prop :=
  ∀ p, p <+: t → p.count ')' ≤ p.count '('

/-- A group of a text, and what stands in front of it. -/
@[ext]
structure Group where
  before : Text
  interior : Text
  not_mem_before : '(' ∉ before
  balanced : Balanced interior

/-- A text, taken apart: its groups, what stands behind the last of them, and a group that is never
closed, if there is one. -/
@[ext]
structure Decomposition where
  groups : List Group
  rest : Text
  unclosed : Option Text
  not_mem_rest : '(' ∉ rest
  staysOpen : ∀ u ∈ unclosed, StaysOpen u

/-- A group as it stands in a text, with its brackets and what is in front of them. -/
def Group.text (g : Group) : Text :=
  g.before ++ '(' :: g.interior ++ [')']

namespace Decomposition

/-- What stands behind the last group that closes. -/
def ending (d : Decomposition) : Text :=
  match d.unclosed with
  | none => []
  | some u => '(' :: u

/-- The text that has been taken apart. -/
def text (d : Decomposition) : Text :=
  d.groups.flatMap Group.text ++ (d.rest ++ d.ending)

/-- The interiors of the groups, in order. -/
def interiors (d : Decomposition) : List Text :=
  d.groups.map Group.interior

/-- The decomposition with one more group in front. -/
def cons (g : Group) (d : Decomposition) : Decomposition :=
  { d with groups := g :: d.groups }

/-- The text begins with the group that is put in front. -/
theorem text_cons (g : Group) (d : Decomposition) :
    (d.cons g).text = g.before ++ '(' :: (g.interior ++ ')' :: d.text) := by
  simp [cons, text, ending, Group.text]

end Decomposition

/-! ### Where a bracket is closed -/

/-- A text that closes more than it opens does so for the first time behind a balanced part. -/
theorem exists_balanced_of_closes {t p : Text} (hp : p <+: t)
    (hcloses : p.count '(' < p.count ')') : ∃ g r, Balanced g ∧ t = g ++ ')' :: r := by
  -- the induction is on the prefix that closes too much: the shortest one ends in the bracket
  induction hlength : p.length using Nat.strongRecOn generalizing p with
  | ind n ih =>
    rcases List.eq_nil_or_concat p with rfl | ⟨g, c, rfl⟩
    · simp at hcloses
    · rw [List.concat_eq_append] at hp hcloses hlength
      -- either the last character is the first to close too much, or a shorter prefix does so
      by_cases hstays : StaysOpen g
      · have hle := hstays g (List.prefix_refl g)
        have hclose : c = ')' := by
          by_contra hne
          simp [List.count_append, List.count_cons, hne] at hcloses
          omega
        subst hclose
        have heq : g.count '(' = g.count ')' := by
          simp [List.count_append] at hcloses
          omega
        obtain ⟨r, rfl⟩ := hp
        exact ⟨g, r, ⟨heq, hstays⟩, List.append_assoc ..⟩
      · obtain ⟨q, hq, hlt⟩ : ∃ q, q <+: g ∧ q.count '(' < q.count ')' := by
          simpa [StaysOpen] using hstays
        have hshorter : q.length < n := by
          have := hq.length_le
          simp at hlength
          omega
        exact ih _ hshorter (hq.trans ((List.prefix_append g [c]).trans hp)) hlt rfl

/-- Behind a balanced text, a closing bracket closes one that stands in front. -/
theorem Balanced.not_staysOpen {g u : Text} (hg : Balanced g) (h : g ++ [')'] <+: u) :
    ¬ StaysOpen u := by
  intro hstays
  have hle := hstays _ h
  have heq := hg.count_eq
  simp [List.count_append] at hle
  omega

/-- Of two balanced texts that are closed at the same place, neither goes on longer than the other.
-/
private theorem Balanced.eq_of_prefix {g g' r r' : Text} (hg : Balanced g) (hg' : Balanced g')
    (hbegins : g <+: g') (h : g ++ ')' :: r = g' ++ ')' :: r') : g = g' := by
  obtain ⟨s, rfl⟩ := hbegins
  cases s with
  | nil => exact (List.append_nil g).symm
  | cons c s =>
    -- the longer text would go on behind the bracket that closes the shorter one
    rw [List.append_assoc, List.append_cancel_left_eq, List.cons_append, List.cons.injEq] at h
    obtain ⟨rfl, -⟩ := h
    exact absurd hg'.prefix_le (hg.not_staysOpen ⟨s, List.append_assoc ..⟩)

/-- A group ends at one place only. -/
theorem Balanced.closing_unique {g g' r r' : Text} (hg : Balanced g) (hg' : Balanced g')
    (h : g ++ ')' :: r = g' ++ ')' :: r') : g = g' ∧ r = r' := by
  have hinterior : g = g' := by
    -- both texts begin with the interiors, so one of these begins with the other
    have hleft : g <+: g' ++ ')' :: r' := ⟨')' :: r, h⟩
    rcases List.prefix_or_prefix_of_prefix hleft (List.prefix_append _ _) with hp | hp
    · exact hg.eq_of_prefix hg' hp h
    · exact (hg'.eq_of_prefix hg hp h.symm).symm
  subst hinterior
  exact ⟨rfl, by simpa using h⟩

/-- What stands in front of the first opening bracket of a text ends there. -/
private theorem before_unique {s s' t t' : Text} (hs : '(' ∉ s) (hs' : '(' ∉ s')
    (ht : ∀ c ∈ t.head?, c = '(') (ht' : ∀ c ∈ t'.head?, c = '(') (h : s ++ t = s' ++ t') :
    s = s' ∧ t = t' := by
  -- both parts are found by going on up to the first opening bracket
  have hrun : ∀ {s t : Text}, '(' ∉ s → (∀ c ∈ t.head?, c = '(') →
      (s ++ t).takeWhile (· != '(') = s ∧ (s ++ t).dropWhile (· != '(') = t := by
    intro s t hs ht
    refine takeWhile_and_dropWhile_iff.mpr ⟨?_, rfl, ?_⟩
    · intro c hc
      simpa using fun hopen : c = '(' => hs (hopen ▸ hc)
    · intro c hc
      simpa using ht c hc
  obtain ⟨htake, hdrop⟩ := hrun hs ht
  rw [h] at htake hdrop
  obtain ⟨htake', hdrop'⟩ := hrun hs' ht'
  exact ⟨htake.symm.trans htake', hdrop.symm.trans hdrop'⟩

namespace Decomposition

/-! ### Every text is taken apart in one way -/

/-- Behind the last group, nothing follows or an opening bracket. -/
theorem head?_ending (d : Decomposition) : ∀ c ∈ d.ending.head?, c = '(' := by
  unfold ending
  split <;> simp

/-- A property holds of every decomposition if it holds of those without groups and if it is handed
on to a decomposition with one more group in front. -/
@[elab_as_elim]
theorem induction {motive : Decomposition → Prop} (last : ∀ d, d.groups = [] → motive d)
    (cons : ∀ g d, motive d → motive (cons g d)) (d : Decomposition) : motive d := by
  obtain ⟨groups, rest, unclosed, hrest, hstays⟩ := d
  induction groups with
  | nil => exact last _ rfl
  | cons g groups ih => exact cons g ⟨groups, rest, unclosed, hrest, hstays⟩ ih

/-- Without groups that close there is only what stands behind the last one. -/
theorem text_of_groups_eq_nil {d : Decomposition} (h : d.groups = []) :
    d.text = d.rest ++ d.ending := by
  rw [text, h, List.flatMap_nil, List.nil_append]

/-- A group that closes is not mistaken for one that does not. -/
private theorem text_cons_ne {g : Group} {d e : Decomposition} (h : e.groups = []) :
    (cons g d).text ≠ e.text := by
  intro htext
  rw [text_cons, text_of_groups_eq_nil h] at htext
  -- both texts open their first bracket at the same place
  obtain ⟨-, hending⟩ :=
    before_unique g.not_mem_before e.not_mem_rest (by simp) e.head?_ending htext
  unfold ending at hending
  split at hending
  · exact nomatch hending
  · next u hunclosed =>
    obtain ⟨-, rfl⟩ := List.cons.inj hending
    exact g.balanced.not_staysOpen ⟨d.text, by simp⟩ (e.staysOpen _ hunclosed)

/-- No text is taken apart in two ways. -/
theorem text_injective {d e : Decomposition} (h : d.text = e.text) : d = e := by
  induction d using Decomposition.induction generalizing e with
  | last d hnil =>
    induction e using Decomposition.induction with
    | cons g e => exact absurd h.symm (text_cons_ne hnil)
    | last e hnil' =>
      -- no group closes on either side, so the texts agree up to the bracket that stays open
      rw [text_of_groups_eq_nil hnil, text_of_groups_eq_nil hnil'] at h
      obtain ⟨hrest, hending⟩ :=
        before_unique d.not_mem_rest e.not_mem_rest d.head?_ending e.head?_ending h
      have hunclosed : d.unclosed = e.unclosed := by
        unfold ending at hending
        split at hending <;> split at hending <;> simp_all
      exact Decomposition.ext (hnil.trans hnil'.symm) hrest hunclosed
  | cons g d ih =>
    induction e using Decomposition.induction with
    | last e hnil => exact absurd h (text_cons_ne hnil)
    | cons g' e =>
      -- the groups begin at the same bracket, so they end at the same one too
      rw [text_cons, text_cons] at h
      obtain ⟨hbefore, htail⟩ :=
        before_unique g.not_mem_before g'.not_mem_before (by simp) (by simp) h
      obtain ⟨hinterior, hrest⟩ :=
        g.balanced.closing_unique g'.balanced (List.cons.inj htail).2
      rw [Group.ext hbefore hinterior, ih hrest]

/-- Every text can be taken apart. -/
theorem exists_decomposition (t : Text) : ∃ d : Decomposition, d.text = t := by
  induction hlength : t.length using Nat.strongRecOn generalizing t with
  | ind n ih =>
    -- what stands in front of the first opening bracket is set aside
    have hbefore : '(' ∉ t.takeWhile (· != '(') := fun hmem => by
      simpa using List.mem_takeWhile_imp hmem
    obtain ⟨-, ht, hstop⟩ := (takeWhile_and_dropWhile_iff (p := (· != '(')) (t := t)).mp ⟨rfl, rfl⟩
    generalize t.takeWhile (· != '(') = s at ht hbefore
    cases hopen : t.dropWhile (· != '(') with
    | nil =>
      -- no bracket is opened
      rw [hopen, List.append_nil] at ht
      exact ⟨⟨[], s, none, hbefore, by simp⟩, by simp [text, ending, ht]⟩
    | cons c u =>
      rw [hopen] at ht hstop
      obtain rfl : c = '(' := by simpa using hstop
      -- that bracket is never closed, or a balanced group ends where it is
      by_cases hstays : StaysOpen u
      · exact ⟨⟨[], s, some u, hbefore, by simpa using hstays⟩, by simp [text, ending, ht]⟩
      · obtain ⟨p, hp, hcloses⟩ : ∃ p, p <+: u ∧ p.count '(' < p.count ')' := by
          simpa [StaysOpen] using hstays
        obtain ⟨g, r, hg, rfl⟩ := exists_balanced_of_closes hp hcloses
        -- what follows the group is shorter than the text
        have hshorter : r.length < n := by
          rw [ht] at hlength
          simp at hlength
          omega
        obtain ⟨d, rfl⟩ := ih _ hshorter r rfl
        exact ⟨cons ⟨s, g, hbefore, hg⟩ d, by rw [text_cons, ht]⟩

/-! ### The splitter finds the groups -/

/-- The splitter finds the groups of a decomposition. -/
theorem groups_text (d : Decomposition) : Text.groups d.text = d.interiors := by
  induction d using Decomposition.induction with
  | last d hnil =>
    rw [text_of_groups_eq_nil hnil, groups_append_of_not_mem d.not_mem_rest, interiors, hnil]
    unfold ending
    split
    · rfl
    · next u hunclosed => exact groups_unclosed (d.staysOpen u hunclosed)
  | cons g d ih =>
    -- what is in front of the group is passed over, and the group is found as a whole
    have hgroup : '(' :: (g.interior ++ ')' :: d.text) = '(' :: g.interior ++ ')' :: d.text := rfl
    rw [text_cons, groups_append_of_not_mem g.not_mem_before, hgroup,
      groups_enclosed g.balanced, ih]
    rfl

/-- The groups of a text stand in it one behind the other, each between its own brackets. -/
theorem exists_spans (d : Decomposition) (front : Text) :
    ∃ spans : List (Nat × Nat),
      d.interiors = spans.map (fun span => (front ++ d.text).extract span.1 span.2) ∧
      spans.Pairwise (fun a b => a.2 < b.1) ∧
      ∀ span ∈ spans, front.length < span.1 ∧ span.1 ≤ span.2 ∧
        (front ++ d.text)[span.1 - 1]? = some '(' ∧ (front ++ d.text)[span.2]? = some ')' := by
  induction d using Decomposition.induction generalizing front with
  | last d hnil => exact ⟨[], by simp [interiors, hnil], .nil, by simp⟩
  | cons g d ih =>
    -- the other groups stand behind this one
    let opened := front ++ g.before ++ ['(']
    have htext : front ++ (cons g d).text = opened ++ (g.interior ++ ')' :: d.text) := by
      simp [opened, text_cons]
    have hbehind : opened ++ (g.interior ++ ')' :: d.text) =
        (opened ++ g.interior ++ [')']) ++ d.text := by
      simp
    obtain ⟨spans, hinteriors, hpairwise, hspans⟩ := ih (opened ++ g.interior ++ [')'])
    rw [← hbehind] at hinteriors hspans
    rw [htext]
    have hopened : opened.length = front.length + g.before.length + 1 := by
      simp [opened]
      omega
    refine ⟨(opened.length, opened.length + g.interior.length) :: spans, ?_, ?_, ?_⟩
    · have hgroup : (opened ++ (g.interior ++ ')' :: d.text)).extract opened.length
          (opened.length + g.interior.length) = g.interior := by
        simp [List.extract]
      rw [List.map_cons, hgroup, ← hinteriors]
      rfl
    · refine List.pairwise_cons.mpr ⟨fun span hmem => ?_, hpairwise⟩
      have := (hspans span hmem).1
      simp at this
      omega
    · refine List.forall_mem_cons.mpr ⟨⟨by omega, by simp, ?_, ?_⟩, fun span hmem => ?_⟩
      · simp [opened]
      · simp
      · obtain ⟨hbegins, hrest⟩ := hspans span hmem
        simp at hbegins
        exact ⟨by omega, hrest⟩

/-- A group is shorter than the text, by its two brackets at least. -/
theorem length_interior_le (d : Decomposition) :
    ∀ g ∈ d.interiors, g.length + 2 ≤ d.text.length := by
  induction d using Decomposition.induction with
  | last d hnil => simp [interiors, hnil]
  | cons g d ih =>
    refine List.forall_mem_cons.mpr ⟨?_, fun interior hmem => ?_⟩
    · simp [text_cons]
      omega
    · have := ih interior hmem
      simp [text_cons]
      omega

end Decomposition

/-- The splitter is exact. The groups that it finds are those of the decomposition of the text,
which exists and is the only one. They stand in the text one behind the other, each between an
opening bracket and a closing one, and so each is shorter than the text by two characters at
least. -/
theorem groups_eq_iff_decomposition (t : Text) :
    (∀ gs : List Text, groups t = gs ↔ ∃ d : Decomposition, d.text = t ∧ d.interiors = gs) ∧
      (∃! d : Decomposition, d.text = t) ∧
      (∃ spans : List (Nat × Nat),
        groups t = spans.map (fun span => t.extract span.1 span.2) ∧
        spans.Pairwise (fun a b => a.2 < b.1) ∧
        ∀ span ∈ spans, 0 < span.1 ∧ span.1 ≤ span.2 ∧
          t[span.1 - 1]? = some '(' ∧ t[span.2]? = some ')') ∧
      ∀ g ∈ groups t, g.length + 2 ≤ t.length := by
  obtain ⟨d, rfl⟩ := Decomposition.exists_decomposition t
  rw [d.groups_text]
  refine ⟨fun gs => ⟨fun h => ⟨d, rfl, h⟩, ?_⟩, ⟨d, rfl, ?_⟩, d.exists_spans [],
    d.length_interior_le⟩
  -- any other decomposition of the text is the same one
  · rintro ⟨e, htext, rfl⟩
    rw [Decomposition.text_injective htext]
  · exact fun e htext => Decomposition.text_injective htext

/-- A closing bracket that closes nothing, two groups with a stray text between them, and a group
that is never closed, although one inside it is. -/
example : groups "a)(b(c))d)()e((f)".toList = ["b(c)".toList, []] := by decide

end Parley.Text
