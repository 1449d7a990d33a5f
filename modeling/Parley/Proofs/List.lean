import Mathlib.Data.List.Forall2

/-!
# List lemmas

General lemmas about lists: two maps over the same list, maps with effects, lists related member by
member, and parts joined by a separator.
-/

namespace Parley

/-- Where one function tells members apart, so does another one that the first one determines. -/
theorem map_eq_of_map_eq {α β γ : Type} {f : α → β} {g : α → γ} {first second : List α}
    (hfg : ∀ a ∈ first, ∀ b ∈ second, f a = f b → g a = g b)
    (h : first.map f = second.map f) : first.map g = second.map g := by
  -- the lists are as long as each other, since their images are
  induction first generalizing second with
  | nil =>
    rw [List.map_nil, List.nil_eq, List.map_eq_nil_iff] at h
    rw [h]
  | cons a first ih =>
    cases second with
    | nil => exact nomatch h
    | cons b second =>
      obtain ⟨hhead, htail⟩ := List.cons.inj h
      have hrest := ih (fun a ha b hb =>
        hfg a (List.mem_cons_of_mem _ ha) b (List.mem_cons_of_mem _ hb)) htail
      rw [List.map_cons, List.map_cons, hrest,
        hfg a List.mem_cons_self b List.mem_cons_self hhead]

/-- Actions that are the same on every member are the same on the list. -/
theorem mapM_congr {m : Type → Type} [Monad m] [LawfulMonad m] {α β : Type} {f g : α → m β}
    {items : List α} (h : ∀ a ∈ items, f a = g a) : items.mapM f = items.mapM g := by
  induction items with
  | nil => rfl
  | cons a rest ih =>
    have hrest := ih fun b hb => h b (List.mem_cons_of_mem a hb)
    rw [List.mapM_cons, List.mapM_cons, h a List.mem_cons_self, hrest]

/-- If an action has no effect on any member of a list, then it has none on the list. -/
theorem mapM_eq_pure {m : Type → Type} [Monad m] [LawfulMonad m] {α β : Type} {f : α → m β}
    {g : α → β} {items : List α} (h : ∀ a ∈ items, f a = pure (g a)) :
    items.mapM f = pure (items.map g) :=
  (mapM_congr h).trans List.mapM_pure

/-- A list of results has one result for each member, in order. -/
theorem mapM_eq_some_iff {α β : Type} {f : α → Option β} {items : List α} {results : List β} :
    items.mapM f = some results ↔ List.Forall₂ (fun a b => f a = some b) items results := by
  induction items generalizing results with
  | nil => simp [eq_comm]
  | cons a rest ih =>
    simp only [List.mapM_cons, Option.bind_eq_bind, Option.bind_eq_some_iff, Option.pure_def,
      Option.some.injEq, ih, List.forall₂_cons_left_iff]
    constructor
    · rintro ⟨b, hb, others, hothers, rfl⟩
      exact ⟨b, others, hb, hothers, rfl⟩
    · rintro ⟨b, others, hb, hothers, rfl⟩
      exact ⟨b, hb, others, hothers, rfl⟩

/-- One list is related to the members in two ways if for each member something is. -/
theorem exists_forall₂_iff {α β : Type} {R S : α → β → Prop} {items : List α} :
    (∃ results, List.Forall₂ R items results ∧ List.Forall₂ S items results) ↔
      ∀ a ∈ items, ∃ b, R a b ∧ S a b := by
  induction items with
  | nil => simp
  | cons a rest ih =>
    rw [List.forall_mem_cons, ← ih]
    constructor
    · rintro ⟨_, hRs, hSs⟩
      obtain ⟨b, results, hR, hrest, rfl⟩ := List.forall₂_cons_left_iff.mp hRs
      obtain ⟨hS, hrest'⟩ := List.forall₂_cons.mp hSs
      exact ⟨⟨b, hR, hS⟩, results, hrest, hrest'⟩
    · rintro ⟨⟨b, hR, hS⟩, results, hRs, hSs⟩
      exact ⟨b :: results, .cons hR hRs, .cons hS hSs⟩

/-- Two lists are related through a third one if their members are related through others. -/
theorem exists_forall₂_comp_iff {α β γ : Type} {R : α → β → Prop} {S : β → γ → Prop}
    {items : List α} {results : List γ} :
    (∃ between, List.Forall₂ R items between ∧ List.Forall₂ S between results) ↔
      List.Forall₂ (fun a c => ∃ b, R a b ∧ S b c) items results := by
  constructor
  · rintro ⟨between, hR, hS⟩
    -- the list between is taken apart along with the first one
    induction hR generalizing results with
    | nil =>
      cases hS
      exact .nil
    | cons hab _ ih =>
      obtain ⟨c, rest, hbc, hrest, rfl⟩ := List.forall₂_cons_left_iff.mp hS
      exact .cons ⟨_, hab, hbc⟩ (ih hrest)
  · intro h
    induction h with
    | nil => exact ⟨[], .nil, .nil⟩
    | cons hac _ ih =>
      obtain ⟨b, hab, hbc⟩ := hac
      obtain ⟨between, hR, hS⟩ := ih
      exact ⟨b :: between, .cons hab hR, .cons hbc hS⟩

/-- Parts with a separator between them begin as the first part does. -/
theorem exists_intercalate_eq_append {α : Type} (separator part : List α) (parts : List (List α)) :
    ∃ t, separator.intercalate (part :: parts) = part ++ t := by
  cases parts with
  | nil => exact ⟨[], by rw [List.intercalate_singleton, List.append_nil]⟩
  | cons next parts => exact ⟨_, by rw [List.intercalate_cons_cons, List.append_assoc]⟩

end Parley
