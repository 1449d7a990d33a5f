import Parley.Proofs.Text.Unbracketed
import Parley.Proofs.Statement.Compilation

/-!
# What texts of the grammar look like

A text of the grammar begins and ends with a token, so there are no blanks around it. Brackets stand
in its region only, so its groups are those of the region.

## Key results

- `Clause.parts`: a clause is a keyword, fields without brackets, and a region
- `Grammar.groups_eq`: the groups of the text are those of the phrase
- `Grammar.trim_eq`: there are no blanks around the text
- `Grammar.ofText?_trim`: so blanks around it make no difference to the reader
-/

namespace Parley

namespace Text

/-- A text that ends with a token. -/
def EndsInToken (t : Text) : Prop :=
  ∃ before back, IsToken back ∧ t = before ++ back

/-- Whatever is put in front, the text ends with the same token. -/
theorem EndsInToken.append_left {t : Text} (h : EndsInToken t) (s : Text) :
    EndsInToken (s ++ t) := by
  obtain ⟨before, back, hback, rfl⟩ := h
  exact ⟨s ++ before, back, hback, (List.append_assoc ..).symm⟩

/-- A field behind its gap ends with a token if it is spelled as one. -/
theorem Apart.endsInToken {t : Text} {Spells : Text → Prop}
    (htoken : ∀ {w}, Spells w → w.IsToken) (h : Apart Spells t) : t.EndsInToken := by
  obtain ⟨gap, w, -, hw, rfl⟩ := h
  exact ⟨gap, w, htoken hw, rfl⟩

end Text

namespace Phrase

open Text (Apart IsGap IntSpelling Labelled Unbracketed EndsInToken)

/-- The region of a phrase; a simple one has none. -/
def region : Phrase → Text
  | simple _ => []
  | compound _ region | bareRequest _ region => region

/-- A region ends with its bracket, which is a token. -/
theorem IsRegion.endsInToken {region : Text} (h : IsRegion region) : region.EndsInToken := by
  obtain ⟨inner, rfl⟩ := List.getLast?_eq_some_iff.mp h.2
  exact ⟨inner, [')'], by decide, rfl⟩

/-! ### The parts of a clause -/

/-- Every topic that is not bare is written as a keyword. -/
theorem Keyword.isKeyword_topic {form : Form} {topic : Topic} {k : Text}
    (h : Keyword (topics form) topic k) (hne : form ≠ .bare) : k.IsKeyword := by
  have hform := h.form_eq
  cases form with
  | bare => exact absurd rfl hne
  -- these forms have no keywords at all
  | empty | compound =>
    obtain ⟨s, hmem, -⟩ := h
    exact nomatch hmem
  | agreement | claim | finding | action =>
    rw [((keyword_topics (by decide)).mp h).2]
    exact Topic.isKeyword_spell (by rw [hform]; decide)

/-- A keyword that stands alone is one of two words. -/
theorem Keyword.skip_or_over {topic : Topic} {k : Text} (h : Keyword (topics .bare) topic k) :
    k = "Skip".toList ∨ k = "Over".toList := by
  obtain ⟨hform, rfl⟩ := (keyword_topics (by decide)).mp h
  rcases Topic.skip_or_finished hform with rfl | rfl
  · exact Or.inl rfl
  · exact Or.inr rfl

/-- There is no bracket in a channel. -/
private theorem unbracketed_channel {channel : Channel} {w : Text}
    (h : Keyword channels channel w) : w.Unbracketed := by
  rw [keyword_channels] at h
  exact h ▸ (Channel.isKeyword_spell channel).unbracketed

/-- A clause is a keyword, fields without brackets, and a region if it is compound. -/
theorem Clause.parts {speaker : Agent} {pattern : Pattern} {body : Text} {p : Phrase}
    (h : Clause speaker pattern body p) :
    ∃ word fields, word.IsKeyword ∧ fields.Unbracketed ∧ (fields ++ p.region).EndsInToken ∧
      body = word ++ (fields ++ p.region) := by
  -- the two kinds of fields that need an argument of their own, a labelled number and a word
  have hint : ∀ {d : Int} {label w : Text}, label.IsToken → label.Unbracketed →
      Apart (Labelled label (IntSpelling d)) w → w.Unbracketed ∧ w.EndsInToken := by
    intro d label w htoken hlabel hw
    exact ⟨hw.unbracketed (Labelled.unbracketed hlabel IntSpelling.unbracketed),
      hw.endsInToken (Labelled.isToken htoken IntSpelling.isToken)⟩
  have hword : ∀ {k w : Text}, k.IsKeyword → Apart (· = k) w → w.Unbracketed ∧ w.EndsInToken := by
    intro k w hk hw
    exact ⟨hw.unbracketed fun {w} (h : w = k) => h ▸ hk.unbracketed,
      hw.endsInToken fun {w} (h : w = k) => h ▸ hk.isToken⟩
  -- a simple phrase has no region, so its clause ends with the last field
  have hsimple : ∀ {word fields : Text} {head : Head}, word.IsKeyword → fields.Unbracketed →
      fields.EndsInToken → ∃ first between, first.IsKeyword ∧ between.Unbracketed ∧
        (between ++ (simple head).region).EndsInToken ∧
        word ++ fields = first ++ (between ++ (simple head).region) := by
    intro word fields head hword hfields hends
    have hregion : fields ++ (simple head).region = fields := List.append_nil fields
    exact ⟨word, fields, hword, hfields, by rwa [hregion], by rw [hregion]⟩
  cases h with
  | agreement hkeyword hu hv hw =>
    have hday := hint (by decide) (by simp) hv
    have hindex := hint (by decide) (by simp) hw
    refine hsimple (hkeyword.isKeyword_topic (by decide)) ?_ ?_
    · simp [hu.unbracketed unbracketed_channel, hday.1, hindex.1]
    · exact (hindex.2.append_left _).append_left _
  | claim hkeyword hv hw =>
    have hrole := hword (Role.isKeyword_spell _) hw
    refine hsimple (hkeyword.isKeyword_topic (by decide)) ?_ (hrole.2.append_left _)
    simp [hv.unbracketed Agent.Spelling.unbracketed, hrole.1]
  | finding hkeyword hv hw =>
    have hresult := hword (Species.isKeyword_spell _) hw
    refine hsimple (hkeyword.isKeyword_topic (by decide)) ?_ (hresult.2.append_left _)
    simp [hv.unbracketed Agent.Spelling.unbracketed, hresult.1]
  | action hkeyword hw =>
    exact hsimple (hkeyword.isKeyword_topic (by decide))
      (hw.unbracketed Agent.Spelling.unbracketed) (hw.endsInToken Agent.Spelling.isToken)
  | @addressed operator target k w gap region hkeyword hw hgap hregion =>
    obtain ⟨-, rfl⟩ := keyword_addresses.mp hkeyword
    refine ⟨_, w ++ gap, Operator.isKeyword_spell operator, ?_, hregion.endsInToken.append_left _,
      by rw [Phrase.region, List.append_assoc]⟩
    simp [hw.unbracketed Agent.Spelling.unbracketed, Text.unbracketed_of_gap hgap.2]
  | @connective operator k gap region hkeyword hgap hregion =>
    obtain ⟨-, rfl⟩ := keyword_connectives.mp hkeyword
    exact ⟨_, gap, Operator.isKeyword_spell operator, Text.unbracketed_of_gap hgap.2,
      hregion.endsInToken.append_left _, rfl⟩
  | @bareRequest gap region hgap hregion =>
    exact ⟨_, gap, Operator.isKeyword_spell .request, Text.unbracketed_of_gap hgap.2,
      hregion.endsInToken.append_left _, rfl⟩
  | @dated day w gap region hw hgap hregion =>
    refine ⟨_, w ++ gap, Operator.isKeyword_spell .day, ?_, hregion.endsInToken.append_left _, ?_⟩
    · simp [hw.unbracketed IntSpelling.unbracketed, Text.unbracketed_of_gap hgap.2]
    · rw [Phrase.region, List.append_assoc]
      rfl

/-! ### Whole texts -/

/-- There is no bracket in a speaker and its gap. -/
theorem Opening.unbracketed {speaker : Agent} {t : Text} (h : Opening speaker t) :
    t.Unbracketed := by
  cases h with
  | absent => exact Text.unbracketed_nil
  | written hw hgap =>
    exact Text.unbracketed_append.mpr ⟨hw.unbracketed, Text.unbracketed_of_gap hgap⟩

/-- What stands in front of the region has no brackets. -/
theorem Grammar.exists_front {pattern : Pattern} {t : Text} {p : Phrase} (h : Grammar pattern t p) :
    ∃ front, front.Unbracketed ∧ t = front ++ p.region := by
  cases h with
  | bare hkeyword =>
    refine ⟨_, ?_, (List.append_nil _).symm⟩
    rcases hkeyword.skip_or_over with rfl | rfl <;> simp
  | @sentence _ front _ _ _ hfront hbody =>
    obtain ⟨word, fields, hword, hfields, -, rfl⟩ := hbody.parts
    refine ⟨front ++ (word ++ fields), ?_, by simp⟩
    simp [hfront.unbracketed, hword.unbracketed, hfields]

/-- The groups of a text are those of the phrase that it is. -/
theorem Grammar.groups_eq {pattern : Pattern} {t : Text} {p : Phrase} (h : Grammar pattern t p) :
    Text.groups t = p.groups := by
  obtain ⟨front, hfront, rfl⟩ := h.exists_front
  -- what has no brackets is passed over
  rw [Text.groups_append_of_not_mem hfront.1]
  cases p <;> rfl

/-- There are no blanks around a speaker and a keyword with what follows it, if that ends with a
token. -/
theorem Opening.trim_eq {speaker : Agent} {front word rest : Text} (hfront : Opening speaker front)
    (hword : word.IsKeyword) (hends : Text.EndsInToken rest) :
    Text.trim (front ++ (word ++ rest)) = front ++ (word ++ rest) := by
  obtain ⟨before, back, hback, hends⟩ := hends.append_left (front ++ word)
  rw [List.append_assoc] at hends
  -- the text begins with the keyword or with the speaker, a token either way
  cases hfront with
  | absent =>
    rw [List.nil_append] at hends ⊢
    exact Text.trim_eq_self hword.isToken hback hends
  | @written _ w gap hw hgap =>
    rw [List.append_assoc] at hends ⊢
    exact Text.trim_eq_self hw.isToken hback hends

/-- There are no blanks around a text of the grammar. -/
theorem Grammar.trim_eq {pattern : Pattern} {t : Text} {p : Phrase} (h : Grammar pattern t p) :
    t.trim = t := by
  cases h with
  | bare hkeyword =>
    -- a word that stands alone is the first token and the last one
    have htoken : Text.IsToken t := by
      rcases hkeyword.skip_or_over with rfl | rfl <;> decide
    exact htoken.trim_eq
  | sentence hfront hbody =>
    obtain ⟨word, fields, hword, -, hends, rfl⟩ := hbody.parts
    exact hfront.trim_eq hword hends

/-- A text of the grammar is read with blanks around it. -/
theorem Grammar.ofText?_trim {pattern : Pattern} {t : Text} {p : Phrase} (h : Grammar pattern t p)
    {front back : Text} (hfront : ∀ c ∈ front, Text.isBlank c)
    (hback : ∀ c ∈ back, Text.isBlank c) :
    ofText? (Text.trim (front ++ t ++ back)) = some p := by
  rw [Text.trim_surround hfront t hback, h.trim_eq]
  exact ofText?_eq_some_iff.mpr ⟨pattern, h⟩

end Phrase

end Parley
