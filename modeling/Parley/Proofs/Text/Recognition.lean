import Parley.Proofs.Text.Speaker

/-!
# What readers recognise

A value has many spellings: an integer may be padded with zeros, and fields may be any gap apart. A
reader is exact if it takes every spelling off the front of a text and nothing else, and if it goes
on as long as the spelling does.

## Key results

- `Agent.recognises_read`, `Vocabulary.recognises_read`, `Text.recognises_readInt32`: the tokens
- `Text.recognises_readInt32_skipWord`: an integer may have a label in front
- `Recognises.field` / `Recognises.andThen`: fields, and fields in a row
-/

namespace Parley

/-- A reader recognises the spellings of its values: it takes a value off the front of a text if and
only if a spelling of the value stands there and no character follows that the spelling could go on
with. -/
structure Recognises {α : Type} (read : Reader α) (Spells : α → Text → Prop)
    (goesOn : Char → Bool) : Prop where
  read_iff : ∀ {t : Text} {a : α} {rest : Text}, read t = some (a, rest) ↔
    ∃ w, Spells a w ∧ t = w ++ rest ∧ ∀ c ∈ rest.head?, ¬ goesOn c

/-- What a reader takes from a whole text is what the text spells. -/
theorem Recognises.whole {α β : Type} {read : Reader α} {Spells : α → Text → Prop}
    {goesOn : Char → Bool} (h : Recognises read Spells goesOn) (f : α → β) {t : Text} {b : β} :
    (read t).map (Prod.map f id) = some (b, []) ↔ ∃ a, Spells a t ∧ b = f a := by
  rw [Option.map_eq_some_iff]
  constructor
  · rintro ⟨⟨a, rest⟩, hread, heq⟩
    obtain ⟨rfl, rfl⟩ := Prod.mk.inj heq
    obtain ⟨w, hw, rfl, -⟩ := h.read_iff.mp hread
    exact ⟨a, by rwa [List.append_nil], rfl⟩
  · rintro ⟨a, ha, rfl⟩
    exact ⟨(a, []), h.read_iff.mpr ⟨t, ha, (List.append_nil t).symm, by simp⟩, rfl⟩

/-! ### Numbers -/

namespace Text

/-- A run of digits, with any number of leading zeros. -/
def IsNumeral (ds : Text) : Prop :=
  ds ≠ [] ∧ ∀ c ∈ ds, c.isDigit

/-- The ways to write an integer. -/
inductive IntSpelling : Int → Text → Prop where
  | plain {ds : Text} (h : ds.IsNumeral) : IntSpelling (Nat.ofDigitChars 10 ds 0) ds
  | minus {ds : Text} (h : ds.IsNumeral) :
      IntSpelling (-(Nat.ofDigitChars 10 ds 0 : Int)) ('-' :: ds)

/-- The reader of digits takes the longest run. -/
theorem digits_eq_some_iff {t ds rest : Text} :
    digits t = some (ds, rest) ↔ ds.IsNumeral ∧ t = ds ++ rest ∧ ∀ c ∈ rest.head?, ¬ c.isDigit := by
  constructor
  · intro h
    unfold digits at h
    split at h
    · contradiction
    · next hne =>
      cases h
      obtain ⟨hrun, htext, hstop⟩ := takeWhile_and_dropWhile_iff.mp ⟨rfl, rfl⟩
      exact ⟨⟨hne, hrun⟩, htext, hstop⟩
  · rintro ⟨⟨hne, hrun⟩, rfl, hstop⟩
    exact digits_append hne hrun hstop

/-- The reader of natural numbers takes the number of the longest run of digits. -/
theorem recognises_natural :
    Recognises natural (fun n ds => ds.IsNumeral ∧ Nat.ofDigitChars 10 ds 0 = n) Char.isDigit := by
  constructor
  intro t n rest
  rw [natural, Option.map_eq_some_iff]
  constructor
  · rintro ⟨⟨ds, rest⟩, hdigits, heq⟩
    cases heq
    obtain ⟨hds, htext, hstop⟩ := digits_eq_some_iff.mp hdigits
    exact ⟨ds, ⟨hds, rfl⟩, htext, hstop⟩
  · rintro ⟨ds, ⟨hds, rfl⟩, htext, hstop⟩
    exact ⟨(ds, rest), digits_eq_some_iff.mpr ⟨hds, htext, hstop⟩, rfl⟩

/-- A minus sign is no digit, so a run of digits does not begin with one. -/
private theorem IsNumeral.ne_minus {ds r rest : Text} (h : ds.IsNumeral) :
    ds ++ rest ≠ '-' :: r := by
  obtain ⟨hne, hdigits⟩ := h
  cases ds with
  | nil => exact absurd rfl hne
  | cons c ds =>
    intro heq
    have hminus : c = '-' := (List.cons.inj heq).1
    exact absurd (hdigits c List.mem_cons_self) (by rw [hminus]; decide)

/-- An integer is read in every spelling, with a minus sign or without. -/
theorem recognises_integer : Recognises integer IntSpelling Char.isDigit := by
  constructor
  intro t n rest
  unfold integer
  -- the reader looks for the minus sign first, and digits begin with none
  split
  · next t =>
    rw [Option.map_eq_some_iff]
    constructor
    · rintro ⟨⟨m, rest⟩, hread, heq⟩
      cases heq
      obtain ⟨ds, ⟨hds, rfl⟩, rfl, hstop⟩ := recognises_natural.read_iff.mp hread
      exact ⟨'-' :: ds, .minus hds, rfl, hstop⟩
    · rintro ⟨w, hw, htext, hstop⟩
      cases hw with
      | plain hds => exact absurd htext.symm hds.ne_minus
      | @minus ds hds =>
        cases htext
        exact ⟨(_, rest), recognises_natural.read_iff.mpr ⟨ds, ⟨hds, rfl⟩, rfl, hstop⟩, rfl⟩
  · next hne =>
    rw [Option.map_eq_some_iff]
    constructor
    · rintro ⟨⟨m, rest⟩, hread, heq⟩
      cases heq
      obtain ⟨ds, ⟨hds, rfl⟩, rfl, hstop⟩ := recognises_natural.read_iff.mp hread
      exact ⟨ds, .plain hds, rfl, hstop⟩
    · rintro ⟨w, hw, htext, hstop⟩
      cases hw with
      | plain hds =>
        exact ⟨(_, rest), recognises_natural.read_iff.mpr ⟨w, ⟨hds, rfl⟩, htext, hstop⟩, rfl⟩
      | @minus ds hds => exact absurd htext (hne _)

/-- An integer is read if it fits into 32 bits. -/
theorem recognises_readInt32 :
    Recognises readInt32 (fun d => IntSpelling d.toInt) Char.isDigit := by
  constructor
  intro t d rest
  simp only [readInt32, Option.bind_eq_bind, Option.bind_eq_some_iff, Option.pure_def,
    Option.some.injEq, Prod.mk.injEq]
  constructor
  · rintro ⟨⟨n, rest⟩, hread, k, hfits, rfl, rfl⟩
    -- what fits is the integer itself, not one that is wrapped
    rw [int32?_eq_some_iff.mp hfits]
    exact recognises_integer.read_iff.mp hread
  · intro h
    have hfits : int32? d.toInt = some d := int32?_eq_some_iff.mpr rfl
    exact ⟨(d.toInt, rest), recognises_integer.read_iff.mpr h, d, hfits, rfl, rfl⟩

/-- An integer is written with a minus sign or a digit in front. -/
private theorem IntSpelling.head {n : Int} {w : Text} (hw : IntSpelling n w) :
    ∃ c r, w = c :: r ∧ (c = '-' ∨ c.isDigit) := by
  cases hw with
  | plain hds =>
    obtain ⟨hne, hdigits⟩ := hds
    cases w with
    | nil => exact absurd rfl hne
    | cons c r => exact ⟨c, r, rfl, Or.inr (hdigits c List.mem_cons_self)⟩
  | @minus ds hds => exact ⟨'-', ds, rfl, Or.inl rfl⟩

/-- A spelling of an integer is a token. -/
theorem IntSpelling.isToken {n : Int} {w : Text} (hw : IntSpelling n w) : w.IsToken := by
  have hnumeral : ∀ {ds : Text}, ds.IsNumeral → ds.IsToken := fun hds =>
    ⟨hds.1, fun c hc => not_isBlank_of_isDigit (hds.2 c hc)⟩
  cases hw with
  | plain hds => exact hnumeral hds
  | @minus ds hds =>
    refine ⟨List.cons_ne_nil _ _, ?_⟩
    intro c hc
    rcases List.mem_cons.mp hc with rfl | hc
    · decide
    · exact (hnumeral hds).2 c hc

/-- The decimal text of an integer is one of its spellings. -/
theorem intSpelling_ofInt (n : Int) : IntSpelling n (ofInt n) := by
  have hnumeral : (ofNat n.natAbs).IsNumeral :=
    ⟨Nat.toDigits_ne_nil, fun c hc => isDigit_of_mem_ofNat hc⟩
  have hvalue : Nat.ofDigitChars 10 (ofNat n.natAbs) 0 = n.natAbs := Nat.ofDigitChars_ten_toDigits
  unfold ofInt
  -- the digits are those of the absolute value
  split
  · next hneg =>
    have h := IntSpelling.minus hnumeral
    rwa [hvalue, show -(n.natAbs : Int) = n by omega] at h
  · next hneg =>
    have h := IntSpelling.plain hnumeral
    rwa [hvalue, show (n.natAbs : Int) = n by omega] at h

/-! ### Labels -/

/-- A spelling with or without a label in front. -/
def Labelled (label : Text) (Spells : Text → Prop) (t : Text) : Prop :=
  Spells t ∨ ∃ w, Spells w ∧ t = label ++ w

/-- With or without its label, a spelling is a token. -/
theorem Labelled.isToken {label t : Text} {Spells : Text → Prop} (hlabel : label.IsToken)
    (hspells : ∀ {w}, Spells w → w.IsToken) (h : Labelled label Spells t) : t.IsToken := by
  rcases h with h | ⟨w, hw, rfl⟩
  · exact hspells h
  · refine ⟨by simp [hlabel.1], ?_⟩
    intro c hc
    rcases List.mem_append.mp hc with hc | hc
    · exact hlabel.2 c hc
    · exact (hspells hw).2 c hc

/-- No integer begins like a label, so a label is skipped exactly if it is there. -/
theorem recognises_readInt32_skipWord {label : Text} (hne : label ≠ [])
    (hhead : ∀ c ∈ label.head?, ¬ (c = '-' ∨ c.isDigit)) :
    Recognises (fun t => readInt32 (skipWord label t))
      (fun d => Labelled label (IntSpelling d.toInt)) Char.isDigit := by
  constructor
  intro t d rest
  cases hafter : after label t with
  | some r =>
    -- the label is there, so what is spelled stands behind it
    obtain rfl := after_eq_some_iff.mp hafter
    rw [skipWord, hafter, Option.getD_some, recognises_readInt32.read_iff]
    constructor
    · rintro ⟨w, hw, rfl, hstop⟩
      exact ⟨label ++ w, Or.inr ⟨w, hw, rfl⟩, (List.append_assoc ..).symm, hstop⟩
    · rintro ⟨v, hv, htext, hstop⟩
      rcases hv with hv | ⟨w, hw, rfl⟩
      · -- an integer right at the front would begin as the label does
        obtain ⟨e, v', rfl, he⟩ := hv.head
        cases label with
        | nil => exact absurd rfl hne
        | cons c label =>
          have heq : c = e := (List.cons.inj htext).1
          exact absurd he (heq ▸ hhead c rfl)
      · rw [List.append_assoc] at htext
        exact ⟨w, hw, List.append_cancel_left htext, hstop⟩
  | none =>
    -- the label is not there, so the text is read as it is
    rw [skipWord, hafter, Option.getD_none, recognises_readInt32.read_iff]
    constructor
    · rintro ⟨w, hw, htext, hstop⟩
      exact ⟨w, Or.inl hw, htext, hstop⟩
    · rintro ⟨v, hv, htext, hstop⟩
      rcases hv with hv | ⟨w, _, rfl⟩
      · exact ⟨v, hv, htext, hstop⟩
      · rw [List.append_assoc] at htext
        have hthere := after_eq_some_iff.mpr htext
        rw [hafter] at hthere
        exact nomatch hthere

end Text

/-! ### Agents and words -/

/-- Agents are read in every spelling, whatever follows. -/
theorem Agent.recognises_read : Recognises Agent.read Agent.Spelling fun _ => false := by
  constructor
  intro t a rest
  constructor
  · intro h
    unfold read at h
    split at h
    · next r hany =>
      cases h
      exact ⟨_, .any, Text.after_eq_some_iff.mp hany, by simp⟩
    · simp only [Option.bind_eq_bind, Option.bind_eq_some_iff, Option.pure_def,
        Option.some.injEq, Prod.mk.injEq] at h
      -- each part that was read is put back in front of what it left
      obtain ⟨t₁, hopen, ⟨n, t₂⟩, hnat, b, hindex, t₃, hclose, rfl, rfl⟩ := h
      obtain ⟨ds, ⟨⟨hne, hdigits⟩, rfl⟩, rfl, -⟩ := Text.recognises_natural.read_iff.mp hnat
      obtain rfl := Text.after_eq_some_iff.mp hopen
      obtain rfl := Text.after_eq_some_iff.mp hclose
      obtain ⟨k, hk, rfl⟩ := Option.map_eq_some_iff.mp hindex
      have hvalue : Nat.ofDigitChars 10 ds 0 = k.toNat := by
        have := uint32?_eq_some_iff.mp hk
        omega
      exact ⟨_, .index hne hdigits hvalue, by simp, by simp⟩
  · rintro ⟨w, hw, rfl, -⟩
    exact read_append hw rest

/-- No agent is read off the front of a text if none is spelled there. -/
theorem Agent.read_eq_none_iff {t : Text} :
    Agent.read t = none ↔ ∀ (a : Agent) (w : Text), a.Spelling w → ¬ w <+: t := by
  rw [Option.eq_none_iff_forall_ne_some]
  constructor
  · rintro h a w hw ⟨rest, rfl⟩
    exact h _ (Agent.read_append hw rest)
  · rintro h ⟨a, rest⟩ hread
    obtain ⟨w, hw, rfl, -⟩ := Agent.recognises_read.read_iff.mp hread
    exact h a w hw (List.prefix_append w rest)

/-- The words of a vocabulary are read as whole keywords. -/
theorem Vocabulary.recognises_read {α : Type} [Vocabulary α]
    (hkeyword : ∀ a : α, (spell a).IsKeyword) :
    Recognises (Vocabulary.read (α := α)) (fun a w => w = spell a) Char.isUpper := by
  constructor
  intro t a rest
  simp only [Vocabulary.read, Option.bind_eq_bind, Option.bind_eq_some_iff, Option.pure_def,
    Option.some.injEq, Prod.mk.injEq]
  constructor
  · rintro ⟨⟨w, rest⟩, hread, b, hname, rfl, rfl⟩
    -- the whole run of letters must spell the word
    obtain ⟨-, htext, hstop⟩ := Text.keyword_eq_some_iff.mp hread
    exact ⟨w, ofName?_eq_some_iff.mp hname, htext, hstop⟩
  · rintro ⟨w, rfl, htext, hstop⟩
    exact ⟨(spell a, rest), Text.keyword_eq_some_iff.mpr ⟨hkeyword a, htext, hstop⟩, a,
      ofName?_eq_some_iff.mpr rfl, rfl, rfl⟩

/-! ### Fields -/

namespace Text

/-- What may stand between two fields: spaces, tabs, carriage returns and line feeds, and at least
one of them. -/
def IsGap (gap : Text) : Prop :=
  gap ≠ [] ∧ ∀ c ∈ gap, c ∈ [' ', '\t', '\r', '\n']

/-- The characters of a gap, one by one. -/
theorem isGap_iff_mem {c : Char} : isGap c ↔ c ∈ [' ', '\t', '\r', '\n'] := by
  simp [isGap, or_assoc]

/-- The ways to write a field: a gap and a spelling. -/
def Apart (Spells : Text → Prop) (t : Text) : Prop :=
  ∃ gap w, IsGap gap ∧ Spells w ∧ t = gap ++ w

/-- A gap begins with a character that no token goes on with. -/
theorem IsGap.stop {gap : Text} (h : gap.IsGap) {goesOn : Char → Bool}
    (hgap : ∀ c, isGap c → goesOn c = false) (rest : Text) :
    ∀ c ∈ (gap ++ rest).head?, ¬ goesOn c := by
  obtain ⟨hne, hgaps⟩ := h
  cases gap with
  | nil => exact absurd rfl hne
  | cons c gap =>
    have hc : goesOn c = false := hgap c (isGap_iff_mem.mpr (hgaps c List.mem_cons_self))
    simpa using hc

/-- No token goes on with a field, since a gap stands in front of it. -/
theorem Apart.stop {Spells : Text → Prop} {t : Text} (h : Apart Spells t) {goesOn : Char → Bool}
    (hgap : ∀ c, isGap c → goesOn c = false) (rest : Text) :
    ∀ c ∈ (t ++ rest).head?, ¬ goesOn c := by
  obtain ⟨gap, w, hisgap, -, rfl⟩ := h
  rw [List.append_assoc]
  exact hisgap.stop hgap _

/-- A gap ends a number. -/
theorem isDigit_of_isGap (c : Char) (h : isGap c) : c.isDigit = false :=
  Bool.eq_false_iff.mpr fun hdigit => not_isBlank_of_isDigit hdigit (isBlank_of_isGap h)

/-- A gap ends a keyword. -/
theorem isUpper_of_isGap (c : Char) (h : isGap c) : c.isUpper = false :=
  Bool.eq_false_iff.mpr fun hupper => not_isBlank_of_isUpper hupper (isBlank_of_isGap h)

/-- The text after a gap is what begins with no gap. -/
theorem afterGap?_eq_some_iff {t r : Text} :
    afterGap? t = some r ↔ ∃ gap, IsGap gap ∧ t = gap ++ r ∧ ∀ c ∈ r.head?, ¬ isGap c := by
  -- a gap is a run of blanks of the four kinds that is not empty
  have hrun : afterGap? t = some r ↔ t.takeWhile isGap ≠ [] ∧ t.dropWhile isGap = r := by
    cases t with
    | nil => simp [afterGap?]
    | cons c t => by_cases hc : isGap c <;> simp [afterGap?, skipGap, hc]
  rw [hrun]
  constructor
  · rintro ⟨hne, hdrop⟩
    obtain ⟨hgap, htext, hstop⟩ := takeWhile_and_dropWhile_iff.mp ⟨rfl, hdrop⟩
    exact ⟨_, ⟨hne, fun c hc => isGap_iff_mem.mp (hgap c hc)⟩, htext, hstop⟩
  · rintro ⟨gap, ⟨hne, hgap⟩, htext, hstop⟩
    obtain ⟨htake, hdrop⟩ :=
      takeWhile_and_dropWhile_iff.mpr ⟨fun c hc => isGap_iff_mem.mpr (hgap c hc), htext, hstop⟩
    exact ⟨by rwa [htake], hdrop⟩

end Text

variable {α β : Type}

/-- Reads a value behind a gap. -/
def readField (read : Reader α) : Reader α := fun t =>
  (Text.afterGap? t).bind read

/-- A field is read if its value is a token, so that the gap stops in front of it. -/
theorem Recognises.field {read : Reader α} {Spells : α → Text → Prop} {goesOn : Char → Bool}
    (h : Recognises read Spells goesOn) (htoken : ∀ {a w}, Spells a w → w.IsToken) :
    Recognises (readField read) (fun a => Text.Apart (Spells a)) goesOn := by
  constructor
  intro t a rest
  rw [readField, Option.bind_eq_some_iff]
  constructor
  · rintro ⟨r, hafter, hread⟩
    obtain ⟨gap, hgap, rfl, -⟩ := Text.afterGap?_eq_some_iff.mp hafter
    obtain ⟨w, hw, rfl, hstop⟩ := h.read_iff.mp hread
    exact ⟨gap ++ w, ⟨gap, w, hgap, hw, rfl⟩, (List.append_assoc ..).symm, hstop⟩
  · rintro ⟨_, ⟨gap, w, hgap, hw, rfl⟩, rfl, hstop⟩
    -- conversely, the gap does not reach into the token behind it
    have hhead : ∀ c ∈ (w ++ rest).head?, ¬ Text.isGap c := fun c hc hisgap =>
      (htoken hw).not_isBlank_head rest c hc (Text.isBlank_of_isGap hisgap)
    exact ⟨w ++ rest, Text.afterGap?_eq_some_iff.mpr ⟨gap, hgap, List.append_assoc .., hhead⟩,
      h.read_iff.mpr ⟨w, hw, rfl, hstop⟩⟩

/-- Reads two values in a row. -/
def andThen (first : Reader α) (second : Reader β) : Reader (α × β) := fun t =>
  (first t).bind fun (a, t) => (second t).map fun (b, rest) => ((a, b), rest)

/-- The ways to write a value and a second one right behind it. -/
def Beside (First : α → Text → Prop) (Second : β → Text → Prop) : α × β → Text → Prop :=
  fun (a, b) t => ∃ v w, First a v ∧ Second b w ∧ t = v ++ w

/-- A field right behind another value ends that value, since no token goes on with a gap. -/
theorem Recognises.andThen {first : Reader α} {second : Reader β} {First : α → Text → Prop}
    {Second : β → Text → Prop} {goesOn goesOn' : Char → Bool}
    (hfirst : Recognises first First goesOn)
    (hsecond : Recognises second Second goesOn')
    (hstop : ∀ {b w}, Second b w → ∀ rest, ∀ c ∈ (w ++ rest).head?, ¬ goesOn c) :
    Recognises (andThen first second) (Beside First Second) goesOn' := by
  constructor
  rintro t ⟨a, b⟩ rest
  simp only [Parley.andThen, Option.bind_eq_some_iff, Option.map_eq_some_iff, Prod.mk.injEq]
  constructor
  · rintro ⟨⟨a, _⟩, ha, ⟨b, rest⟩, hb, ⟨rfl, rfl⟩, rfl⟩
    obtain ⟨v, hv, rfl, -⟩ := hfirst.read_iff.mp ha
    obtain ⟨w, hw, rfl, hend⟩ := hsecond.read_iff.mp hb
    exact ⟨v ++ w, ⟨v, w, hv, hw, rfl⟩, (List.append_assoc ..).symm, hend⟩
  · rintro ⟨_, ⟨v, w, hv, hw, rfl⟩, rfl, hend⟩
    -- the first value ends where the second one begins
    have ha := hfirst.read_iff.mpr ⟨v, hv, List.append_assoc .., hstop hw rest⟩
    have hb := hsecond.read_iff.mpr ⟨w, hw, rfl, hend⟩
    exact ⟨(a, w ++ rest), ha, (b, rest), hb, ⟨rfl, rfl⟩, rfl⟩

end Parley
