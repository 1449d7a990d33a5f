import Parley.Proofs.Text.Recognition
import Parley.Statement.Phrase

/-!
# The grammar of phrases

Which texts are phrases, written down apart from the reader: the keywords, the spellings of the
fields, and the gaps between them. The reader tries one alternative after the other, but the grammar
has no order, and needs none: no text is a phrase in two ways.

## Key results

- `ofSentence?_iff_clause`: a sentence is a clause behind the speaker that is read
- `ofText?_eq_some_iff`: the reader of phrases accepts exactly the texts of the grammar
- `Grammar.unique`: a text follows one pattern and is one phrase
-/

namespace Parley

namespace Phrase

open Text (Apart IsGap IntSpelling Labelled)

/-! ### Keywords -/

/-- The ways to write a keyword of a list. -/
def Keyword {α : Type} (keywords : List (String × α)) (a : α) (t : Text) : Prop :=
  ∃ s, (s, a) ∈ keywords ∧ t = s.toList

/-- The topics of a form, with their keywords. A statement that says nothing is not written, and a
compound one is written with the keyword of its operator. -/
def topics : Form → List (String × Topic)
  | .bare => [("Skip", .skip), ("Over", .finished)]
  | .agreement => [("AGREE", .agree), ("DISAGREE", .disagree)]
  | .claim => [("ESTIMATE", .estimate), ("COMINGOUT", .comingout)]
  | .finding => [("DIVINED", .divined), ("IDENTIFIED", .identified)]
  | .action => [("ATTACK", .attack), ("ATTACKED", .attacked), ("DIVINATION", .divination),
      ("GUARD", .guard), ("GUARDED", .guarded), ("VOTE", .vote), ("VOTED", .voted)]
  | .empty | .compound => []

/-- The operators with an addressee. -/
def addresses : List (String × Operator) :=
  [("REQUEST", .request), ("INQUIRE", .inquire)]

/-- The operators with neither an addressee nor a day. -/
def connectives : List (String × Operator) :=
  [("BECAUSE", .because), ("AND", .and), ("OR", .or), ("XOR", .xor), ("NOT", .not)]

/-- The channels of utterances. -/
def channels : List (String × Channel) :=
  [("TALK", .talk), ("WHISPER", .whisper)]

/-- A list that holds the words of a kind, each with its name, has their spellings as keywords. -/
private theorem keyword_iff {α : Type} [Vocabulary α] {keywords : List (String × α)}
    (kind : α → Prop) (h : ∀ s a, (s, a) ∈ keywords ↔ kind a ∧ s = Vocabulary.name a)
    {a : α} {t : Text} : Keyword keywords a t ↔ kind a ∧ t = Vocabulary.spell a := by
  constructor
  · rintro ⟨s, hmem, rfl⟩
    obtain ⟨hkind, rfl⟩ := (h s a).mp hmem
    exact ⟨hkind, rfl⟩
  · rintro ⟨hkind, rfl⟩
    exact ⟨Vocabulary.name a, (h _ a).mpr ⟨hkind, rfl⟩, rfl⟩

/-- The keywords of a form that is written are the names of its topics. -/
theorem keyword_topics {form : Form} (hform : form ≠ .empty ∧ form ≠ .compound) {topic : Topic}
    {t : Text} :
    Keyword (topics form) topic t ↔ topic.form = form ∧ t = Vocabulary.spell topic := by
  -- two finite tables are compared, form by form
  refine keyword_iff (fun topic : Topic => topic.form = form) ?_
  intro s topic
  cases form with
  | empty => exact absurd rfl hform.1
  | compound => exact absurd rfl hform.2
  | bare | agreement | claim | finding | action =>
    cases topic <;> simp [topics, Topic.form, Vocabulary.name, Topic.name]

/-- A topic is spelled as a keyword of its form. -/
theorem keyword_spell {form : Form} (hne : form ≠ .empty ∧ form ≠ .compound) {topic : Topic}
    (hform : topic.form = form) : Keyword (topics form) topic (Vocabulary.spell topic) :=
  (keyword_topics hne).mpr ⟨hform, rfl⟩

/-- A keyword of a form has a topic of that form; the forms that are not written have none. -/
theorem Keyword.form_eq {form : Form} {topic : Topic} {t : Text}
    (h : Keyword (topics form) topic t) : topic.form = form := by
  cases form with
  -- their lists of keywords are empty
  | empty | compound =>
    obtain ⟨s, hmem, -⟩ := h
    exact nomatch hmem
  | bare | agreement | claim | finding | action => exact ((keyword_topics (by decide)).mp h).1

/-- The operators that address a target are those with a keyword among the addresses. -/
theorem keyword_addresses {operator : Operator} {t : Text} :
    Keyword addresses operator t ↔
      operator.addressesTarget = true ∧ t = Vocabulary.spell operator := by
  refine keyword_iff (fun operator : Operator => operator.addressesTarget = true) ?_
  intro s operator
  cases operator <;> simp [addresses, Operator.addressesTarget, Vocabulary.name, Operator.name]

/-- The connectives are the operators with neither an addressee nor a day, each with its name. -/
theorem keyword_connectives {operator : Operator} {t : Text} :
    Keyword connectives operator t ↔
      (operator ≠ .nop ∧ operator ≠ .day ∧ operator.addressesTarget = false) ∧
        t = Vocabulary.spell operator := by
  -- `nop` has a name too, but no list has it for a keyword
  refine keyword_iff (fun operator : Operator =>
    operator ≠ .nop ∧ operator ≠ .day ∧ operator.addressesTarget = false) ?_
  intro s operator
  cases operator <;> simp [connectives, Operator.addressesTarget, Vocabulary.name, Operator.name]

/-- A channel has its name as its only keyword. -/
theorem keyword_channels (channel : Channel) :
    Keyword channels channel = (· = Vocabulary.spell channel) := by
  funext t
  rw [keyword_iff (fun _ : Channel => True), true_and]
  intro s channel
  cases channel <;> simp [channels, Vocabulary.name, Channel.name]

/-! ### The grammar -/

/-- A region of operands: a text in brackets, whatever is between them. -/
def IsRegion (t : Text) : Prop :=
  t.head? = some '(' ∧ t.getLast? = some ')'

/-- The ways to write a speaker in front of a keyword, which may follow without a gap. -/
inductive Opening : Agent → Text → Prop where
  /-- No speaker is written, and the speaker is left open. -/
  | absent : Opening .unspec []
  /-- The speaker is written, and a gap may follow. -/
  | written {speaker : Agent} {w gap : Text} (hw : speaker.Spelling w)
      (hgap : ∀ c ∈ gap, c ∈ [' ', '\t', '\r', '\n']) : Opening speaker (w ++ gap)

/-- The alternatives of the grammar. -/
inductive Pattern where
  | bare | agreement | claim | finding | action | addressed | connective | bareRequest | dated
deriving DecidableEq, Repr

/-- The ways to write what a speaker says. -/
inductive Clause (speaker : Agent) : Pattern → Text → Phrase → Prop where
  /-- A keyword, the channel, the day and the index of an utterance. -/
  | agreement {topic : Topic} {channel : Channel} {day index : Int32} {k u v w : Text}
      (hkeyword : Keyword (topics .agreement) topic k)
      (hchannel : Apart (Keyword channels channel) u)
      (hday : Apart (Labelled "day".toList (IntSpelling day.toInt)) v)
      (hindex : Apart (Labelled "ID:".toList (IntSpelling index.toInt)) w) :
      Clause speaker .agreement (k ++ (u ++ (v ++ w)))
        (simple { topic, subject := speaker, utterance := .reference channel day index })
  /-- A keyword, a player and a role. -/
  | claim {topic : Topic} {target : Agent} {role : Role} {k v w : Text}
      (hkeyword : Keyword (topics .claim) topic k) (htarget : Apart target.Spelling v)
      (hrole : Apart (· = Vocabulary.spell role) w) :
      Clause speaker .claim (k ++ (v ++ w)) (simple { topic, subject := speaker, target, role })
  /-- A keyword, a player and a species. -/
  | finding {topic : Topic} {target : Agent} {result : Species} {k v w : Text}
      (hkeyword : Keyword (topics .finding) topic k) (htarget : Apart target.Spelling v)
      (hresult : Apart (· = Vocabulary.spell result) w) :
      Clause speaker .finding (k ++ (v ++ w)) (simple { topic, subject := speaker, target, result })
  /-- A keyword and a player. -/
  | action {topic : Topic} {target : Agent} {k w : Text}
      (hkeyword : Keyword (topics .action) topic k) (htarget : Apart target.Spelling w) :
      Clause speaker .action (k ++ w) (simple { topic, subject := speaker, target })
  /-- An operator, its addressee and its operands. -/
  | addressed {operator : Operator} {target : Agent} {k w gap region : Text}
      (hkeyword : Keyword addresses operator k) (htarget : Apart target.Spelling w)
      (hgap : IsGap gap) (hregion : IsRegion region) :
      Clause speaker .addressed (k ++ (w ++ (gap ++ region)))
        (compound { topic := .operator, operator, subject := speaker, target } region)
  /-- An operator and its operands. -/
  | connective {operator : Operator} {k gap region : Text}
      (hkeyword : Keyword connectives operator k) (hgap : IsGap gap) (hregion : IsRegion region) :
      Clause speaker .connective (k ++ (gap ++ region))
        (compound { topic := .operator, operator, subject := speaker } region)
  /-- A request without an addressee, and its operands. -/
  | bareRequest {gap region : Text} (hgap : IsGap gap) (hregion : IsRegion region) :
      Clause speaker .bareRequest ("REQUEST".toList ++ (gap ++ region)) (bareRequest speaker region)
  /-- The operator of a day, the day and its operands. -/
  | dated {day : Int32} {w gap region : Text} (hday : Apart (IntSpelling day.toInt) w)
      (hgap : IsGap gap) (hregion : IsRegion region) :
      Clause speaker .dated ("DAY".toList ++ (w ++ (gap ++ region)))
        (compound { topic := .operator, operator := .day, subject := speaker, day } region)

/-- The ways to write a phrase. -/
inductive Grammar : Pattern → Text → Phrase → Prop where
  /-- A keyword that stands alone. -/
  | bare {topic : Topic} {k : Text} (hkeyword : Keyword (topics .bare) topic k) :
      Grammar .bare k (simple { topic })
  /-- A speaker, or none, and a clause. -/
  | sentence {speaker : Agent} {front body : Text} {pattern : Pattern} {p : Phrase}
      (hfront : Opening speaker front) (hbody : Clause speaker pattern body p) :
      Grammar pattern (front ++ body) p

/-! ### Fields -/

section

variable {speaker : Agent} {topic : Topic} {t : Text} {head : Head}

/-- A field that is read as an agent is a gap and a spelling of the agent. -/
private theorem recognises_target :
    Recognises (readField Agent.read) (fun a => Apart a.Spelling) fun _ => false :=
  Agent.recognises_read.field Agent.Spelling.isToken

/-- A field that is read as a word of a vocabulary is a gap and the word, which no capital letter
follows. -/
private theorem recognises_word {α : Type} [Vocabulary α]
    (hkeyword : ∀ a : α, (Vocabulary.spell a).IsKeyword) :
    Recognises (readField (Vocabulary.read (α := α))) (fun a => Apart (· = Vocabulary.spell a))
      Char.isUpper :=
  (Vocabulary.recognises_read hkeyword).field fun {a w} (h : w = Vocabulary.spell a) =>
    h ▸ (hkeyword a).isToken

/-- A number may stand behind its label or without it, and no digit follows it. -/
private theorem recognises_labelled {label : Text} (hlabel : label.IsToken)
    (hhead : ∀ c ∈ label.head?, ¬ (c = '-' ∨ c.isDigit)) :
    Recognises (readField fun t => Text.readInt32 (Text.skipWord label t))
      (fun d => Apart (Labelled label (IntSpelling d.toInt))) Char.isDigit :=
  (Text.recognises_readInt32_skipWord hlabel.1 hhead).field
    (Labelled.isToken hlabel IntSpelling.isToken)

/-- The fields of an agreement are a channel, a day and an index, each apart from what is in front
of it. -/
private theorem readFields_agreement_iff (hform : topic.form = .agreement) :
    readFields speaker topic t = some (head, []) ↔
      ∃ channel day index u v w, Apart (Keyword channels channel) u ∧
        Apart (Labelled "day".toList (IntSpelling day.toInt)) v ∧
        Apart (Labelled "ID:".toList (IntSpelling index.toInt)) w ∧ t = u ++ (v ++ w) ∧
        head = { topic, subject := speaker, utterance := .reference channel day index } := by
  -- the labels begin with letters, so a number without its label is not mistaken for one
  have hday := @recognises_labelled "day".toList (by decide) (by rintro c ⟨⟩; decide)
  have hindex := @recognises_labelled "ID:".toList (by decide) (by rintro c ⟨⟩; decide)
  -- three readers in a row: each field ends where the gap of the next one begins
  have hread := ((recognises_word Channel.isKeyword_spell).andThen hday
    fun h => h.stop Text.isUpper_of_isGap).andThen hindex fun h => h.stop Text.isDigit_of_isGap
  -- the fields are read in one block, which is the same chain
  have hfields : readFields speaker topic t =
      (andThen (andThen (readField Vocabulary.read)
          (readField fun t => Text.readInt32 (Text.skipWord "day".toList t)))
        (readField fun t => Text.readInt32 (Text.skipWord "ID:".toList t)) t).map
        (Prod.map (fun ((channel, day), index) =>
          { topic, subject := speaker, utterance := .reference channel day index }) id) := by
    simp only [readFields, hform, andThen, readField, Option.map_eq_bind, Option.bind_eq_bind,
      Option.bind_assoc, Option.bind_some, Option.pure_def, Function.comp_def, Prod.map, id]
  rw [hfields, hread.whole]
  simp only [keyword_channels]
  -- the chain is nested to the left and the clause to the right
  constructor
  · rintro ⟨⟨⟨channel, day⟩, index⟩, ⟨_, w, ⟨u, v, hu, hv, rfl⟩, hw, rfl⟩, rfl⟩
    exact ⟨channel, day, index, u, v, w, hu, hv, hw, List.append_assoc .., rfl⟩
  · rintro ⟨channel, day, index, u, v, w, hu, hv, hw, rfl, rfl⟩
    exact ⟨((channel, day), index), ⟨u ++ v, w, ⟨u, v, hu, hv, rfl⟩, hw,
      (List.append_assoc ..).symm⟩, rfl⟩

/-- The fields of a form that has a target and a word. -/
private theorem readFields_word_iff {α : Type} [Vocabulary α]
    (hkeyword : ∀ a : α, (Vocabulary.spell a).IsKeyword) {make : Agent → α → Head}
    (hfields : readFields speaker topic t =
      (andThen (readField Agent.read) (readField Vocabulary.read) t).map
        (Prod.map (fun (target, word) => make target word) id)) :
    readFields speaker topic t = some (head, []) ↔
      ∃ target word v w, Apart target.Spelling v ∧ Apart (· = Vocabulary.spell word) w ∧
        t = v ++ w ∧ head = make target word := by
  -- a target ends by itself, whatever follows it
  have hread := recognises_target.andThen (recognises_word hkeyword) (by simp)
  rw [hfields, hread.whole]
  constructor
  · rintro ⟨⟨target, word⟩, ⟨v, w, hv, hw, rfl⟩, rfl⟩
    exact ⟨target, word, v, w, hv, hw, rfl, rfl⟩
  · rintro ⟨target, word, v, w, hv, hw, rfl, rfl⟩
    exact ⟨(target, word), ⟨v, w, hv, hw, rfl⟩, rfl⟩

/-- The fields of a claim are a player and a role. -/
private theorem readFields_claim_iff (hform : topic.form = .claim) :
    readFields speaker topic t = some (head, []) ↔
      ∃ target role v w, Apart target.Spelling v ∧ Apart (· = Vocabulary.spell role) w ∧
        t = v ++ w ∧ head = { topic, subject := speaker, target, role } := by
  apply readFields_word_iff Role.isKeyword_spell
  -- the block of the reader, written as a chain
  simp only [readFields, hform, andThen, readField, Option.map_eq_bind, Option.bind_eq_bind,
    Option.bind_assoc, Option.bind_some, Option.pure_def, Function.comp_def, Prod.map, id]

/-- The fields of a finding are a player and a species. -/
private theorem readFields_finding_iff (hform : topic.form = .finding) :
    readFields speaker topic t = some (head, []) ↔
      ∃ target result v w, Apart target.Spelling v ∧ Apart (· = Vocabulary.spell result) w ∧
        t = v ++ w ∧ head = { topic, subject := speaker, target, result } := by
  apply readFields_word_iff Species.isKeyword_spell
  simp only [readFields, hform, andThen, readField, Option.map_eq_bind, Option.bind_eq_bind,
    Option.bind_assoc, Option.bind_some, Option.pure_def, Function.comp_def, Prod.map, id]

/-- An action has a player for its only field. -/
private theorem readFields_action_iff (hform : topic.form = .action) :
    readFields speaker topic t = some (head, []) ↔
      ∃ target, Apart target.Spelling t ∧ head = { topic, subject := speaker, target } := by
  -- there is no second field, so the target takes the whole text
  have hfields : readFields speaker topic t =
      (readField Agent.read t).map
        (Prod.map (fun target => { topic, subject := speaker, target }) id) := by
    simp only [readFields, hform, readField, Option.map_eq_bind, Option.bind_eq_bind,
      Option.bind_assoc, Option.pure_def, Function.comp_def, Prod.map, id]
  rw [hfields, recognises_target.whole]

end

/-! ### Arguments -/

/-- The opening bracket of a region ends the gap in front of it. -/
private theorem afterGap?_region {gap region : Text} (hgap : IsGap gap)
    (hregion : IsRegion region) : Text.afterGap? (gap ++ region) = some region := by
  refine Text.afterGap?_eq_some_iff.mpr ⟨gap, hgap, rfl, ?_⟩
  -- a bracket is no gap
  rw [hregion.1]
  simp [Text.isGap]

/-- A region is read behind a gap, and to the end of the text. -/
private theorem region?_eq_some_iff {t region : Text} :
    region? t = some region ↔ IsRegion region ∧ ∃ gap, IsGap gap ∧ t = gap ++ region := by
  constructor
  · intro h
    obtain ⟨r, hafter, h⟩ := Option.bind_eq_some_iff.mp h
    -- the gap is skipped first, and what is left is tested for its brackets
    split at h
    · next hregion =>
      cases h
      obtain ⟨gap, hgap, rfl, -⟩ := Text.afterGap?_eq_some_iff.mp hafter
      exact ⟨hregion, gap, hgap, rfl⟩
    · exact nomatch h
  · rintro ⟨hregion, gap, hgap, rfl⟩
    rw [region?, afterGap?_region hgap hregion]
    exact if_pos hregion

/-- A field is read in front of a region. -/
private theorem bind_region?_eq_some_iff {α : Type} {read : Reader α} {Spells : α → Text → Prop}
    {goesOn : Char → Bool} (hread : Recognises read Spells goesOn)
    (hgoesOn : ∀ c, Text.isGap c → goesOn c = false) (make : α → Text → Phrase) {t : Text}
    {p : Phrase} :
    ((read t).bind fun r => (region? r.2).map (make r.1)) = some p ↔
      ∃ a w gap region, Spells a w ∧ IsGap gap ∧ IsRegion region ∧ t = w ++ (gap ++ region) ∧
        p = make a region := by
  -- the gap in front of the region stops the field, so the reader has no choice where to end
  rw [Option.bind_eq_some_iff]
  constructor
  · rintro ⟨⟨a, rest⟩, ha, h⟩
    obtain ⟨region, hrest, rfl⟩ := Option.map_eq_some_iff.mp h
    obtain ⟨w, hw, rfl, -⟩ := hread.read_iff.mp ha
    obtain ⟨hregion, gap, hgap, rfl⟩ := region?_eq_some_iff.mp hrest
    exact ⟨a, w, gap, region, hw, hgap, hregion, rfl, rfl⟩
  · rintro ⟨a, w, gap, region, hw, hgap, hregion, rfl, rfl⟩
    have ha := hread.read_iff.mpr ⟨w, hw, rfl, hgap.stop hgoesOn region⟩
    have hrest := region?_eq_some_iff.mpr ⟨hregion, gap, hgap, rfl⟩
    exact ⟨(a, gap ++ region), ha, Option.map_eq_some_iff.mpr ⟨region, hrest, rfl⟩⟩

section

variable {speaker : Agent} {operator : Operator} {t : Text} {p : Phrase}

/-- What follows an operator with an addressee. -/
private def addressed? (speaker : Agent) (operator : Operator) (t : Text) : Option Phrase :=
  (readField Agent.read t).bind fun r =>
    (region? r.2).map (compound { topic := .operator, operator, subject := speaker, target := r.1 })

/-- What follows an operator with an addressee is a spelling of the addressee and a region. -/
private theorem addressed?_eq_some_iff :
    addressed? speaker operator t = some p ↔
      ∃ target w gap region, Apart target.Spelling w ∧ IsGap gap ∧ IsRegion region ∧
        t = w ++ (gap ++ region) ∧
        p = compound { topic := .operator, operator, subject := speaker, target } region :=
  bind_region?_eq_some_iff recognises_target (fun _ _ => rfl) fun target =>
    compound { topic := .operator, operator, subject := speaker, target }

/-- An inquiry is read with its addressee, and in no other way. -/
private theorem ofArguments?_inquire :
    ofArguments? speaker .inquire t = addressed? speaker .inquire t := by
  simp only [ofArguments?, addressed?, readField, Option.map_eq_bind, Option.bind_eq_bind,
    Option.bind_assoc, Option.pure_def, Function.comp_def]

/-- A request is read with its addressee or else without one. -/
private theorem ofArguments?_request :
    ofArguments? speaker .request t =
      (addressed? speaker .request t).or ((region? t).map (bareRequest speaker)) := by
  simp only [ofArguments?, addressed?, readField, Option.map_eq_bind, Option.bind_eq_bind,
    Option.bind_assoc, Option.pure_def, Option.orElse_eq_orElse, Option.orElse_eq_or,
    Function.comp_def]

/-- What follows the operator of a day is the day and a region. -/
private theorem ofArguments?_day_eq_some_iff :
    ofArguments? speaker .day t = some p ↔
      ∃ day w gap region, Apart (IntSpelling (Int32.toInt day)) w ∧ IsGap gap ∧ IsRegion region ∧
        t = w ++ (gap ++ region) ∧
        p = compound { topic := .operator, operator := .day, subject := speaker, day } region := by
  -- the day has no label here
  have hread := Text.recognises_readInt32.field IntSpelling.isToken
  have harguments : ofArguments? speaker .day t =
      (readField Text.readInt32 t).bind fun r =>
        (region? r.2).map
          (compound { topic := .operator, operator := .day, subject := speaker, day := r.1 }) := by
    simp only [ofArguments?, readField, Option.map_eq_bind, Option.bind_eq_bind, Option.bind_assoc,
      Option.pure_def, Function.comp_def]
  rw [harguments, bind_region?_eq_some_iff hread Text.isDigit_of_isGap fun day =>
    compound { topic := .operator, operator := .day, subject := speaker, day }]

/-- What follows any other operator is a region. -/
private theorem ofArguments?_connective_eq_some_iff
    (h : operator ≠ .nop ∧ operator ≠ .day ∧ operator.addressesTarget = false) :
    ofArguments? speaker operator t = some p ↔
      ∃ gap region, IsGap gap ∧ IsRegion region ∧ t = gap ++ region ∧
        p = compound { topic := .operator, operator, subject := speaker } region := by
  -- the operators that have an alternative of their own are ruled out
  have harguments : ofArguments? speaker operator t =
      (region? t).map (compound { topic := .operator, operator, subject := speaker }) := by
    obtain ⟨hnop, hday, haddress⟩ := h
    cases operator with
    | nop => exact absurd rfl hnop
    | day => exact absurd rfl hday
    | request | inquire => exact nomatch haddress
    | because | not | and | or | xor => rfl
  rw [harguments, Option.map_eq_some_iff]
  simp only [region?_eq_some_iff]
  constructor
  · rintro ⟨region, ⟨hregion, gap, hgap, rfl⟩, rfl⟩
    exact ⟨gap, region, hgap, hregion, rfl, rfl⟩
  · rintro ⟨gap, region, hgap, hregion, rfl, rfl⟩
    exact ⟨region, ⟨hregion, gap, hgap, rfl⟩, rfl⟩

/-- A region does not begin like an agent, so it is no addressee. -/
private theorem ofArguments?_request_eq_some_iff :
    ofArguments? speaker .request t = some p ↔
      addressed? speaker .request t = some p ∨
        ∃ gap region, IsGap gap ∧ IsRegion region ∧ t = gap ++ region ∧
          p = bareRequest speaker region := by
  rw [ofArguments?_request, Option.or_eq_some_iff, Option.map_eq_some_iff]
  simp only [region?_eq_some_iff]
  -- the second alternative is tried only if the first fails, which the grammar does not ask for
  refine or_congr_right ?_
  constructor
  · rintro ⟨-, region, ⟨hregion, gap, hgap, rfl⟩, rfl⟩
    exact ⟨gap, region, hgap, hregion, rfl, rfl⟩
  · rintro ⟨gap, region, hgap, hregion, rfl, rfl⟩
    refine ⟨?_, region, ⟨hregion, gap, hgap, rfl⟩, rfl⟩
    -- it fails at the bracket, where no agent begins
    have hnone : readField Agent.read (gap ++ region) = none := by
      rw [readField, afterGap?_region hgap hregion, Option.bind_some]
      obtain ⟨rest, rfl⟩ := List.head?_eq_some_iff.mp hregion.1
      rfl
    rw [addressed?, hnone, Option.bind_none]

end

/-! ### Clauses -/

/-- What is read behind a speaker: a keyword, and its fields or its arguments. -/
private inductive ReadsAs (speaker : Agent) : Text → Text → Phrase → Prop where
  | simple {topic : Topic} {head : Head} {rest : Text}
      (h : readFields speaker topic rest = some (head, [])) :
      ReadsAs speaker (Vocabulary.spell topic) rest (simple head)
  | compound {operator : Operator} {rest : Text} {p : Phrase}
      (h : ofArguments? speaker operator rest = some p) :
      ReadsAs speaker (Vocabulary.spell operator) rest p

/-- What is read behind a speaker is a clause of the grammar. -/
private theorem ReadsAs.exists_clause {speaker : Agent} {word rest : Text} {p : Phrase}
    (h : ReadsAs speaker word rest p) : ∃ pattern, Clause speaker pattern (word ++ rest) p := by
  cases h with
  | @simple topic head rest h =>
    -- the form of the topic says which fields there are
    cases hform : topic.form with
    | empty | bare | compound =>
      -- nothing is read behind such a keyword
      simp only [readFields, hform] at h
      exact nomatch h
    | agreement =>
      obtain ⟨channel, day, index, u, v, w, hu, hv, hw, rfl, rfl⟩ :=
        (readFields_agreement_iff hform).mp h
      exact ⟨_, .agreement (keyword_spell (by decide) hform) hu hv hw⟩
    | claim =>
      obtain ⟨target, role, v, w, hv, hw, rfl, rfl⟩ := (readFields_claim_iff hform).mp h
      exact ⟨_, .claim (keyword_spell (by decide) hform) hv hw⟩
    | finding =>
      obtain ⟨target, result, v, w, hv, hw, rfl, rfl⟩ := (readFields_finding_iff hform).mp h
      exact ⟨_, .finding (keyword_spell (by decide) hform) hv hw⟩
    | action =>
      obtain ⟨target, hw, rfl⟩ := (readFields_action_iff hform).mp h
      exact ⟨_, .action (keyword_spell (by decide) hform) hw⟩
  | @compound operator rest p h =>
    -- two alternatives serve several operators each
    have haddressed : operator.addressesTarget = true → addressed? speaker operator rest = some p →
        ∃ pattern, Clause speaker pattern (Vocabulary.spell operator ++ rest) p := by
      intro haddress haddressed
      obtain ⟨target, w, gap, region, hw, hgap, hregion, rfl, rfl⟩ :=
        addressed?_eq_some_iff.mp haddressed
      exact ⟨_, .addressed (keyword_addresses.mpr ⟨haddress, rfl⟩) hw hgap hregion⟩
    have hconnective : operator ≠ .nop ∧ operator ≠ .day ∧ operator.addressesTarget = false →
        ∃ pattern, Clause speaker pattern (Vocabulary.spell operator ++ rest) p := by
      intro hplain
      obtain ⟨gap, region, hgap, hregion, rfl, rfl⟩ :=
        (ofArguments?_connective_eq_some_iff hplain).mp h
      exact ⟨_, .connective (keyword_connectives.mpr ⟨hplain, rfl⟩) hgap hregion⟩
    -- each operator has one alternative, the request has two
    cases operator with
    | nop => exact nomatch h
    | request =>
      rcases ofArguments?_request_eq_some_iff.mp h with h | ⟨gap, region, hgap, hregion, rfl, rfl⟩
      · exact haddressed rfl h
      · exact ⟨_, .bareRequest hgap hregion⟩
    | inquire => exact haddressed rfl (ofArguments?_inquire ▸ h)
    | day =>
      obtain ⟨day, w, gap, region, hw, hgap, hregion, rfl, rfl⟩ := ofArguments?_day_eq_some_iff.mp h
      exact ⟨_, .dated hw hgap hregion⟩
    | because | not | and | or | xor => exact hconnective (by decide)

/-- A clause is a keyword that is read as one, and behind it what is read as its fields or its
arguments. -/
private theorem Clause.readsAs {speaker : Agent} {pattern : Pattern} {body : Text} {p : Phrase}
    (h : Clause speaker pattern body p) :
    ∃ word rest, body = word ++ rest ∧ (∀ c ∈ rest.head?, ¬ c.isUpper) ∧
      ReadsAs speaker word rest p := by
  -- in every clause a gap follows the keyword, so the keyword ends there
  cases h with
  | agreement hkeyword hu hv hw =>
    obtain ⟨hform, rfl⟩ := (keyword_topics (by decide)).mp hkeyword
    exact ⟨_, _, rfl, hu.stop Text.isUpper_of_isGap _, .simple
      ((readFields_agreement_iff hform).mpr ⟨_, _, _, _, _, _, hu, hv, hw, rfl, rfl⟩)⟩
  | claim hkeyword hv hw =>
    obtain ⟨hform, rfl⟩ := (keyword_topics (by decide)).mp hkeyword
    exact ⟨_, _, rfl, hv.stop Text.isUpper_of_isGap _, .simple
      ((readFields_claim_iff hform).mpr ⟨_, _, _, _, hv, hw, rfl, rfl⟩)⟩
  | finding hkeyword hv hw =>
    obtain ⟨hform, rfl⟩ := (keyword_topics (by decide)).mp hkeyword
    exact ⟨_, _, rfl, hv.stop Text.isUpper_of_isGap _, .simple
      ((readFields_finding_iff hform).mpr ⟨_, _, _, _, hv, hw, rfl, rfl⟩)⟩
  | action hkeyword hw =>
    obtain ⟨hform, rfl⟩ := (keyword_topics (by decide)).mp hkeyword
    -- the one field is the whole rest, with nothing behind it
    have hstop := hw.stop Text.isUpper_of_isGap []
    rw [List.append_nil] at hstop
    exact ⟨_, _, rfl, hstop, .simple ((readFields_action_iff hform).mpr ⟨_, hw, rfl⟩)⟩
  | @addressed operator target k w gap region hkeyword hw hgap hregion =>
    obtain ⟨haddress, rfl⟩ := keyword_addresses.mp hkeyword
    have hread : addressed? speaker operator (w ++ (gap ++ region)) = _ :=
      addressed?_eq_some_iff.mpr ⟨target, w, gap, region, hw, hgap, hregion, rfl, rfl⟩
    refine ⟨_, _, rfl, hw.stop Text.isUpper_of_isGap _, .compound ?_⟩
    -- both operators read their addressee alike, but a request has a further alternative
    cases operator with
    | request => exact ofArguments?_request_eq_some_iff.mpr (Or.inl hread)
    | inquire => rw [ofArguments?_inquire, hread]
    | nop | because | day | not | and | or | xor => exact nomatch haddress
  | connective hkeyword hgap hregion =>
    obtain ⟨hplain, rfl⟩ := keyword_connectives.mp hkeyword
    exact ⟨_, _, rfl, hgap.stop Text.isUpper_of_isGap _, .compound
      ((ofArguments?_connective_eq_some_iff hplain).mpr ⟨_, _, hgap, hregion, rfl, rfl⟩)⟩
  | bareRequest hgap hregion =>
    exact ⟨Vocabulary.spell Operator.request, _, rfl, hgap.stop Text.isUpper_of_isGap _, .compound
      (ofArguments?_request_eq_some_iff.mpr (Or.inr ⟨_, _, hgap, hregion, rfl, rfl⟩))⟩
  | dated hw hgap hregion =>
    exact ⟨Vocabulary.spell Operator.day, _, rfl, hw.stop Text.isUpper_of_isGap _, .compound
      (ofArguments?_day_eq_some_iff.mpr ⟨_, _, _, _, hw, hgap, hregion, rfl, rfl⟩)⟩

/-! ### Sentences -/

/-- The word that is read first is a keyword, since a bare topic has no fields to be read. -/
private theorem ReadsAs.isKeyword {speaker : Agent} {word rest : Text} {p : Phrase}
    (h : ReadsAs speaker word rest p) : word.IsKeyword := by
  cases h with
  | simple h =>
    apply Topic.isKeyword_spell
    intro hbare
    -- a bare topic would have to be read with fields
    simp only [readFields, hbare] at h
    exact nomatch h
  | compound => exact Operator.isKeyword_spell _

/-- No agent is read where a keyword stands. -/
private theorem ReadsAs.no_agent {speaker : Agent} {word rest : Text} {p : Phrase}
    (h : ReadsAs speaker word rest p) : Agent.read (word ++ rest) = none := by
  cases h with
  | simple => exact Topic.read_spell_append _ _
  | compound => exact Operator.read_spell_append _ _

/-- A clause begins with a keyword, which is taken for no speaker. -/
theorem Clause.isSentence {speaker : Agent} {pattern : Pattern} {body : Text} {p : Phrase}
    (h : Clause speaker pattern body p) : body.IsSentence := by
  obtain ⟨word, rest, rfl, -, hreads⟩ := h.readsAs
  exact hreads.isKeyword.isSentence hreads.no_agent

/-- The reader of sentences as a chain of partial readers: the keyword, and then a topic or an
operator of that name. -/
private theorem ofSentence?_eq_bind (t : Text) :
    ofSentence? t = (Text.keyword (readSubject t).2).bind fun r =>
      match (Vocabulary.ofName? r.1 : Option Topic) with
      | some topic =>
        (readFields (readSubject t).1 topic r.2).bind fun
          | (head, []) => some (simple head)
          | _ => none
      | none =>
        (Vocabulary.ofName? r.1).bind fun operator =>
          ofArguments? (readSubject t).1 operator r.2 :=
  rfl

/-- Behind the speaker, a sentence is a keyword that ends, and what is read behind it. -/
private theorem ofSentence?_eq_some_iff {t : Text} {p : Phrase} :
    ofSentence? t = some p ↔
      ∃ word rest, (readSubject t).2 = word ++ rest ∧ (∀ c ∈ rest.head?, ¬ c.isUpper) ∧
        ReadsAs (readSubject t).1 word rest p := by
  rw [ofSentence?_eq_bind, Option.bind_eq_some_iff]
  constructor
  · rintro ⟨⟨word, rest⟩, hread, h⟩
    obtain ⟨-, htext, hstop⟩ := Text.keyword_eq_some_iff.mp hread
    refine ⟨word, rest, htext, hstop, ?_⟩
    -- the name is looked up among the topics first
    split at h
    · next topic hname =>
      obtain rfl := Vocabulary.ofName?_eq_some_iff.mp hname
      obtain ⟨⟨head, left⟩, hfields, h⟩ := Option.bind_eq_some_iff.mp h
      -- nothing may be left behind the fields
      split at h
      · next heq =>
        cases heq
        cases h
        exact .simple hfields
      · contradiction
    · obtain ⟨operator, hname, h⟩ := Option.bind_eq_some_iff.mp h
      obtain rfl := Vocabulary.ofName?_eq_some_iff.mp hname
      exact .compound h
  · rintro ⟨word, rest, htext, hstop, h⟩
    have hread := Text.keyword_eq_some_iff.mpr ⟨h.isKeyword, htext, hstop⟩
    refine ⟨(word, rest), hread, ?_⟩
    cases h with
    | @simple topic _ _ h =>
      have hname : Vocabulary.ofName? (Vocabulary.spell topic) = some topic :=
        Vocabulary.ofName?_eq_some_iff.mpr rfl
      simp only [hname, h, Option.bind_some]
    | @compound operator _ _ h =>
      -- no topic is spelled like an operator
      have htopic : (Vocabulary.ofName? (Vocabulary.spell operator) : Option Topic) = none := by
        cases operator <;> rfl
      have hname : Vocabulary.ofName? (Vocabulary.spell operator) = some operator :=
        Vocabulary.ofName?_eq_some_iff.mpr rfl
      simp only [htopic, hname, h, Option.bind_some]

/-- The speaker that is read is written in front of what is left. -/
private theorem opening_readSubject (t : Text) :
    ∃ front, Opening (readSubject t).1 front ∧ t = front ++ (readSubject t).2 := by
  unfold readSubject
  cases hread : Agent.read t with
  | none => exact ⟨[], .absent, rfl⟩
  | some r =>
    obtain ⟨speaker, rest⟩ := r
    obtain ⟨w, hw, rfl, -⟩ := Agent.recognises_read.read_iff.mp hread
    have hgap : ∀ c ∈ rest.takeWhile Text.isGap, c ∈ [' ', '\t', '\r', '\n'] := fun c hc =>
      Text.isGap_iff_mem.mp (List.mem_takeWhile_imp hc)
    -- the opening takes the gap along
    refine ⟨w ++ rest.takeWhile Text.isGap, .written hw hgap, ?_⟩
    show w ++ rest = w ++ rest.takeWhile Text.isGap ++ rest.dropWhile Text.isGap
    rw [List.append_assoc, List.takeWhile_append_dropWhile]

/-- A speaker is read off the front of what begins with a capital letter and with no agent. -/
private theorem readSubject_opening {speaker : Agent} {front t : Text}
    (hfront : Opening speaker front) (ht : t.IsSentence) :
    readSubject (front ++ t) = (speaker, t) := by
  cases hfront with
  | absent => simp only [readSubject, List.nil_append, ht.no_agent]
  | @written _ w gap hw hgap =>
    -- the gap ends at the capital letter, which is no blank
    have hskip : Text.skipGap (gap ++ t) = t := by
      obtain ⟨c, rest, rfl, hc⟩ := ht.head_upper
      refine (Text.takeWhile_and_dropWhile_iff.mpr
        ⟨fun c hc => Text.isGap_iff_mem.mpr (hgap c hc), rfl, ?_⟩).2
      have hstop : Text.isGap c = false := Bool.eq_false_iff.mpr fun hgap =>
        Text.not_isBlank_of_isUpper hc (Text.isBlank_of_isGap hgap)
      simpa using hstop
    rw [readSubject, List.append_assoc, Agent.read_append hw]
    simp only [hskip]

/-- A sentence is a clause behind the speaker that is read. -/
theorem ofSentence?_iff_clause {t : Text} {p : Phrase} :
    ofSentence? t = some p ↔ ∃ pattern, Clause (readSubject t).1 pattern (readSubject t).2 p := by
  rw [ofSentence?_eq_some_iff]
  constructor
  · rintro ⟨word, rest, htext, -, h⟩
    -- that no letter follows the keyword is part of any clause
    rw [htext]
    exact h.exists_clause
  · rintro ⟨pattern, hclause⟩
    exact hclause.readsAs

/-- A sentence is a clause behind any spelling of its speaker. -/
private theorem ofSentence?_iff_opening {t : Text} {p : Phrase} :
    ofSentence? t = some p ↔
      ∃ speaker front body pattern, Opening speaker front ∧ Clause speaker pattern body p ∧
        t = front ++ body := by
  rw [ofSentence?_iff_clause]
  constructor
  · rintro ⟨pattern, hclause⟩
    obtain ⟨front, hfront, hsplit⟩ := opening_readSubject t
    exact ⟨_, front, _, pattern, hfront, hclause, hsplit⟩
  · rintro ⟨speaker, front, body, pattern, hfront, hclause, rfl⟩
    -- the speaker that is read is the one that is written, for a clause begins like no agent
    rw [readSubject_opening hfront hclause.isSentence]
    exact ⟨pattern, hclause⟩

/-- A keyword that stands alone is no sentence. -/
theorem ofSentence?_spell (topic : Topic) :
    ofSentence? (Vocabulary.spell topic) = none := by
  cases topic <;> rfl

/-! ### Texts -/

/-- What is no bare keyword is read as a sentence. -/
theorem ofText?_eq_ofSentence? {t : Text}
    (h : ∀ topic : Topic, topic.form = .bare → t ≠ Vocabulary.spell topic) :
    ofText? t = ofSentence? t := by
  unfold ofText?
  split
  · next topic hname =>
    exact if_neg fun hbare => h topic hbare (Vocabulary.ofName?_eq_some_iff.mp hname)
  · rfl

/-- What is read as a sentence is the phrase of the whole text. -/
theorem ofText?_of_ofSentence? {t : Text} {p : Phrase} (h : ofSentence? t = some p) :
    ofText? t = some p := by
  rw [ofText?_eq_ofSentence?, h]
  intro topic _ hspell
  rw [hspell, ofSentence?_spell] at h
  exact nomatch h

/-- The reader of phrases accepts exactly the texts of the grammar. -/
theorem ofText?_eq_some_iff {t : Text} {p : Phrase} :
    ofText? t = some p ↔ ∃ pattern, Grammar pattern t p := by
  constructor
  · intro h
    -- a text that is no bare keyword is read as a sentence on either of two paths
    have hsentence : ofSentence? t = some p → ∃ pattern, Grammar pattern t p := by
      intro h
      obtain ⟨speaker, front, body, pattern, hfront, hbody, rfl⟩ := ofSentence?_iff_opening.mp h
      exact ⟨pattern, .sentence hfront hbody⟩
    unfold ofText? at h
    split at h
    · next topic hname =>
      obtain rfl := Vocabulary.ofName?_eq_some_iff.mp hname
      split at h
      · next hbare =>
        cases h
        exact ⟨_, .bare (keyword_spell (by decide) hbare)⟩
      · exact hsentence h
    · exact hsentence h
  · rintro ⟨pattern, h⟩
    cases h with
    | bare hkeyword =>
      obtain ⟨hbare, rfl⟩ := (keyword_topics (by decide)).mp hkeyword
      -- bare keywords are tried before sentences
      rw [ofText?, Vocabulary.ofName?_eq_some_iff.mpr rfl]
      exact if_pos hbare
    | sentence hfront hbody =>
      exact ofText?_of_ofSentence?
        (ofSentence?_iff_opening.mpr ⟨_, _, _, _, hfront, hbody, rfl⟩)

/-- The pattern that a phrase comes from. -/
def pattern : Phrase → Pattern
  | simple head =>
    match head.topic.form with
    | .agreement => .agreement
    | .claim => .claim
    | .finding => .finding
    | .action => .action
    | .bare | .empty | .compound => .bare
  | compound head _ =>
    match head.operator with
    | .request | .inquire => .addressed
    | .day => .dated
    | .because | .not | .and | .or | .xor | .nop => .connective
  | bareRequest _ _ => .bareRequest

/-- The pattern that a text follows can be told from the phrase that it is. -/
private theorem Grammar.pattern_eq {pattern : Pattern} {t : Text} {p : Phrase}
    (h : Grammar pattern t p) : pattern = p.pattern := by
  cases h with
  | bare hkeyword => simp only [Phrase.pattern, hkeyword.form_eq]
  | sentence _ hbody =>
    -- a simple phrase shows its form, a compound one its operator
    cases hbody with
    | agreement hkeyword => simp only [Phrase.pattern, hkeyword.form_eq]
    | claim hkeyword => simp only [Phrase.pattern, hkeyword.form_eq]
    | finding hkeyword => simp only [Phrase.pattern, hkeyword.form_eq]
    | action hkeyword => simp only [Phrase.pattern, hkeyword.form_eq]
    | @addressed operator _ _ _ _ _ hkeyword =>
      have haddress := (keyword_addresses.mp hkeyword).1
      cases operator with
      | request | inquire => rfl
      | nop | because | day | not | and | or | xor => exact nomatch haddress
    | @connective operator _ _ _ hkeyword =>
      obtain ⟨-, hday, haddress⟩ := (keyword_connectives.mp hkeyword).1
      cases operator with
      | request | inquire => exact nomatch haddress
      | day => exact absurd rfl hday
      | nop | because | not | and | or | xor => rfl
    | bareRequest => rfl
    | dated => rfl

/-- No text follows two patterns, or one in two ways. -/
theorem Grammar.unique {first second : Pattern} {t : Text} {p q : Phrase} (hp : Grammar first t p)
    (hq : Grammar second t q) : first = second ∧ p = q := by
  -- the reader is a function, so it gives one phrase, and the phrase shows its pattern
  have hread := ofText?_eq_some_iff.mpr ⟨first, hp⟩
  rw [ofText?_eq_some_iff.mpr ⟨second, hq⟩] at hread
  cases hread
  exact ⟨hp.pattern_eq.trans hq.pattern_eq.symm, rfl⟩

end Phrase

end Parley
