import Parley.Proofs.Wire
import Parley.Proofs.Statement.Reachable
import Parley.Statement.View

/-!
# Views of statements, without their texts

The JSON of a view leaves out every field that says nothing, and the text of a statement says
nothing that its fields do not. So a statement is known from the JSON of its view even if every text
in it is left out: what is not shown is the default of the form, and the text is rendered anew.

## Key results

- `View.toJson_eq_object`: a view is written as its rows
- `View.agree_of_toJson`: views whose JSON is the same but for the texts agree in everything else
- `Head.eq_of_agree`: heads are known from what is shown of them
- `Statement.Reachable.eq_of_view`: statements are known from their views without the texts
-/

namespace Parley

namespace View

/-! ### Rows -/

/-- The value of the row for the operands, which is left out if there are none. -/
def operandsValue (operands : List View) : Option Json :=
  if operands = [] then none else some (.array (operands.map toJson))

/-- The rows of a view. -/
def rows (v : View) : List (String × Option Json) :=
  [("topic", some (Wire.toJson v.topic)), ("operator", v.operator.map Wire.toJson),
    ("subject", v.subject.map Wire.toJson), ("target", v.target.map Wire.toJson),
    ("role", v.role.map Wire.toJson), ("result", v.result.map Wire.toJson),
    ("day", v.day.map Wire.toJson), ("utterance", v.utterance.map Wire.toJson),
    ("children", operandsValue v.operands), ("text", some (Wire.toJson v.text))]

/-- The operands are written one by one. -/
theorem toJsons_eq_map (views : List View) : toJsons views = views.map toJson := by
  induction views with
  | nil => rfl
  | cons v rest ih => rw [toJsons, ih, List.map_cons]

/-- A member that may be missing is a row that may have no value. -/
theorem optional_append {α : Type} [Wire α] (name : String) (value : Option α)
    (rows : List (String × Option Json)) :
    optional name value ++ rows.filterMap Json.written? =
      ((name, value.map Wire.toJson) :: rows).filterMap Json.written? := by
  cases value <;> rfl

/-- The member for the operands is missing if there are none. -/
theorem operandsMember_append (operands : List View) (rows : List (String × Option Json)) :
    operandsMember (operands.map toJson) ++ rows.filterMap Json.written? =
      (("children", operandsValue operands) :: rows).filterMap Json.written? := by
  cases operands <;> rfl

/-- A view is written as its rows. -/
theorem toJson_eq_object (v : View) : v.toJson = .object (v.rows.filterMap Json.written?) := by
  obtain ⟨topic, operator, subject, target, role, result, day, utterance, operands, text⟩ := v
  -- the text is always there, and it is the last row
  have htext : [Wire.member "text" text] =
      [("text", some (Wire.toJson text))].filterMap Json.written? := rfl
  rw [toJson, toJsons_eq_map, htext]
  simp only [List.append_assoc, operandsMember_append, optional_append]
  rfl

/-- No two rows have the same name, so the rows are known from the JSON. -/
theorem rowsWithout_text_eq {v w : View} (h : v.toJson.without "text" = w.toJson.without "text") :
    Json.rowsWithout "text" v.rows = Json.rowsWithout "text" w.rows := by
  rw [toJson_eq_object, toJson_eq_object, Json.without, Json.without,
    Json.withoutMembers_filterMap_written?, Json.withoutMembers_filterMap_written?] at h
  -- the names are the same on both sides, and no two of them are alike
  refine Json.rows_eq_of_written_eq rfl ?_ (Json.object.inj h)
  show ["topic", "operator", "subject", "target", "role", "result", "day", "utterance",
    "children"].Nodup
  decide

/-! ### Agreement -/

/-- Two views agree in every member but their texts. -/
structure Agree (v w : View) : Prop where
  topic : v.topic = w.topic
  operator : v.operator = w.operator
  subject : v.subject = w.subject
  target : v.target = w.target
  role : v.role = w.role
  result : v.result = w.result
  day : v.day = w.day
  utterance : (v.utterance.map fun u => (Wire.toJson u).without "text") =
    w.utterance.map fun u => (Wire.toJson u).without "text"
  operands : (v.operands.map fun operand => operand.toJson.without "text") =
    w.operands.map fun operand => operand.toJson.without "text"

/-- Scalars are not changed when members are left out, so they are known from what is left. -/
theorem eq_of_map_without_eq {α : Type} [Wire α] [LawfulWire α] {name : String}
    (hscalar : ∀ a : α, (Wire.toJson a).without name = Wire.toJson a) {x y : Option α}
    (h : (x.map Wire.toJson).map (Json.without name) =
      (y.map Wire.toJson).map (Json.without name)) : x = y := by
  rw [Option.map_map, Option.map_map, funext (f := Json.without name ∘ Wire.toJson) hscalar] at h
  exact Option.map_injective Wire.toJson_injective h

/-- The operands are known from the row for them, which is left out if there are none. -/
theorem map_operands_of_row {views others : List View} {name : String}
    (h : (operandsValue views).map (Json.without name) =
      (operandsValue others).map (Json.without name)) :
    (views.map fun v => v.toJson.without name) = others.map fun v => v.toJson.without name := by
  -- leaving out members makes no array empty
  have hvalue : ∀ views, (operandsValue views).map (Json.without name) =
      if views = [] then none else some (.array (views.map fun v => v.toJson.without name)) := by
    intro views
    unfold operandsValue
    split
    · rfl
    · rw [Option.map_some, Json.without, Json.withoutItems_eq_map, List.map_map]
      rfl
  rw [hvalue, hvalue] at h
  split at h <;> split at h
  · subst_vars
    rfl
  · contradiction
  · contradiction
  · exact Json.array.inj (Option.some.inj h)

/-- Views whose JSON is the same but for the texts agree in everything else. -/
theorem agree_of_toJson {v w : View} (h : v.toJson.without "text" = w.toJson.without "text") :
    Agree v w := by
  -- each row is looked up by its name on both sides
  have hrow : ∀ name, (Json.rowsWithout "text" v.rows).lookup name =
      (Json.rowsWithout "text" w.rows).lookup name := by
    rw [rowsWithout_text_eq h]
    exact fun _ => rfl
  have hutterance := Option.some.inj (hrow "utterance")
  rw [Option.map_map, Option.map_map] at hutterance
  exact {
    topic := Wire.toJson_injective (Option.some.inj (Option.some.inj (hrow "topic")))
    operator := eq_of_map_without_eq (fun _ => rfl) (Option.some.inj (hrow "operator"))
    subject := eq_of_map_without_eq (fun _ => rfl) (Option.some.inj (hrow "subject"))
    target := eq_of_map_without_eq (fun _ => rfl) (Option.some.inj (hrow "target"))
    role := eq_of_map_without_eq (fun _ => rfl) (Option.some.inj (hrow "role"))
    result := eq_of_map_without_eq (fun _ => rfl) (Option.some.inj (hrow "result"))
    day := eq_of_map_without_eq (fun _ => rfl) (Option.some.inj (hrow "day"))
    utterance := hutterance
    operands := map_operands_of_row (Option.some.inj (hrow "children")) }

end View

/-! ### Statements -/

/-- A reference to an utterance is known without the text of the utterance. -/
theorem Utterance.eq_of_toJson {u v : Utterance} (hu : u = .reference u.channel u.day u.index)
    (hv : v = .reference v.channel v.day v.index)
    (h : (Wire.toJson u).without "text" = (Wire.toJson v).without "text") : u = v := by
  -- the members that a reference does not fix are looked up in the object
  have hmember := fun name : String =>
    congrArg (List.lookup (some name.toList)) (Json.object.inj h)
  have hchannel : u.channel = v.channel := Wire.toJson_injective (Option.some.inj (hmember "kind"))
  have hday : u.day = v.day := Wire.toJson_injective (Option.some.inj (hmember "day"))
  have hindex : u.index = v.index := Wire.toJson_injective (Option.some.inj (hmember "index"))
  rw [hu, hv, hchannel, hday, hindex]

/-- A field that is left out where it is unset is known from what is shown. -/
theorem eq_of_unless {α : Type} [DecidableEq α] {unset x y : α}
    (h : (if x = unset then none else some x) = if y = unset then none else some y) : x = y := by
  grind

/-- A field that is shown where it is used is known from what is shown and from its default. -/
theorem eq_of_shown {α : Type} {used : Prop} [Decidable used] {x y : α}
    (h : (if used then some x else none) = if used then some y else none)
    (hunused : ¬ used → x = y) : x = y := by
  grind

/-- Well-formed heads are known from their views: what is not shown there is the default. -/
theorem Head.eq_of_agree {head head' : Head} {operands operands' : List Statement}
    {text text' : Text} (hwf : head.WellFormed) (hwf' : head'.WellFormed)
    (h : View.Agree (.ofStatement ⟨head, operands, text⟩)
      (.ofStatement ⟨head', operands', text'⟩)) : head = head' := by
  obtain ⟨topic, operator, subject, target, role, result, utterance, day⟩ := head
  obtain ⟨topic', operator', subject', target', role', result', utterance', day'⟩ := head'
  -- which fields are shown depends on the topic and the operator, so these come first
  obtain rfl : topic = topic' := h.topic
  obtain rfl : operator = operator' := by
    apply eq_of_shown h.operator
    intro hsimple
    exact (hwf.operator_eq_nop hsimple).trans (hwf'.operator_eq_nop hsimple).symm
  obtain rfl : subject = subject' := eq_of_unless h.subject
  obtain rfl : target = target' := by
    -- a target that is not shown is not used, so it is anybody
    apply eq_of_shown h.target
    intro hunused
    simp only [Bool.or_eq_true, not_or, Bool.not_eq_true] at hunused
    exact (hwf.target_unused hunused.1 hunused.2).trans
      (hwf'.target_unused hunused.1 hunused.2).symm
  obtain rfl : role = role' := eq_of_unless h.role
  obtain rfl : result = result' := eq_of_unless h.result
  obtain rfl : day = day' := by
    apply eq_of_shown h.day
    intro hunused
    exact (hwf.day_unused hunused).trans (hwf'.day_unused hunused).symm
  obtain rfl : utterance = utterance' := by
    have hshown := h.utterance
    by_cases hform : topic.form = .agreement
    · have hused : ∀ {u : Utterance}, (if topic.form = .agreement then some u else none) = some u :=
        if_pos hform
      simp only [View.ofStatement, hused, Option.map_some, Option.some.injEq] at hshown
      exact Utterance.eq_of_toJson hwf.utterance_reference hwf'.utterance_reference hshown
    · exact (hwf.utterance_unused hform).trans (hwf'.utterance_unused hform).symm
  rfl

namespace Statement

/-- A view loses nothing, not even without its texts. Two statements that can be made are the same
in every part, texts included, if the JSON of their views is the same when the members named `text`
are left out at every level. -/
theorem Reachable.eq_of_view {a b : Statement} (ha : a.Reachable) (hb : b.Reachable)
    (h : (View.ofStatement a).toJson.without "text" = (View.ofStatement b).toJson.without "text") :
    a = b := by
  induction a generalizing b with
  | node head operands text ih =>
    obtain ⟨head', operands', text'⟩ := b
    have hagree := View.agree_of_toJson h
    have hhead : head = head' :=
      Head.eq_of_agree (ha.shaped _ (mem_nodes_self _)).toWellFormed
        (hb.shaped _ (mem_nodes_self _)).toWellFormed hagree
    have hviews := hagree.operands
    simp only [View.ofStatement, View.ofStatements_eq_map, List.map_map] at hviews
    -- the views of the operands agree one by one
    have hoperands : operands.map id = operands'.map id := by
      refine map_eq_of_map_eq ?_ hviews
      exact fun operand ho operand' ho' => ih operand ho (ha.operand ho) (hb.operand ho')
    rw [List.map_id, List.map_id] at hoperands
    -- the texts are rendered from the rest
    have htext : text = render head operands := (ha.settled _ (mem_nodes_self _)).text
    have htext' : text' = render head' operands' := (hb.settled _ (mem_nodes_self _)).text
    rw [htext, htext', hhead, hoperands]

/-- An agreement because of a `Skip`: it makes no difference whether the parts are given their
speaker before they are joined or by the whole afterwards, and the JSON is enough to tell. -/
theorem Reachable.eq_of_view_because :
    let agreement := Draft.agree .talk 1 2
    let before := ((Draft.because (agreement.spokenBy ⟨1⟩).build
      (Draft.skip.spokenBy ⟨1⟩).build).spokenBy ⟨1⟩).build
    let after := (Draft.because agreement.build Draft.skip.build).build.spokenBy ⟨1⟩
    before.Reachable ∧ after.Reachable ∧
      (View.ofStatement before).toJson.without "text" =
        (View.ofStatement after).toJson.without "text" ∧
      before = after := by
  intro agreement before after
  have hbefore : before.Reachable := by
    apply Reachable.build (.spokenBy (.because _ _) _)
    refine List.forall_mem_cons.mpr ⟨.build_leaf (.spokenBy (.agree _ _ _) _) rfl, ?_⟩
    exact List.forall_mem_singleton.mpr (.build_leaf (.spokenBy .skip _) rfl)
  have hafter : after.Reachable := by
    refine .spokenBy (.build (.because _ _) ?_) _
    refine List.forall_mem_cons.mpr ⟨.build_leaf (.agree _ _ _) rfl, ?_⟩
    exact List.forall_mem_singleton.mpr (.build_leaf .skip rfl)
  have hview : (View.ofStatement before).toJson.without "text" =
      (View.ofStatement after).toJson.without "text" := rfl
  exact ⟨hbefore, hafter, hview, hbefore.eq_of_view hafter hview⟩

end Statement

end Parley
