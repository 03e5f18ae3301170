import SyntheticRows.Proofs.Lexical.Rendering

/-!
# Lookup definitions

A lookup list is defined under a name that goes by its JSON text. So the definition of a list serves
for every other list with the same text, but it is only right for those that would be written the
same: on SQLite those that can be written at all, on the other engines those with points in time and
dates at the same places.
-/
namespace SyntheticRows
open Sql

namespace Sql

/-- The JSON text that the name of a list goes by. -/
def lookupPayload (values : List Value) : Except Error String :=
  Json.writeLoose (.list (values.map Value.toJson))

/-- The name made from a JSON text. -/
def digestName (payload : String) : String :=
  "_lookup_" ++ String.ofList ((Text.Sha1.hexDigest payload.toUTF8.toList).toList.take 12)

theorem lookupName_eq (values : List Value) :
    lookupName values = digestName <$> lookupPayload values := rfl

def Definition.name : Definition → String
  | counter _ => "seq"
  | arrayRow name _ | jsonRow name _ | arrayName name _ => name

/-- The counter of a row source has another name than any list. -/
theorem digestName_ne_counter (payload : String) : digestName payload ≠ "seq" := by
  intro h
  have chars := congrArg String.toList h
  simp [digestName] at chars

theorem Expr.renderAll_literal (e : Engine) (ls : List Literal) :
    Expr.renderAll e (ls.map .literal) = ls.map (Literal.render e) := by
  induction ls with
  | nil => rfl
  | cons l ls ih =>
    change l.render e :: renderAll e (ls.map .literal) = _
    rw [ih, List.map_cons]

theorem Literal.isScalar_of_ofValue {v : Value} {l : Literal} (h : ofValue v = .ok l) :
    v.isScalar = true := by
  cases v with
  | bytes _ | list _ | tuple _ | set _ | mapping _ => cases h
  | _ => rfl

end Sql

/-- Whether a list with the JSON text of another is also written as the other one is. -/
def Engine.WritesAlike (e : Engine) (vs ws : List Value) : Prop :=
  match e with
  | .sqlite => ∃ payload, Json.writeStrict (.list (vs.map Value.toJson)) = .ok payload
  | .postgresql | .clickhouse | .trino =>
    List.Forall₂ (fun v w => v.isScalar = true ∧ v.isMoment = w.isMoment) vs ws

theorem Engine.writesAlike_iff {e : Engine} (he : e ≠ .sqlite) {vs ws : List Value} :
    e.WritesAlike vs ws ↔
      List.Forall₂ (fun v w => v.isScalar = true ∧ v.isMoment = w.isMoment) vs ws := by
  cases e <;> first | rfl | exact absurd rfl he

namespace Dialect

variable {e : Engine} {name payload : String} {vs ws : List Value} {d : Definition}

theorem literal_eq (v : Value) : (of e).literal v = (Literal.ofValue v).map Expr.literal := by
  simp only [literal, speaking, engine, bind, Except.bind]
  cases Literal.ofValue v <;> rfl

theorem literal_ok_iff {v : Value} {x : Expr} :
    (of e).literal v = .ok x ↔ ∃ l, Literal.ofValue v = .ok l ∧ .literal l = x := by
  rw [literal_eq]
  cases Literal.ofValue v <;> simp [Except.map]

theorem literals_ok_iff {xs : List Expr} : vs.mapM (of e).literal = .ok xs ↔
    ∃ ls, List.Forall₂ (fun v l => Literal.ofValue v = .ok l) vs ls ∧ ls.map .literal = xs := by
  constructor
  · intro h
    have each := forall₂_of_mapM h
    simp only [literal_ok_iff] at each
    obtain ⟨ls, literals, same⟩ := pairing_comp.1 each
    exact ⟨ls, literals, by rwa [← List.forall₂_map_left_iff, List.forall₂_eq_eq_eq] at same⟩
  · rintro ⟨ls, literals, rfl⟩
    apply mapM_of_forall₂
    rw [List.forall₂_map_right_iff]
    exact literals.imp fun v l h => literal_ok_iff.2 ⟨l, h, rfl⟩

theorem lookupDefinition_sqlite : (of .sqlite).lookupDefinition name vs = .ok d ↔
    ∃ payload h, Json.writeStrict (.list (vs.map Value.toJson)) = .ok payload ∧
      d = .jsonRow name (.literal (.text payload h)) := by
  have compiled : (of .sqlite).lookupDefinition name vs =
      (Json.writeStrict (.list (vs.map Value.toJson))).bind fun payload =>
        (Literal.ofText payload).map fun l => .jsonRow name (.literal l) := by
    simp only [lookupDefinition, engine, bind, Except.bind]
    cases Json.writeStrict (.list (vs.map Value.toJson)) with
    | error _ => rfl
    | ok payload =>
      simp only [literal_eq, Literal.ofValue]
      cases Literal.ofText payload <;> rfl
  rw [compiled]
  cases Json.writeStrict (.list (vs.map Value.toJson)) with
  | error _ => simp [Except.bind]
  | ok payload =>
    by_cases hn : '\x00' ∈ payload.toList
    · have refused : Literal.ofText payload = .error (.configuration .nulInLiteral) := by
        rw [Literal.ofText, dif_neg (not_not.2 hn)]
        rfl
      simp [Except.bind, Except.map, refused, hn]
    · have written : Literal.ofText payload = .ok (.text payload hn) := dif_pos hn
      simp [Except.bind, Except.map, written, hn, eq_comm]

/-- An array of literals under a name. -/
def arrayDefinition (e : Engine) (name : String) (ls : List Literal) : Definition :=
  if e = .clickhouse then .arrayName name (ls.map .literal) else .arrayRow name (ls.map .literal)

theorem lookupDefinition_array (he : e ≠ .sqlite) : (of e).lookupDefinition name vs = .ok d ↔
    ∃ ls, List.Forall₂ (fun v l => Literal.ofValue v = .ok l) vs ls ∧
      arrayDefinition e name ls = d := by
  have compiled : (of e).lookupDefinition name vs =
      (fun xs => if e = .clickhouse then .arrayName name xs else .arrayRow name xs) <$>
        vs.mapM (of e).literal := by
    cases e with
    | sqlite => exact absurd rfl he
    | _ => rfl
  rw [compiled]
  constructor
  · intro h
    obtain ⟨xs, literals, h⟩ := except_ok_of_map h
    obtain ⟨ls, hl, rfl⟩ := literals_ok_iff.1 literals
    exact ⟨ls, hl, h⟩
  · rintro ⟨ls, hl, rfl⟩
    rw [literals_ok_iff.2 ⟨ls, hl, rfl⟩]
    rfl

theorem name_of_lookupDefinition (h : (of e).lookupDefinition name vs = .ok d) : d.name = name := by
  by_cases he : e = .sqlite
  · subst he
    obtain ⟨payload, _, _, rfl⟩ := lookupDefinition_sqlite.1 h
    rfl
  · obtain ⟨ls, _, rfl⟩ := (lookupDefinition_array he).1 h
    rw [arrayDefinition]
    split <;> rfl

/-- What stands around the items is the same for all lists. -/
theorem render_arrayDefinition_iff {ls ms : List Literal} :
    (arrayDefinition e name ls).render e = (arrayDefinition e name ms).render e ↔
      Text.joined ", " (ls.map (Literal.render e)) =
        Text.joined ", " (ms.map (Literal.render e)) := by
  have cancel (front back : String) {a b : String} :
      front ++ a ++ back = front ++ b ++ back ↔ a = b := by
    rw [String.append_left_inj, String.append_right_inj]
  rw [← Expr.renderAll_literal, ← Expr.renderAll_literal]
  by_cases hc : e = .clickhouse
  · rw [arrayDefinition, arrayDefinition, if_pos hc, if_pos hc]
    refine (String.append_left_inj name).trans ?_
    exact (String.append_left_inj " AS ").trans (cancel "[" "]")
  · rw [arrayDefinition, arrayDefinition, if_neg hc, if_neg hc]
    exact (cancel (name ++ " AS (SELECT ") " AS arr)").trans (cancel "ARRAY[" "]")

/-- If the scalars of a list are literals, so are those that coincide with them and agree on what is
a point in time. -/
theorem exists_literals {ms : List Literal} (h : List.Forall₂ Value.Coincides vs ws)
    (moments : List.Forall₂ (fun v w => v.isMoment = w.isMoment) vs ws)
    (hm : List.Forall₂ (fun w m => Literal.ofValue w = .ok m) ws ms) :
    ∃ ls, List.Forall₂ (fun v l => Literal.ofValue v = .ok l) vs ls := by
  induction h generalizing ms with
  | nil => exact ⟨[], .nil⟩
  | @cons v w _ _ first _ ih =>
    cases moments with
    | cons same moments =>
      cases hm with
      | cons hw hm =>
        obtain ⟨ls, hl⟩ := ih moments hm
        have alike := first.ofValue_alike (e := .postgresql) same
        rw [hw] at alike
        cases hv : Literal.ofValue v with
        | error _ =>
          rw [hv] at alike
          cases alike
        | ok l => exact ⟨l :: ls, .cons hv hl⟩

/-- Scalars in lists with the same JSON text coincide. -/
theorem coincides_of_payload (hv : lookupPayload vs = .ok payload)
    (hw : lookupPayload ws = .ok payload) (scalars : ∀ v ∈ vs, v.isScalar = true)
    (scalars' : ∀ w ∈ ws, w.isScalar = true) : List.Forall₂ Value.Coincides vs ws := by
  obtain ⟨texts, tv, tw⟩ := Json.items_of_writeLoose_list scalars scalars' hv hw
  have first := (List.forall₂_and_left _ _).2 ⟨scalars, tv⟩
  have second := (List.forall₂_and_left _ _).2 ⟨scalars', tw⟩
  refine (pairing_comp.2 ⟨texts, first, second.flip⟩).imp ?_
  intro v w both
  obtain ⟨t, ⟨hv, written⟩, hw, written'⟩ := both
  exact ⟨hv, hw, t, written, written'⟩

theorem scalars_of_literals {ls : List Literal}
    (h : List.Forall₂ (fun v l => Literal.ofValue v = .ok l) vs ls) :
    ∀ v ∈ vs, v.isScalar = true := by
  intro v member
  obtain ⟨l, _, literal⟩ := partner_right h member
  exact Literal.isScalar_of_ofValue literal

/-- The definition of a list serves another list with the same JSON text if that one is written the
same. -/
theorem lookupDefinition_alike_iff (hv : lookupPayload vs = .ok payload)
    (hw : lookupPayload ws = .ok payload) (hd : (of e).lookupDefinition name ws = .ok d) :
    (∃ own, (of e).lookupDefinition name vs = .ok own ∧ own.render e = d.render e) ↔
      e.WritesAlike vs ws := by
  by_cases he : e = .sqlite
  · subst he
    obtain ⟨payload', nulFree, written, rfl⟩ := lookupDefinition_sqlite.1 hd
    constructor
    · rintro ⟨own, defined, _⟩
      obtain ⟨payload'', _, written', _⟩ := lookupDefinition_sqlite.1 defined
      exact ⟨payload'', written'⟩
    · rintro ⟨payload'', written'⟩
      have same : payload'' = payload' := by
        have first := Json.writeLoose_of_writeStrict written
        have second := Json.writeLoose_of_writeStrict written'
        exact Except.ok.inj ((second.symm.trans hv).trans (hw.symm.trans first))
      subst same
      exact ⟨_, lookupDefinition_sqlite.2 ⟨payload'', nulFree, written', rfl⟩, rfl⟩
  · obtain ⟨ms, hm, rfl⟩ := (lookupDefinition_array he).1 hd
    have scalars' := scalars_of_literals hm
    rw [Engine.writesAlike_iff he, List.forall₂_and_left]
    constructor
    · rintro ⟨own, defined, rendered⟩
      obtain ⟨ls, hl, rfl⟩ := (lookupDefinition_array he).1 defined
      have scalars := scalars_of_literals hl
      have coincides := coincides_of_payload hv hw scalars scalars'
      have same := render_arrayDefinition_iff.1 rendered
      exact ⟨scalars, (Value.Coincides.joined_eq_iff he coincides hl hm).1 same⟩
    · rintro ⟨scalars, moments⟩
      have coincides := coincides_of_payload hv hw scalars scalars'
      obtain ⟨ls, hl⟩ := exists_literals coincides moments hm
      have same := (Value.Coincides.joined_eq_iff he coincides hl hm).2 moments
      exact ⟨_, (lookupDefinition_array he).2 ⟨ls, hl, rfl⟩, render_arrayDefinition_iff.2 same⟩

end Dialect
end SyntheticRows
