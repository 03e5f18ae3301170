import SyntheticRows.Proofs.Draw.Tag
import SyntheticRows.Proofs.Json.Encodable
import SyntheticRows.Proofs.Json.Outcome
import SyntheticRows.Proofs.Lookup.Definition

/-!
# Lists that can be picked from

A random item of a list is compiled in two ways: from the list as it is written out at the place
itself, or from a definition of the list. The first way takes literals of all items. The second
takes a JSON text for the name; what is defined is an array of literals, but on SQLite JSON again.
-/
namespace SyntheticRows
open Sql

/-- Whether a value can be written as a literal. -/
def Value.isRenderable : Value → Bool
  | .null | .bool _ | .date _ | .datetime _ => true
  | .int i => SyntheticRows.isWritable i
  | .float x => x.isFinite
  | .text s => '\x00' ∉ s.toList
  | .bytes _ | .list _ | .tuple _ | .set _ | .mapping _ => false

namespace Engine

/-- Whether the JSON text of a list can hold a value. A name is made from any text, but on SQLite
the text is defined. -/
def encodes (e : Engine) (v : Value) : Bool :=
  Json.writes (fun leaf => e ≠ .sqlite && leaf.isWritable) v.toJson

/-- Whether the definition of a list can hold a value. -/
def defines (e : Engine) (v : Value) : Bool :=
  if e = .sqlite then e.encodes v else v.isRenderable

/-- An engine can draw from a number of items. -/
def CanDraw (e : Engine) (n : ℕ) : Prop :=
  isWritable n = true ∧ (e = .sqlite → n ≤ int64Max)

end Engine

/-- A pick from a list that is looked up, with its definition; an empty list has none. -/
def Generator.hoistedPick (e : Engine) : List Value → Tagged (Option Definition × Expr)
  | [] => return (none, ← choiceByLookupExpr (.of e) [])
  | vs => do
    let name ← lookupName vs
    let definition ← (Dialect.of e).lookupDefinition name vs
    return (some definition, ← choiceByLookupExpr (.of e) vs)

variable {e : Engine} {n : ℕ} {tag : ℤ} {v : Value} {vs : List Value} {name : String} {err : Error}
  {α β : Type}

section Failures

theorem failure?_eq_none_iff {x : Except Error α} : failure? x = none ↔ ∃ a, x = .ok a := by
  cases x <;> simp [failure?]

theorem failure?_eq_some_iff {x : Except Error α} : failure? x = some err ↔ x = .error err := by
  cases x <;> simp [failure?]

/-- An error about the specification, or a number in it that is too long to be written. -/
def Error.IsReport (err : Error) : Prop :=
  (∃ cause, err = .configuration cause) ∨ err = .tooManyDigits

theorem isReport_of_writable {values : List Value} (h : writable values = .error err) :
    err.IsReport := by
  unfold writable at h
  split at h
  · cases h
  · cases h
    exact .inr rfl

theorem isReport_of_refuse {cause : Cause} (h : (refuse cause : Except Error α) = .error err) :
    err.IsReport := by
  rcases except_error_of_bind h with h | ⟨_, _, h⟩
  · exact isReport_of_writable h
  · cases h
    exact .inl ⟨cause, rfl⟩

theorem guarded_ok_iff {p : Prop} [Decidable p] {f : p → α} {cause : Cause} :
    (∃ a, (if h : p then .ok (f h) else refuse cause : Except Error α) = .ok a) ↔ p := by
  split <;> rename_i h
  · exact iff_of_true ⟨_, rfl⟩ h
  · exact iff_of_false (fun ⟨_, made⟩ => refuse_ne_ok made) h

theorem isRenderable_iff : v.isRenderable = true ↔ ∃ l, Literal.ofValue v = .ok l := by
  cases v with
  | null | bool _ | date _ | datetime _ => exact iff_of_true rfl ⟨_, rfl⟩
  | int i =>
    refine Iff.symm (exists_ok_map_iff.trans (Json.writable_ok_iff.trans ?_))
    simp [Value.isWritable, Value.isRenderable]
  | float x => exact guarded_ok_iff.symm
  | text s => exact decide_eq_true_iff.trans guarded_ok_iff.symm
  | bytes _ | list _ | tuple _ | set _ | mapping _ =>
    refine iff_of_false (by simp [Value.isRenderable]) ?_
    rintro ⟨l, made⟩
    exact refuse_ne_ok made

theorem isReport_of_ofValue {v : Value} (h : Literal.ofValue v = .error err) : err.IsReport := by
  cases v with
  | null | bool _ | datetime _ | date _ => cases h
  | int i =>
    rcases except_error_of_bind h with h | ⟨_, _, h⟩
    · exact isReport_of_writable h
    · cases h
  | float x =>
    simp only [Literal.ofValue, Literal.ofFloat] at h
    split at h
    · cases h
    · exact isReport_of_refuse h
  | text s =>
    simp only [Literal.ofValue, Literal.ofText] at h
    split at h
    · cases h
    · exact isReport_of_refuse h
  | bytes _ | list _ | tuple _ | set _ | mapping _ => exact isReport_of_refuse h

theorem failure?_given : failure? (Expr.given n) =
    if isWritable n then none else some .tooManyDigits := by
  by_cases h : isWritable n = true <;>
    simp [Expr.given, Literal.ofValue, writable, Value.isWritable, h] <;> rfl

theorem isWritable_of_reached (h : n ≤ Engine.int64Max) : isWritable n = true := by
  have most : Engine.int64Max < writingBound := by decide +kernel
  simp only [isWritable, Int.natAbs_natCast, decide_eq_true_eq]
  omega

theorem failure?_floorRandom :
    failure? (Engine.floorRandom n) = failure? (Expr.given n) := failure?_map _ _

/-- A draw fails if SQLite cannot reach all of the items, or if their number cannot be written. -/
theorem failure?_integer : failure? (e.integer n tag) =
    if e = .sqlite ∧ Engine.int64Max < n then failure? (refuse (.rangeTooWide n) : Except Error Expr)
    else failure? (Expr.given n) := by
  cases e with
  | sqlite =>
    simp only [Engine.integer, Nat.cast_le, true_and]
    by_cases hn : n ≤ Engine.int64Max
    · rw [if_pos hn, if_neg (by omega)]
      exact failure?_map _ _
    · rw [if_neg hn, if_pos (by omega)]
  | postgresql => exact (failure?_map _ _).trans failure?_floorRandom
  | clickhouse | trino => exact failure?_map _ _

theorem isReport_of_integer (h : e.integer n tag = .error err) : err.IsReport := by
  rw [← failure?_eq_some_iff, failure?_integer] at h
  split at h
  · exact isReport_of_refuse (failure?_eq_some_iff.1 h)
  · rw [failure?_given] at h
    split at h
    · cases h
    · cases h
      exact .inr rfl

theorem integer_ok_iff : (∃ x, e.integer n tag = .ok x) ↔ e.CanDraw n := by
  rw [← failure?_eq_none_iff, failure?_integer, Engine.CanDraw]
  by_cases wide : e = .sqlite ∧ Engine.int64Max < n
  · have refused : failure? (refuse (.rangeTooWide n) : Except Error Expr) ≠ none := by
      rw [Ne, failure?_eq_none_iff]
      rintro ⟨_, h⟩
      exact refuse_ne_ok h
    simp [wide, refused]
  · have reached : e = .sqlite → n ≤ Engine.int64Max := fun he => by
      by_contra far
      exact wide ⟨he, by omega⟩
    rw [if_neg wide, failure?_given]
    simpa using fun _ => reached

theorem failure?_arrayPosition (he : e ≠ .sqlite) :
    failure? (Dialect.arrayPosition e n tag) = failure? (e.integer n tag) := by
  cases e with
  | sqlite => exact absurd rfl he
  | postgresql => exact (failure?_map _ _).trans (failure?_map _ _).symm
  | clickhouse | trino => exact failure?_map _ _

theorem failure?_pick (he : e ≠ .sqlite) {items : List Expr} :
    failure? ((Dialect.of e).pick items n tag) = failure? (e.integer n tag) := by
  cases e with
  | sqlite => exact absurd rfl he
  | postgresql | clickhouse | trino =>
    exact (failure?_map _ _).trans (failure?_arrayPosition he)

theorem failure?_lookupPick :
    failure? ((Dialect.of e).lookupPick name n tag) = failure? (e.integer n tag) := by
  cases e with
  | sqlite => exact failure?_map _ _
  | postgresql | clickhouse | trino =>
    exact (failure?_map _ _).trans (failure?_arrayPosition (by decide))

end Failures

section Compiling

variable {tags : Tags}

theorem run_lift_bind {x : Except Error α} {f : α → Tagged β} :
    (liftM x >>= f : Tagged β).run tags = x >>= fun a => (f a).run tags := by
  cases x <;> rfl

theorem failure?_bind_ok {x : Except Error α} {f : α → Except Error β}
    (h : ∀ a, failure? (f a) = none) : failure? (x >>= f) = failure? x := by
  cases x with
  | error _ => rfl
  | ok a => exact h a

theorem failure?_lift {x : Except Error α} :
    failure? ((liftM x : Tagged α).run tags) = failure? x := by
  cases x <;> rfl

theorem failure?_drawn {f : ℤ → Tagged α} {x : Except Error β}
    (h : ∀ tag between, failure? ((f tag).run between) = failure? x) :
    failure? ((nextTag >>= f).run tags) = failure? x :=
  h _ _

theorem failure?_integer_of_reached (h : n ≤ Engine.int64Max) :
    failure? (e.integer n tag) = none :=
  failure?_eq_none_iff.2 (integer_ok_iff.2 ⟨isWritable_of_reached h, fun _ => h⟩)

theorem integer_of : (Dialect.of e).integer n tag = e.integer n tag := rfl

/-- All draws from a number of items fail alike. -/
theorem failure?_integer_congr {tag' : ℤ} :
    failure? (e.integer n tag) = failure? (e.integer n tag') := by
  rw [failure?_integer, failure?_integer]

/-- A list is drawn from after its literals are made. -/
theorem failure?_choice : failure? ((Generator.choiceExpr (.of e) vs).run tags) =
    failure? (vs.mapM (Dialect.of e).literal >>= fun _ => e.integer vs.length 0) := by
  match vs with
  | [] => exact (failure?_integer_of_reached (Nat.zero_le _)).symm
  | [v] =>
    rw [Generator.choiceExpr, failure?_lift, List.mapM_cons]
    cases (Dialect.of e).literal v with
    | error _ => rfl
    | ok x => exact (failure?_integer_of_reached (n := 1) (by decide)).symm
  | v :: w :: rest =>
    simp only [Generator.choiceExpr]
    rw [Tagged.mapM_lift, run_lift_bind]
    refine failure?_bind_same _ fun items => failure?_drawn fun tag' between => ?_
    by_cases he : e = .sqlite
    · subst he
      rw [if_pos rfl, run_lift_bind, failure?_bind_ok fun _ => rfl, integer_of]
      exact failure?_integer_congr
    · have other : Dialect.of e ≠ .of .sqlite := by simpa using he
      rw [if_neg other, failure?_lift]
      exact (failure?_pick he).trans failure?_integer_congr

theorem failure?_choiceByLookup (hv : vs ≠ []) :
    failure? ((Generator.choiceByLookupExpr (.of e) vs).run tags) =
      failure? (lookupName vs >>= fun _ => e.integer vs.length 0) := by
  have listed : vs.isEmpty = false := by simpa using hv
  simp only [Generator.choiceByLookupExpr, listed, Bool.false_eq_true, if_false]
  rw [run_lift_bind]
  refine failure?_bind_same _ fun name => failure?_drawn fun tag' between => ?_
  rw [failure?_lift]
  exact failure?_lookupPick.trans failure?_integer_congr

theorem failure?_lookupDefinition_sqlite :
    failure? ((Dialect.of .sqlite).lookupDefinition name vs) =
      failure? (Json.writeStrict (.list (vs.map Value.toJson))) := by
  simp only [Dialect.lookupDefinition, Dialect.engine, except_ok_bind]
  cases written : Json.writeStrict (.list (vs.map Value.toJson)) with
  | error _ => rfl
  | ok payload =>
    have nulFree := (Json.tidy_writeStrict _).result payload written
    rw [except_ok_bind, Dialect.literal_eq, Literal.ofValue, Literal.ofText, dif_pos nulFree]
    rfl

theorem failure?_lookupDefinition (he : e ≠ .sqlite) :
    failure? ((Dialect.of e).lookupDefinition name vs) =
      failure? (vs.mapM (Dialect.of e).literal) := by
  cases e with
  | sqlite => exact absurd rfl he
  | postgresql | clickhouse | trino => exact failure?_map _ _

/-- A list is looked up after its JSON text and its definition are made. -/
theorem run_hoistedPick (hv : vs ≠ []) : (Generator.hoistedPick e vs).run tags =
    lookupPayload vs >>= fun payload =>
      (Dialect.of e).lookupDefinition (digestName payload) vs >>= fun d =>
        (fun r => ((some d, r.1), r.2)) <$> (Generator.choiceByLookupExpr (.of e) vs).run tags := by
  obtain ⟨v, vs, rfl⟩ := List.exists_cons_of_ne_nil hv
  have compiled : Generator.hoistedPick e (v :: vs) = (liftM (lookupName (v :: vs)) >>= fun name =>
      liftM ((Dialect.of e).lookupDefinition name (v :: vs)) >>= fun d =>
        Generator.choiceByLookupExpr (.of e) (v :: vs) >>= fun x => pure (some d, x)) := rfl
  rw [compiled, run_lift_bind, lookupName_eq]
  cases lookupPayload (v :: vs) with
  | error _ => rfl
  | ok payload =>
    have named : digestName <$> (Except.ok payload : Except Error String) =
      .ok (digestName payload) := rfl
    rw [named, except_ok_bind, except_ok_bind, run_lift_bind]
    rfl

theorem ok_of_hoistedPick {definition : Option Definition} {x : Expr} {tags' : Tags} (hv : vs ≠ [])
    (h : (Generator.hoistedPick e vs).run tags = .ok ((definition, x), tags')) :
    ∃ payload d, lookupPayload vs = .ok payload ∧
      (Dialect.of e).lookupDefinition (digestName payload) vs = .ok d ∧ definition = some d ∧
      (Generator.choiceByLookupExpr (.of e) vs).run tags = .ok (x, tags') := by
  rw [run_hoistedPick hv] at h
  obtain ⟨payload, text, h⟩ := except_ok_of_bind h
  obtain ⟨d, defined, h⟩ := except_ok_of_bind h
  obtain ⟨r, picked, h⟩ := except_ok_of_map h
  cases h
  exact ⟨payload, d, text, defined, rfl, picked⟩

theorem literals_made_iff : (∃ xs, vs.mapM (Dialect.of e).literal = .ok xs) ↔
    ∀ v ∈ vs, v.isRenderable = true := by
  simp only [isRenderable_iff]
  constructor
  · rintro ⟨xs, made⟩ v member
    obtain ⟨ls, literals, _⟩ := Dialect.literals_ok_iff.1 made
    obtain ⟨l, _, literal⟩ := partner_right literals member
    exact ⟨l, literal⟩
  · intro each
    obtain ⟨ls, literals⟩ := pairing_of_forall each
    exact ⟨_, Dialect.literals_ok_iff.2 ⟨ls, literals, rfl⟩⟩

/-- A pick from a list that is written out compiles if its items are literals and it can be drawn
from. -/
theorem choice_ok_iff : (∃ r, (Generator.choiceExpr (.of e) vs).run tags = .ok r) ↔
    (∀ v ∈ vs, v.isRenderable = true) ∧ e.CanDraw vs.length := by
  rw [← failure?_eq_none_iff, failure?_choice, failure?_eq_none_iff,
    exists_ok_bind_iff fun _ => integer_ok_iff, literals_made_iff]

theorem lookup_ok_iff (hv : vs ≠ []) :
    (∃ r, (Generator.choiceByLookupExpr (.of e) vs).run tags = .ok r) ↔
      (∃ payload, lookupPayload vs = .ok payload) ∧ e.CanDraw vs.length := by
  rw [← failure?_eq_none_iff, failure?_choiceByLookup hv, failure?_eq_none_iff,
    exists_ok_bind_iff fun _ => integer_ok_iff, lookupName_eq, exists_ok_map_iff]

theorem strict_ok_iff : (∃ payload, Json.writeStrict (.list (vs.map Value.toJson)) = .ok payload) ↔
    ∀ v ∈ vs, Engine.sqlite.encodes v = true := by
  simp [Json.writeStrict_ok_iff, Json.writes, Json.writesItems_eq_all, Engine.encodes]

theorem payload_ok_iff (he : e ≠ .sqlite) :
    (∃ payload, lookupPayload vs = .ok payload) ↔ ∀ v ∈ vs, e.encodes v = true := by
  simp [lookupPayload, Json.writeLoose_ok_iff, Json.writes, Json.writesItems_eq_all, Engine.encodes,
    he]

theorem exists_payload (h : ∀ v ∈ vs, e.encodes v = true) :
    ∃ payload, lookupPayload vs = .ok payload := by
  by_cases he : e = .sqlite
  · subst he
    exact (strict_ok_iff.2 h).imp fun _ written => Json.writeLoose_of_writeStrict written
  · exact (payload_ok_iff he).2 h

/-- What a literal can stand for has a JSON form. -/
theorem encodes_of_isRenderable (h : v.isRenderable = true) : e.encodes v = true := by
  cases v with
  | int i => exact h
  | null | bool _ | float _ | text _ | date _ | datetime _ => rfl
  | bytes _ | list _ | tuple _ | set _ | mapping _ => cases h

theorem encodes_of_defines (h : e.defines v = true) : e.encodes v = true := by
  rw [Engine.defines] at h
  split at h
  · exact h
  · exact encodes_of_isRenderable h

theorem definition_ok_iff : (∃ d, (Dialect.of e).lookupDefinition name vs = .ok d) ↔
    ∀ v ∈ vs, e.defines v = true := by
  rw [← failure?_eq_none_iff]
  by_cases he : e = .sqlite
  · subst he
    rw [failure?_lookupDefinition_sqlite, failure?_eq_none_iff, strict_ok_iff]
    simp [Engine.defines]
  · rw [failure?_lookupDefinition he, failure?_eq_none_iff, literals_made_iff]
    simp [Engine.defines, he]

/-- A pick from a list that is looked up compiles if the list can be defined and drawn from. -/
theorem hoistedPick_ok_iff : (∃ r, (Generator.hoistedPick e vs).run tags = .ok r) ↔
    (∀ v ∈ vs, e.defines v = true) ∧ e.CanDraw vs.length := by
  by_cases hv : vs = []
  · subst hv
    have drawn : e.CanDraw 0 := ⟨by decide, fun _ => Nat.zero_le _⟩
    exact iff_of_true ⟨_, rfl⟩ ⟨List.forall_mem_nil _, drawn⟩
  · constructor
    · rintro ⟨_, run⟩
      obtain ⟨_, d, _, defined, _, picked⟩ := ok_of_hoistedPick hv run
      exact ⟨definition_ok_iff.1 ⟨d, defined⟩, ((lookup_ok_iff hv).1 ⟨_, picked⟩).2⟩
    · rintro ⟨defines, canDraw⟩
      obtain ⟨payload, text⟩ := exists_payload fun v member => encodes_of_defines (defines v member)
      obtain ⟨d, defined⟩ : ∃ d, (Dialect.of e).lookupDefinition (digestName payload) vs = .ok d :=
        definition_ok_iff.2 defines
      obtain ⟨r, picked⟩ : ∃ r, (Generator.choiceByLookupExpr (.of e) vs).run tags = .ok r :=
        (lookup_ok_iff hv).2 ⟨⟨payload, text⟩, canDraw⟩
      rw [run_hoistedPick hv, text, except_ok_bind, defined, except_ok_bind, picked]
      exact ⟨_, rfl⟩

section Reports

theorem isReport_of_literals (h : vs.mapM (Dialect.of e).literal = .error err) : err.IsReport := by
  obtain ⟨v, _, refused⟩ := error_of_mapM h
  rw [Dialect.literal_eq] at refused
  cases literal : Literal.ofValue v with
  | ok _ =>
    rw [literal] at refused
    cases refused
  | error _ =>
    rw [literal] at refused
    cases refused
    exact isReport_of_ofValue literal

/-- A pick from a list that is written out only fails with a report. -/
theorem isReport_of_choice (h : (Generator.choiceExpr (.of e) vs).run tags = .error err) :
    err.IsReport := by
  rw [← failure?_eq_some_iff, failure?_choice, failure?_eq_some_iff] at h
  rcases except_error_of_bind h with literals | ⟨_, _, draw⟩
  · exact isReport_of_literals literals
  · exact isReport_of_integer draw

/-- A pick from a list that is looked up fails with its JSON text, its definition or its draw. -/
theorem hoistedPick_error (h : (Generator.hoistedPick e vs).run tags = .error err) :
    lookupPayload vs = .error err ∨ (∃ payload, lookupPayload vs = .ok payload) ∧
      ((∃ name, (Dialect.of e).lookupDefinition name vs = .error err) ∨
        (∀ v ∈ vs, e.defines v = true) ∧ e.integer vs.length 0 = .error err) := by
  by_cases hv : vs = []
  · subst hv
    cases h
  rw [run_hoistedPick hv] at h
  rcases except_error_of_bind h with unwritten | ⟨payload, written, h⟩
  · exact .inl unwritten
  refine .inr ⟨⟨payload, written⟩, ?_⟩
  rcases except_error_of_bind h with undefined | ⟨d, defined, h⟩
  · exact .inl ⟨_, undefined⟩
  rw [← failure?_eq_some_iff, failure?_map, failure?_choiceByLookup hv, failure?_eq_some_iff,
    lookupName_eq, written] at h
  exact .inr ⟨definition_ok_iff.1 ⟨d, defined⟩, h⟩

/-- If the JSON text that is needed exists, a pick from a list that is looked up only fails with a
report too. -/
theorem isReport_of_hoistedPick (h : (Generator.hoistedPick e vs).run tags = .error err)
    (encodes : ∀ v ∈ vs, e.encodes v = true) : err.IsReport := by
  obtain ⟨payload, written⟩ := exists_payload encodes
  rcases hoistedPick_error h with unwritten | ⟨_, ⟨name, undefined⟩ | ⟨_, draw⟩⟩
  · rw [written] at unwritten
    cases unwritten
  · by_cases he : e = .sqlite
    · subst he
      have defines : ∀ v ∈ vs, Engine.sqlite.defines v = true := encodes
      obtain ⟨d, defined⟩ := definition_ok_iff.2 defines
      rw [defined] at undefined
      cases undefined
    · rw [← failure?_eq_some_iff, failure?_lookupDefinition he, failure?_eq_some_iff] at undefined
      exact isReport_of_literals undefined
  · exact isReport_of_integer draw

/-- Without the JSON text that is needed, no report is made. -/
theorem not_configuration_of_hoistedPick
    (h : (Generator.hoistedPick e vs).run tags = .error err)
    (odd : ¬∀ v ∈ vs, e.encodes v = true) (cause : Cause) : err ≠ .configuration cause := by
  rcases hoistedPick_error h with unwritten | ⟨text, ⟨name, undefined⟩ | ⟨defines, _⟩⟩
  · exact (Json.tidy_writeLoose _).failure err unwritten cause
  · by_cases he : e = .sqlite
    · subst he
      rw [← failure?_eq_some_iff, failure?_lookupDefinition_sqlite, failure?_eq_some_iff]
        at undefined
      exact (Json.tidy_writeStrict _).failure err undefined cause
    · exact absurd ((payload_ok_iff he).1 text) odd
  · exact absurd (fun v member => encodes_of_defines (defines v member)) odd

end Reports
end Compiling

end SyntheticRows
