import SyntheticRows.Compile.Table
import SyntheticRows.Proofs.Meaning.Draw

/-!
# Sequence columns

For a row of some ordinal a sequence column holds the value that belongs to the ordinal, converted
to the type of the column, unless a null is drawn. What a conversion makes of a content is left
open.
-/
namespace SyntheticRows
open Sql

/-- What conversions make of contents, by the name of the type or of the function. -/
abbrev Conversion := String → Datum → Datum

/-- What a value of an insert can put into its column: a null, something converted, or either of
them as a condition says. -/
inductive Stores (R : Rules) (convert : Conversion) (env : Env) : Expr → Datum → Prop
  | null : Stores R convert env .null .null
  | cast {x type v} : Yields R env x v → Stores R convert env (.cast x type) (convert type v)
  | moment {f x v} : f = "datetime" ∨ f = "date" → Yields R env x v →
    Stores R convert env (.call f [x]) (convert f v)
  | branch {condition x v} : Yields R env condition (.bool true) →
    Stores R convert env .null v → Stores R convert env (.caseWhen [(condition, .null)] x) v
  | skip {condition c x v} : Yields R env condition c → c ≠ .bool true →
    Stores R convert env x v → Stores R convert env (.caseWhen [(condition, .null)] x) v
  | choose {condition c x v} : Yields R env condition (.bool c) →
    Stores R convert env (if c then .null else x) v →
    Stores R convert env (.call "if" [condition, .null, x]) v

namespace Stores

variable {R : Rules} {convert : Conversion} {env : Env} {x condition : Expr} {v : Datum}

theorem null_iff : Stores R convert env .null v ↔ v = .null := by
  constructor
  · intro h
    generalize hx : Expr.null = x at h
    cases h <;> first | rfl | cases hx
  · rintro rfl
    exact .null

theorem cast_iff {type : String} :
    Stores R convert env (.cast x type) v ↔ ∃ u, Yields R env x u ∧ v = convert type u := by
  constructor
  · intro h
    cases h with
    | cast hx => exact ⟨_, hx, rfl⟩
  · rintro ⟨u, hx, rfl⟩
    exact .cast hx

theorem moment_iff {f : String} (hf : f = "datetime" ∨ f = "date") :
    Stores R convert env (.call f [x]) v ↔ ∃ u, Yields R env x u ∧ v = convert f u := by
  constructor
  · intro h
    cases h with
    | moment _ hx => exact ⟨_, hx, rfl⟩
  · rintro ⟨u, hx, rfl⟩
    exact .moment hf hx

theorem case_iff : Stores R convert env (.caseWhen [(condition, .null)] x) v ↔
    (Yields R env condition (.bool true) ∧ v = .null) ∨
      ∃ c, Yields R env condition c ∧ c ≠ .bool true ∧ Stores R convert env x v := by
  constructor
  · intro h
    cases h with
    | branch hc hv => exact .inl ⟨hc, null_iff.1 hv⟩
    | skip hc hn hv => exact .inr ⟨_, hc, hn, hv⟩
  · rintro (⟨hc, rfl⟩ | ⟨c, hc, hn, hv⟩)
    · exact .branch hc .null
    · exact .skip hc hn hv

theorem choose_iff : Stores R convert env (.call "if" [condition, .null, x]) v ↔
    ∃ c, Yields R env condition (.bool c) ∧ Stores R convert env (if c then .null else x) v := by
  constructor
  · intro h
    cases h with
    | choose hc hv => exact ⟨_, hc, hv⟩
  · rintro ⟨c, hc, hv⟩
    exact .choose hc hv

end Stores

/-- A unit draw under a tag: any of the engine's draws, but on ClickHouse that of the tag. -/
def Engine.Drawn (env : Env) (tag : Int) : Engine → ℚ → Prop
  | .clickhouse, q => q = env.rand tag / 2 ^ 32
  | e, q => e.IsDraw q

namespace Engine

variable {R : Rules} {env : Env} {e : Engine} {tag : Int} {q : ℚ} {v : Datum}

theorem unit_yields_drawn (he : R.engine = e) :
    Yields R env (e.unit tag) v ↔ ∃ q, e.Drawn env tag q ∧ v = .number q := by
  cases e with
  | clickhouse =>
    rw [unit_denotes tag v]
    simp [Drawn, eq_comm]
  | _ => exact unit_yields he (by decide) tag

theorem Drawn.isDraw (bounded : env.rand tag < 2 ^ 32) (h : e.Drawn env tag q) : e.IsDraw q := by
  cases e with
  | clickhouse => exact ⟨_, bounded, h⟩
  | _ => exact h

theorem exists_drawn (e : Engine) (env : Env) (tag : Int) : ∃ q, e.Drawn env tag q := by
  cases e with
  | clickhouse => exact ⟨_, rfl⟩
  | postgresql => exact ⟨0, isDraw_zero .postgresql⟩
  | sqlite => exact ⟨0, isDraw_zero .sqlite⟩
  | trino => exact ⟨0, isDraw_zero .trino⟩

end Engine

namespace Column

variable {R : Rules} {convert : Conversion} {env : Env} {e : Engine} {v : Datum}

theorem drawBelow_yields (he : R.engine = e) {probability : Expr} {p : ℚ} {tag : Int}
    (hp : Denotes R env probability (some (.number p))) :
    Yields R env (.less (e.unit tag) probability) v ↔
      ∃ q, e.Drawn env tag q ∧ v = .bool (decide (q < p)) := by
  have compared (q : ℚ) : R.operate .less (.number q) (.number p) = some (.bool (q < p)) := rfl
  simp only [Expr.less, Yields.binary_iff, Engine.unit_yields_drawn he, hp _, Option.some.injEq]
  constructor
  · rintro ⟨_, _, ⟨q, hq, rfl⟩, rfl, h⟩
    rw [compared, Option.some.injEq] at h
    exact ⟨q, hq, h.symm⟩
  · rintro ⟨q, hq, rfl⟩
    exact ⟨_, _, ⟨q, hq, rfl⟩, rfl, compared q⟩

/-- Null is put where the draw is below the probability. -/
theorem stores_nullWrap (he : R.engine = e) {x probability y : Expr} {p : ℚ} {tag : Int}
    (hp : Denotes R env probability (some (.number p)))
    (h : (Dialect.of e).nullWrap x probability tag = .ok y) :
    Stores R convert env y v ↔
      ∃ q, e.Drawn env tag q ∧ Stores R convert env (if q < p then .null else x) v := by
  have condition (w : Datum) : Yields R env (.less (e.unit tag) probability) w ↔
      ∃ q, e.Drawn env tag q ∧ w = .bool (decide (q < p)) := drawBelow_yields he hp
  by_cases hc : e = .clickhouse
  · subst hc
    cases h
    simp only [Stores.choose_iff, condition, Datum.bool.injEq]
    constructor
    · rintro ⟨_, ⟨q, hq, rfl⟩, hv⟩
      exact ⟨q, hq, by simpa using hv⟩
    · rintro ⟨q, hq, hv⟩
      exact ⟨_, ⟨q, hq, rfl⟩, by simpa using hv⟩
  · have cased : y = .caseWhen [(.less (e.unit tag) probability, .null)] x := by
      cases e <;> cases h <;> first | rfl | exact (hc rfl).elim
    subst cased
    simp only [Stores.case_iff, condition, Datum.bool.injEq]
    constructor
    · rintro (⟨⟨q, hq, below⟩, rfl⟩ | ⟨_, ⟨q, hq, rfl⟩, notBelow, hv⟩)
      · refine ⟨q, hq, ?_⟩
        rw [if_pos (of_decide_eq_true below.symm)]
        exact .null
      · refine ⟨q, hq, ?_⟩
        rwa [if_neg (by simpa using notBelow)]
    · rintro ⟨q, hq, hv⟩
      by_cases below : q < p
      · rw [if_pos below, Stores.null_iff] at hv
        exact .inl ⟨⟨q, hq, (decide_eq_true below).symm⟩, hv⟩
      · rw [if_neg below] at hv
        exact .inr ⟨_, ⟨q, hq, rfl⟩, by simpa using below, hv⟩

/-- The type or the function by which contents are converted for the column. -/
def conversion (e : Engine) (c : Column) : String :=
  match e, c.type with
  | .sqlite, .datetime => "datetime"
  | .sqlite, .date => "date"
  | _, _ => c.physicalType e

theorem stores_cast {x y : Expr} {c : Column} {u : Datum} (hx : Denotes R env x (some u))
    (h : cast (.of e) x c = .ok y) :
    Stores R convert env y v ↔ v = convert (c.conversion e) u := by
  have converted : (∃ w, Yields R env x w ∧ v = convert (c.conversion e) w) ↔
      v = convert (c.conversion e) u := by
    simp only [hx _, Option.some.injEq, exists_eq_left']
  rw [← converted]
  by_cases hm : e = .sqlite ∧ (c.type = .datetime ∨ c.type = .date)
  · obtain ⟨rfl, ht | ht⟩ := hm
    · simp only [cast, ht, conversion] at h ⊢
      cases h
      exact Stores.moment_iff (.inl rfl)
    · simp only [cast, ht, conversion] at h ⊢
      cases h
      exact Stores.moment_iff (.inr rfl)
  · have named : c.conversion e = c.physicalType e := by
      unfold conversion
      split
      · next ht => exact (hm ⟨rfl, .inl ht⟩).elim
      · next ht => exact (hm ⟨rfl, .inr ht⟩).elim
      · rfl
    have casted : y = .cast x (c.physicalType e) := by
      simp only [cast, Dialect.engine, bind, Except.bind] at h
      split at h
      · next ht => exact (hm ⟨rfl, .inl ht⟩).elim
      · next ht => exact (hm ⟨rfl, .inr ht⟩).elim
      · cases h
        rfl
    rw [casted, named]
    exact Stores.cast_iff

end Column

/-- The value of a sequence at an ordinal, counted from 1. -/
def Sequence.value (s : Sequence) (i : ℤ) : ℤ := s.start + (i - 1) * s.step

theorem ofInt_denotes {R : Rules} {env : Env} {i : ℤ} {x : Expr} (h : Expr.ofInt i = .ok x) :
    Denotes R env x (some (.number i)) := ofNumber_denotes (n := .int i) h

theorem Generator.sequenceExpr_denotes {R : Rules} {env : Env} {s : Sequence} {row x : Expr} {i : ℤ}
    (hrow : Denotes R env row (some (.number i))) (h : sequenceExpr s row = .ok x) :
    Denotes R env x (some (.number (s.value i))) := by
  obtain ⟨step, hstep, h⟩ := except_ok_of_bind h
  obtain ⟨start, hstart, h⟩ := except_ok_of_bind h
  cases h
  have before : Denotes R env (.sub start step) (some (.number (s.start - s.step))) :=
    Denotes.binary_some .sub (ofInt_denotes hstart) (ofInt_denotes hstep) rfl
  have moved : Denotes R env (.mul row step) (some (.number (i * s.step))) :=
    Denotes.binary_some .mul hrow (ofInt_denotes hstep) rfl
  refine .paren (Denotes.binary_some .add before moved ?_)
  have sum : (s.start - s.step + i * s.step : ℚ) = s.value i := by
    rw [Sequence.value]
    push_cast
    ring
  rw [← sum]
  rfl

namespace Sql.Tagged

variable {α β : Type} {tags tags' : Tags}

theorem ok_of_bind {x : Tagged α} {f : α → Tagged β} {b : β}
    (h : (x >>= f).run tags = .ok (b, tags')) :
    ∃ a between, x.run tags = .ok (a, between) ∧ (f a).run between = .ok (b, tags') := by
  obtain ⟨⟨a, between⟩, hx, hf⟩ := except_ok_of_bind h
  exact ⟨a, between, hx, hf⟩

theorem ok_of_lift {x : Except Error α} {a : α}
    (h : (liftM x : Tagged α).run tags = .ok (a, tags')) : x = .ok a ∧ tags' = tags := by
  cases x <;> cases h
  exact ⟨rfl, rfl⟩

end Sql.Tagged

namespace Column

variable {R : Rules} {convert : Conversion} {env : Env} {e : Engine} {c : Column} {s : Sequence}
  {v : Datum}

/-- The share of nulls in a column. -/
def nullShare (c : Column) : ℚ := c.effectiveNullProbability.toRat

/-- What a sequence column holds at an ordinal, if this was drawn for it. -/
def content (e : Engine) (convert : Conversion) (c : Column) (s : Sequence) (i : ℤ) (q : ℚ) :
    Datum :=
  if q < c.nullShare then .null else convert (c.conversion e) (.number (s.value i))

/-- What a sequence column can hold at an ordinal. -/
def Holds (e : Engine) (convert : Conversion) (c : Column) (s : Sequence) (i : ℤ) (v : Datum) :
    Prop :=
  ∃ q, e.IsDraw q ∧ v = c.content e convert s i q

theorem nullShare_of_not_nullable (h : c.nullable = false) : c.nullShare = 0 := by
  simp [nullShare, effectiveNullProbability, h, Number.toRat, Double.zero, Double.toRat,
    Double.signed]

theorem content_eq_null (h : 1 ≤ c.nullShare) {i : ℤ} {q : ℚ} (hq : e.IsDraw q) :
    c.content e convert s i q = .null := if_pos (hq.bounds.2.trans_le h)

theorem content_eq (h : c.nullShare ≤ 0) {i : ℤ} {q : ℚ} (hq : e.IsDraw q) :
    c.content e convert s i q = convert (c.conversion e) (.number (s.value i)) :=
  if_neg (not_lt.2 (h.trans hq.bounds.1))

/-- A column without nulls holds the value of the ordinal. -/
theorem holds_iff (h : c.nullShare ≤ 0) {i : ℤ} :
    c.Holds e convert s i v ↔ v = convert (c.conversion e) (.number (s.value i)) := by
  constructor
  · rintro ⟨q, hq, rfl⟩
    exact content_eq h hq
  · rintro rfl
    exact ⟨0, e.isDraw_zero, (content_eq h e.isDraw_zero).symm⟩

theorem effectiveNullProbability_isReal (c : Column) : c.effectiveNullProbability.IsReal := by
  unfold effectiveNullProbability
  split
  · exact Probability.isReal _
  · rfl

/-- How the expression of a sequence column is put together. -/
inductive Compiled (e : Engine) (c : Column) (s : Sequence) (row : Expr) (tag : Int) : Expr → Prop
  | null : 1 ≤ c.nullShare → Compiled e c s row tag .null
  | plain {value x} : c.nullShare ≤ 0 → Generator.sequenceExpr s row = .ok value →
    cast (.of e) value c = .ok x → Compiled e c s row tag x
  | wrapped {value x probability y} : Generator.sequenceExpr s row = .ok value →
    cast (.of e) value c = .ok x → Expr.ofNumber c.effectiveNullProbability = .ok probability →
    (Dialect.of e).nullWrap x probability tag = .ok y → Compiled e c s row tag y

theorem compiled_of_expression (hg : c.generator = .sequence s) {now salt : ℤ} {row x : Expr}
    (h : c.expression (.of e) now row salt = .ok x) : Compiled e c s row (salt * 1000 + 1) x := by
  have real := effectiveNullProbability_isReal c
  obtain ⟨⟨y, tags⟩, hrun, rfl⟩ := except_ok_of_map h
  unfold compile at hrun
  by_cases certain : (Number.int 1).le c.effectiveNullProbability = true
  · simp only [certain, if_true] at hrun
    cases hrun
    rw [Number.le_iff (a := .int 1) trivial real] at certain
    exact .null (by simpa [Number.toRat, nullShare] using certain)
  rw [if_neg certain, hg] at hrun
  obtain ⟨value, _, first, hrun⟩ := Tagged.ok_of_bind hrun
  obtain ⟨hvalue, rfl⟩ := Tagged.ok_of_lift first
  obtain ⟨casted, _, second, hrun⟩ := Tagged.ok_of_bind hrun
  obtain ⟨hcast, rfl⟩ := Tagged.ok_of_lift second
  by_cases never : c.effectiveNullProbability.le (.int 0) = true
  · rw [if_pos never] at hrun
    cases hrun
    rw [Number.le_iff (b := .int 0) real trivial] at never
    exact .plain (by simpa [Number.toRat, nullShare] using never) hvalue hcast
  rw [if_neg never] at hrun
  obtain ⟨tag, _, htag, hrun⟩ := Tagged.ok_of_bind hrun
  cases htag
  obtain ⟨probability, _, third, hrun⟩ := Tagged.ok_of_bind hrun
  obtain ⟨hprob, rfl⟩ := Tagged.ok_of_lift third
  obtain ⟨hwrap, _⟩ := Tagged.ok_of_lift hrun
  exact .wrapped hvalue hcast hprob hwrap

/-- The value of a sequence column is null or that of the ordinal, as it is drawn. -/
theorem Compiled.stores_iff (he : R.engine = e) {tag i : ℤ} {row x : Expr}
    (bounded : env.rand tag < 2 ^ 32) (hrow : Denotes R env row (some (.number i)))
    (h : Compiled e c s row tag x) :
    Stores R convert env x v ↔ ∃ q, e.Drawn env tag q ∧ v = c.content e convert s i q := by
  obtain ⟨q₀, drawn₀⟩ := e.exists_drawn env tag
  cases h with
  | null certain =>
    rw [Stores.null_iff]
    constructor
    · rintro rfl
      exact ⟨q₀, drawn₀, (content_eq_null certain (drawn₀.isDraw bounded)).symm⟩
    · rintro ⟨q, hq, rfl⟩
      exact content_eq_null certain (hq.isDraw bounded)
  | plain never hvalue hcast =>
    rw [stores_cast (Generator.sequenceExpr_denotes hrow hvalue) hcast]
    constructor
    · rintro rfl
      exact ⟨q₀, drawn₀, (content_eq never (drawn₀.isDraw bounded)).symm⟩
    · rintro ⟨q, hq, rfl⟩
      exact content_eq never (hq.isDraw bounded)
  | wrapped hvalue hcast hprob hwrap =>
    rw [stores_nullWrap he (ofNumber_denotes hprob) hwrap]
    refine exists_congr fun q => and_congr_right fun _ => ?_
    have stored : Stores R convert env _ v ↔ v = convert (c.conversion e) (.number (s.value i)) :=
      stores_cast (Generator.sequenceExpr_denotes hrow hvalue) hcast
    unfold content nullShare
    split
    · exact Stores.null_iff
    · exact stored

end Column
end SyntheticRows
