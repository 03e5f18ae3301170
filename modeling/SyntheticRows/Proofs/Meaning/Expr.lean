import SyntheticRows.Proofs.Meaning.Datum
import SyntheticRows.Sql.Draw

/-!
# What expressions yield

The contents that an expression can yield for one row. There can be several, since draws are random
and a lookup may take any of the rows that match. Names that the program makes up and names that
were given are kept apart, as they are in the trees.
-/
namespace SyntheticRows
open Sql

/-- The contents of a row by the names of its columns. -/
abbrev Row := String → Option Datum

/-- The rows of the tables that exist. -/
abbrev Store := Path → Option (List Row)

/-- What the expressions of one row can refer to. -/
structure Env where
  resolve : Path → Option Datum
  tables : Store
  /-- ClickHouse's draws: one whole number for each tag. -/
  rand : Int → ℕ

/-- The environment inside a function of one parameter. -/
def Env.bind (env : Env) (parameter : String) (v : Datum) : Env :=
  { env with resolve := fun path => if path = [.bare parameter] then some v else env.resolve path }

/-- What `random()` can give: a unit draw, or on SQLite a signed 64-bit integer. -/
def Engine.IsRandom : Engine → ℚ → Prop
  | .postgresql, q | .trino, q => 0 ≤ q ∧ q < 1
  | .sqlite, q => ∃ i : ℤ, -2 ^ 63 ≤ i ∧ i < 2 ^ 63 ∧ q = i
  | .clickhouse, _ => False

/-- A row whose key equals the given content. -/
def Row.Matches (R : Rules) (key : Ident) (x : Datum) (row : Row) : Prop :=
  ∃ k, row key.name = some k ∧ R.Equals k x

/-- The content of `wanted` in some row of a table whose `key` equals the given content; null if
there is no such row. An aggregate takes null only if all of the rows hold it. -/
def Finds (R : Rules) (tables : Store) (taking : Taking) (source : Path) (key wanted : Ident)
    (x v : Datum) : Prop :=
  ∃ rows, tables source = some rows ∧
    (∀ row ∈ rows, (row key.name).isSome ∧ (row wanted.name).isSome) ∧
    ((∃ row ∈ rows, row.Matches R key x ∧ row wanted.name = some v ∧
        (taking = .aggregate → v = .null →
          ∀ other ∈ rows, other.Matches R key x → other wanted.name = some .null)) ∨
      (∀ row ∈ rows, ¬row.Matches R key x) ∧ v = .null)

mutual

inductive Yields (R : Rules) : Env → Expr → Datum → Prop
  | literal {env} (l : Literal) : Yields R env (.literal l) l.datum
  | decimal {env} (n : ℕ) : Yields R env (.decimal n) (.number n)
  | name {env path v} : env.resolve path = some v → Yields R env (.name path) v
  | paren {env x v} : Yields R env x v → Yields R env (.paren x) v
  | binary {env op a b x y v} : Yields R env a x → Yields R env b y → R.operate op x y = some v →
    Yields R env (.binary op a b) v
  | call {env f builtin args xs v} : Builtin.ofName? f = some builtin → YieldsAll R env args xs →
    R.apply builtin xs = some v → Yields R env (.call f args) v
  | random {env f args q} : f = "random" → args = [] → R.engine.IsRandom q →
    Yields R env (.call f args) (.number q)
  | rand {env f args tag} : f = "rand" → args = [.literal (.int tag)] →
    Yields R env (.call f args) (.number (env.rand tag))
  | choose {env f args condition a b c v} : f = "if" → args = [condition, a, b] →
    Yields R env condition (.bool c) → Yields R env (if c then a else b) v →
    Yields R env (.call f args) v
  | map {env f args parameter body xs items vs} :
    f = "transform" ∧ args = [xs, .lambda parameter body] ∨
      f = "arrayMap" ∧ args = [.lambda parameter body, xs] →
    Yields R env xs (.list items) → YieldsEach R env parameter body items vs →
    Yields R env (.call f args) (.list vs)
  | element {env f args xs i items n v} : f = "element_at" ∨ f = "arrayElement" →
    args = [xs, i] → Yields R env xs (.list items) → Yields R env i (.number ((n : ℕ) + 1)) →
    items[n]? = some v → Yields R env (.call f args) v
  | cast {env x type kind u v} : CastKind.ofName? type = some kind → Yields R env x u →
    R.cast kind u = some v → Yields R env (.cast x type) v
  | convert {env x type kind u v} : CastKind.ofName? type = some kind → Yields R env x u →
    R.cast kind u = some v → Yields R env (.convert x type) v
  | index {env xs i items n v} : Yields R env xs (.list items) →
    Yields R env i (.number ((n : ℕ) + 1)) → items[n]? = some v → Yields R env (.index xs i) v
  | array {env items vs} : YieldsAll R env items vs → Yields R env (.array items) (.list vs)
  | brackets {env items vs} : YieldsAll R env items vs → Yields R env (.brackets items) (.list vs)
  | isNotNull {env x v} : Yields R env x v → Yields R env (.isNotNull x) (.bool !v.isNull)
  | otherwise {env x v} : Yields R env x v → Yields R env (.caseWhen [] x) v
  | branch {env condition x rest y v} : Yields R env condition (.bool true) → Yields R env x v →
    Yields R env (.caseWhen ((condition, x) :: rest) y) v
  | skip {env condition c x rest y v} : Yields R env condition c → c ≠ .bool true →
    Yields R env (.caseWhen rest y) v → Yields R env (.caseWhen ((condition, x) :: rest) y) v
  | lookup {env l x v} : env.resolve l.target = some x →
    Finds R env.tables l.taking l.source l.key l.wanted x v → Yields R env (.lookup l) v

/-- Expressions one by one. -/
inductive YieldsAll (R : Rules) : Env → List Expr → List Datum → Prop
  | nil {env} : YieldsAll R env [] []
  | cons {env x v xs vs} : Yields R env x v → YieldsAll R env xs vs →
    YieldsAll R env (x :: xs) (v :: vs)

/-- A function applied to the items of a list. -/
inductive YieldsEach (R : Rules) : Env → String → Expr → List Datum → List Datum → Prop
  | nil {env parameter body} : YieldsEach R env parameter body [] []
  | cons {env parameter body item items v vs} : Yields R (env.bind parameter item) body v →
    YieldsEach R env parameter body items vs →
    YieldsEach R env parameter body (item :: items) (v :: vs)

end

namespace Yields

variable {R : Rules} {env : Env}

theorem literal_iff {l : Literal} {v : Datum} : Yields R env (.literal l) v ↔ v = l.datum := by
  constructor
  · intro h; cases h; rfl
  · rintro rfl; exact .literal l

theorem decimal_iff {n : ℕ} {v : Datum} : Yields R env (.decimal n) v ↔ v = .number n := by
  constructor
  · intro h; cases h; rfl
  · rintro rfl; exact .decimal n

theorem name_iff {path : Path} {v : Datum} :
    Yields R env (.name path) v ↔ env.resolve path = some v := by
  constructor
  · intro h; cases h; assumption
  · exact .name

theorem paren_iff {x : Expr} {v : Datum} : Yields R env (.paren x) v ↔ Yields R env x v := by
  constructor
  · intro h; cases h; assumption
  · exact .paren

theorem binary_iff {op : Operator} {a b : Expr} {v : Datum} :
    Yields R env (.binary op a b) v ↔
      ∃ x y, Yields R env a x ∧ Yields R env b y ∧ R.operate op x y = some v := by
  constructor
  · intro h; cases h; exact ⟨_, _, ‹_›, ‹_›, ‹_›⟩
  · rintro ⟨x, y, ha, hb, h⟩; exact .binary ha hb h

theorem nil_iff {vs : List Datum} : YieldsAll R env [] vs ↔ vs = [] := by
  constructor
  · intro h; cases h; rfl
  · rintro rfl; exact .nil

theorem cons_iff {x : Expr} {xs : List Expr} {vs : List Datum} :
    YieldsAll R env (x :: xs) vs ↔
      ∃ v rest, Yields R env x v ∧ YieldsAll R env xs rest ∧ vs = v :: rest := by
  constructor
  · intro h; cases h; exact ⟨_, _, ‹_›, ‹_›, rfl⟩
  · rintro ⟨v, rest, hx, hxs, rfl⟩; exact .cons hx hxs

theorem all_iff {xs : List Expr} {vs : List Datum} :
    YieldsAll R env xs vs ↔ List.Forall₂ (Yields R env) xs vs := by
  induction xs generalizing vs with
  | nil => rw [nil_iff, List.forall₂_nil_left_iff]
  | cons x xs ih =>
    rw [cons_iff, List.forall₂_cons_left_iff]
    simp only [ih]

/-- A function that computes from its arguments. -/
theorem call_iff {f : String} {builtin : Builtin} (hf : Builtin.ofName? f = some builtin)
    {args : List Expr} {v : Datum} :
    Yields R env (.call f args) v ↔
      ∃ xs, YieldsAll R env args xs ∧ R.apply builtin xs = some v := by
  constructor
  · intro h
    cases h with
    | call hb hargs hv =>
      cases hf.symm.trans hb
      exact ⟨_, hargs, hv⟩
    | random hn => subst hn; cases hf
    | rand hn => subst hn; cases hf
    | choose hn => subst hn; cases hf
    | map hn => rcases hn with ⟨rfl, _⟩ | ⟨rfl, _⟩ <;> cases hf
    | element hn => rcases hn with rfl | rfl <;> cases hf
  · rintro ⟨xs, hargs, hv⟩
    exact .call hf hargs hv

theorem random_iff {v : Datum} :
    Yields R env (.call "random" []) v ↔ ∃ q, R.engine.IsRandom q ∧ v = .number q := by
  constructor
  · intro h
    cases h with
    | call hb => cases hb
    | random _ _ hq => exact ⟨_, hq, rfl⟩
    | rand hn => simp at hn
    | choose hn => simp at hn
    | map hn => simp at hn
    | element hn => simp at hn
  · rintro ⟨q, hq, rfl⟩
    exact .random rfl rfl hq

theorem rand_iff {tag : Int} {v : Datum} :
    Yields R env (.call "rand" [.int tag]) v ↔ v = .number (env.rand tag) := by
  constructor
  · intro h
    cases h with
    | call hb => cases hb
    | random hn => simp at hn
    | rand _ hargs =>
      simp only [Expr.int, List.cons.injEq, Expr.literal.injEq, Literal.int.injEq] at hargs
      rw [hargs.1]
    | choose hn => simp at hn
    | map hn => simp at hn
    | element hn => simp at hn
  · rintro rfl
    exact .rand rfl rfl

theorem choose_iff {condition a b : Expr} {v : Datum} :
    Yields R env (.call "if" [condition, a, b]) v ↔
      ∃ c, Yields R env condition (.bool c) ∧ Yields R env (if c then a else b) v := by
  constructor
  · intro h
    cases h with
    | call hb => cases hb
    | random hn => simp at hn
    | rand hn => simp at hn
    | choose _ hargs hc hv =>
      simp only [List.cons.injEq, and_true] at hargs
      obtain ⟨rfl, rfl, rfl⟩ := hargs
      exact ⟨_, hc, hv⟩
    | map hn => simp at hn
    | element hn => simp at hn
  · rintro ⟨c, hc, hv⟩
    exact .choose rfl rfl hc hv

/-- A list of one item, mapped by a function of it. -/
theorem each_singleton_iff {parameter : String} {body : Expr} {item : Datum} {vs : List Datum} :
    YieldsEach R env parameter body [item] vs ↔
      ∃ v, Yields R (env.bind parameter item) body v ∧ vs = [v] := by
  constructor
  · intro h
    cases h with
    | cons hv hrest => cases hrest; exact ⟨_, hv, rfl⟩
  · rintro ⟨v, hv, rfl⟩
    exact .cons hv .nil

theorem transform_iff {xs body : Expr} {parameter : String} {v : Datum} :
    Yields R env (.call "transform" [xs, .lambda parameter body]) v ↔
      ∃ items vs, Yields R env xs (.list items) ∧ YieldsEach R env parameter body items vs ∧
        v = .list vs := by
  constructor
  · intro h
    cases h with
    | call hb => cases hb
    | random hn => simp at hn
    | rand hn => simp at hn
    | choose hn => simp at hn
    | map hargs hxs heach =>
      simp only [List.cons.injEq, Expr.lambda.injEq, and_true, true_and,
        String.reduceEq, false_and, or_false] at hargs
      obtain ⟨rfl, rfl, rfl⟩ := hargs
      exact ⟨_, _, hxs, heach, rfl⟩
    | element hn => simp at hn
  · rintro ⟨items, vs, hxs, heach, rfl⟩
    exact .map (.inl ⟨rfl, rfl⟩) hxs heach

theorem arrayMap_iff {xs body : Expr} {parameter : String} {v : Datum} :
    Yields R env (.call "arrayMap" [.lambda parameter body, xs]) v ↔
      ∃ items vs, Yields R env xs (.list items) ∧ YieldsEach R env parameter body items vs ∧
        v = .list vs := by
  constructor
  · intro h
    cases h with
    | call hb => cases hb
    | random hn => simp at hn
    | rand hn => simp at hn
    | choose hn => simp at hn
    | map hargs hxs heach =>
      simp only [List.cons.injEq, Expr.lambda.injEq, and_true, true_and,
        String.reduceEq, false_and, false_or] at hargs
      obtain ⟨⟨rfl, rfl⟩, rfl⟩ := hargs
      exact ⟨_, _, hxs, heach, rfl⟩
    | element hn => simp at hn
  · rintro ⟨items, vs, hxs, heach, rfl⟩
    exact .map (.inr ⟨rfl, rfl⟩) hxs heach

theorem element_iff {f : String} (hf : f = "element_at" ∨ f = "arrayElement") {xs i : Expr}
    {v : Datum} :
    Yields R env (.call f [xs, i]) v ↔
      ∃ items n, Yields R env xs (.list items) ∧ Yields R env i (.number ((n : ℕ) + 1)) ∧
        items[n]? = some v := by
  constructor
  · intro h
    cases h with
    | call hb => rcases hf with rfl | rfl <;> cases hb
    | random hn => subst hn; simp at hf
    | rand hn => subst hn; simp at hf
    | choose hn => subst hn; simp at hf
    | map hn => rcases hn with ⟨rfl, _⟩ | ⟨rfl, _⟩ <;> simp at hf
    | element _ hargs hxs hi hv =>
      simp only [List.cons.injEq, and_true] at hargs
      obtain ⟨rfl, rfl⟩ := hargs
      exact ⟨_, _, hxs, hi, hv⟩
  · rintro ⟨items, n, hxs, hi, hv⟩
    exact .element hf rfl hxs hi hv

theorem cast_iff {x : Expr} {type : String} {kind : CastKind}
    (hk : CastKind.ofName? type = some kind) {v : Datum} :
    Yields R env (.cast x type) v ↔ ∃ u, Yields R env x u ∧ R.cast kind u = some v := by
  constructor
  · intro h
    cases h with
    | cast hk' hx hv => cases hk.symm.trans hk'; exact ⟨_, hx, hv⟩
  · rintro ⟨u, hx, hv⟩
    exact .cast hk hx hv

theorem convert_iff {x : Expr} {type : String} {kind : CastKind}
    (hk : CastKind.ofName? type = some kind) {v : Datum} :
    Yields R env (.convert x type) v ↔ ∃ u, Yields R env x u ∧ R.cast kind u = some v := by
  constructor
  · intro h
    cases h with
    | convert hk' hx hv => cases hk.symm.trans hk'; exact ⟨_, hx, hv⟩
  · rintro ⟨u, hx, hv⟩
    exact .convert hk hx hv

theorem index_iff {xs i : Expr} {v : Datum} :
    Yields R env (.index xs i) v ↔
      ∃ items n, Yields R env xs (.list items) ∧ Yields R env i (.number ((n : ℕ) + 1)) ∧
        items[n]? = some v := by
  constructor
  · intro h
    cases h with
    | index hxs hi hv => exact ⟨_, _, hxs, hi, hv⟩
  · rintro ⟨items, n, hxs, hi, hv⟩
    exact .index hxs hi hv

theorem array_iff {items : List Expr} {v : Datum} :
    Yields R env (.array items) v ↔ ∃ vs, YieldsAll R env items vs ∧ v = .list vs := by
  constructor
  · intro h; cases h; exact ⟨_, ‹_›, rfl⟩
  · rintro ⟨vs, h, rfl⟩; exact .array h

theorem brackets_iff {items : List Expr} {v : Datum} :
    Yields R env (.brackets items) v ↔ ∃ vs, YieldsAll R env items vs ∧ v = .list vs := by
  constructor
  · intro h; cases h; exact ⟨_, ‹_›, rfl⟩
  · rintro ⟨vs, h, rfl⟩; exact .brackets h

theorem isNotNull_iff {x : Expr} {v : Datum} :
    Yields R env (.isNotNull x) v ↔ ∃ u, Yields R env x u ∧ v = .bool !u.isNull := by
  constructor
  · intro h; cases h; exact ⟨_, ‹_›, rfl⟩
  · rintro ⟨u, h, rfl⟩; exact .isNotNull h

theorem otherwise_iff {x : Expr} {v : Datum} :
    Yields R env (.caseWhen [] x) v ↔ Yields R env x v := by
  constructor
  · intro h; cases h; assumption
  · exact .otherwise

/-- The first branch whose condition is true is taken; an unknown condition is not true. -/
theorem branch_iff {condition x y : Expr} {rest : List (Expr × Expr)} {v : Datum} :
    Yields R env (.caseWhen ((condition, x) :: rest) y) v ↔
      (Yields R env condition (.bool true) ∧ Yields R env x v) ∨
        ∃ c, Yields R env condition c ∧ c ≠ .bool true ∧ Yields R env (.caseWhen rest y) v := by
  constructor
  · intro h
    cases h with
    | branch hc hx => exact .inl ⟨hc, hx⟩
    | skip hc hn hv => exact .inr ⟨_, hc, hn, hv⟩
  · rintro (⟨hc, hx⟩ | ⟨c, hc, hn, hv⟩)
    · exact .branch hc hx
    · exact .skip hc hn hv

theorem lookup_iff {l : ScalarLookup} {v : Datum} :
    Yields R env (.lookup l) v ↔
      ∃ x, env.resolve l.target = some x ∧
        Finds R env.tables l.taking l.source l.key l.wanted x v := by
  constructor
  · intro h; cases h; exact ⟨_, ‹_›, ‹_›⟩
  · rintro ⟨x, hx, h⟩; exact .lookup hx h

end Yields
end SyntheticRows
