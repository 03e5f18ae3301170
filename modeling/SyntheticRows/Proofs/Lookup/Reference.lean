import SyntheticRows.Proofs.Draw.Tag
import SyntheticRows.Proofs.Lookup.Definition

/-!
# References of expressions

The relations, arrays and columns of its own statement that an expression refers to. A draw refers
to none, a column that picks from a list to the name of this list alone, a sequence to the ordinal
of its row, and every other column to nothing.
-/
namespace SyntheticRows
open Sql

namespace Sql

/-- The bare name that a path starts with. -/
def bareHead : Path → List String
  | .bare text :: _ => [text]
  | _ => []

namespace Expr

mutual

/-- The bare names that paths start with: relations, arrays and columns of the statement itself. -/
def heads : Expr → List String
  | literal _ | decimal _ | verbatim _ => []
  | name path => bareHead path
  | paren x | cast x _ | convert x _ | isNotNull x | lambda _ x | atUtc x => heads x
  | binary _ a b | index a b => heads a ++ heads b
  | call _ items | array items | brackets items => headsOfAll items
  | caseWhen branches otherwise => headsOfBranches branches ++ heads otherwise
  | caseOf subject branches => heads subject ++ headsOfBranches branches
  | lookup l => bareHead l.source ++ bareHead l.target

def headsOfAll : List Expr → List String
  | [] => []
  | x :: rest => heads x ++ headsOfAll rest

def headsOfBranches : List (Expr × Expr) → List String
  | [] => []
  | (condition, result) :: rest => heads condition ++ heads result ++ headsOfBranches rest

end

section Parts

attribute [local simp] heads headsOfAll headsOfBranches bareHead

variable {e : Engine} {x y : Expr}

theorem heads_operand (l : Literal) : (operand l).heads = [] := by
  unfold operand
  split <;> rfl

theorem heads_ofNumber {n : Number} (h : ofNumber n = .ok x) : x.heads = [] := by
  cases n with
  | int i =>
    obtain ⟨l, _, rfl⟩ := except_ok_of_map h
    exact heads_operand l
  | float y =>
    obtain ⟨l, _, h⟩ := except_ok_of_bind h
    obtain rfl := Except.ok.inj h
    exact heads_operand l

theorem heads_given {i : Int} (h : given i = .ok x) : x.heads = [] := by
  obtain ⟨l, _, rfl⟩ := except_ok_of_map h
  rfl

theorem heads_unit (e : Engine) (tag : Int) : (e.unit tag).heads = [] := by
  cases e <;> rfl

theorem heads_floorRandom {n : Int} (h : Engine.floorRandom n = .ok x) : x.heads = [] := by
  obtain ⟨width, given, h⟩ := except_ok_of_bind h
  obtain rfl := Except.ok.inj h
  simp [mul, Engine.random, heads_given given]

theorem heads_integer {n tag : Int} (h : e.integer n tag = .ok x) : x.heads = [] := by
  cases e with
  | postgresql =>
    obtain ⟨draw, floor, h⟩ := except_ok_of_bind h
    obtain rfl := Except.ok.inj h
    have drawn : draw.heads = [] := heads_floorRandom floor
    exact drawn
  | clickhouse =>
    obtain ⟨width, given, h⟩ := except_ok_of_bind h
    obtain rfl := Except.ok.inj h
    simp [int, heads_given given]
  | sqlite =>
    simp only [Engine.integer] at h
    split at h
    · obtain ⟨width, given, h⟩ := except_ok_of_bind h
      obtain rfl := Except.ok.inj h
      simp [Engine.maskedRandom, Engine.random, nat, int, heads_given given]
    · obtain ⟨_, _, h⟩ := except_ok_of_bind h
      cases h
  | trino =>
    obtain ⟨width, given, h⟩ := except_ok_of_bind h
    obtain rfl := Except.ok.inj h
    simp [heads_given given]

theorem heads_arrayPosition {n tag : Int} (h : Dialect.arrayPosition e n tag = .ok x) :
    x.heads = [] := by
  cases e with
  | postgresql =>
    obtain ⟨draw, floor, h⟩ := except_ok_of_bind h
    obtain rfl := Except.ok.inj h
    simp [add, nat, int, heads_floorRandom floor]
  | clickhouse | sqlite | trino =>
    obtain ⟨draw, integer, h⟩ := except_ok_of_bind h
    obtain rfl := Except.ok.inj h
    simp [add, nat, int, heads_integer integer]

/-- A pick refers to its list. -/
theorem heads_lookupPick {name : String} {n tag : Int}
    (h : (Dialect.of e).lookupPick name n tag = .ok x) : x.heads = [name] := by
  obtain ⟨_, engine, h⟩ := except_ok_of_bind h
  cases engine
  cases e with
  | postgresql | clickhouse | trino =>
    obtain ⟨position, drawn, h⟩ := except_ok_of_bind h
    obtain rfl := Except.ok.inj h
    simp [bare, heads_arrayPosition drawn]
  | sqlite =>
    obtain ⟨position, drawn, h⟩ := except_ok_of_bind h
    obtain rfl := Except.ok.inj h
    simp [chain, word, heads_integer drawn]

end Parts

end Expr
end Sql

namespace Column

variable {e : Engine} {c : Column} {now salt : Int} {row x y probability : Expr} {tag : Int}

theorem heads_cast (h : cast (.of e) x c = .ok y) : y.heads = x.heads := by
  simp only [cast, Dialect.engine, bind, Except.bind] at h
  split at h <;>
  · obtain rfl := Except.ok.inj h
    simp [Expr.heads, Expr.headsOfAll]

theorem heads_nullWrap (hp : probability.heads = [])
    (h : (Dialect.of e).nullWrap x probability tag = .ok y) : y.heads = x.heads := by
  have draw : (e.unit tag).heads = [] := Expr.heads_unit e tag
  cases e <;>
  · obtain rfl := Except.ok.inj h
    simp [Expr.heads, Expr.headsOfAll, Expr.headsOfBranches, Expr.less, Expr.null, draw, hp]

/-- A column that is not always null refers to what its generator refers to. -/
theorem heads_of_expression (hp : c.effectiveNullProbability.lt (.int 1) = true)
    (h : c.expression (.of e) now row salt = .ok x) : ∃ value tags,
      (c.generator.compile (.of e) now row).run (.ofSalt salt) = .ok (value, tags) ∧
        x.heads = value.heads := by
  have real := effectiveNullProbability_isReal c
  have uncertain : ¬(Number.int 1).le c.effectiveNullProbability = true := by
    rw [Number.lt_iff (b := .int 1) real trivial] at hp
    rw [Number.le_iff (a := .int 1) trivial real]
    exact not_le.2 hp
  obtain ⟨⟨y, tags⟩, whole, rfl⟩ := except_ok_of_map h
  unfold compile at whole
  rw [if_neg uncertain] at whole
  obtain ⟨value, between, hvalue, typed⟩ := Tagged.ok_of_bind whole
  obtain ⟨casted, _, first, wrapped⟩ := Tagged.ok_of_bind typed
  have hcast := (Tagged.ok_of_lift first).1
  refine ⟨value, between, hvalue, ?_⟩
  rw [← heads_cast hcast]
  split at wrapped
  · cases wrapped
    rfl
  · obtain ⟨tag, _, _, chosen⟩ := Tagged.ok_of_bind wrapped
    obtain ⟨probability, _, second, last⟩ := Tagged.ok_of_bind chosen
    have hprob := (Tagged.ok_of_lift second).1
    exact heads_nullWrap (Expr.heads_ofNumber hprob) (Tagged.ok_of_lift last).1

/-- A column that picks from a list refers to the name of the list and to nothing else. -/
theorem heads_of_lookup {vs : List Value} (hg : c.generator = .choiceByLookup vs) (hvs : vs ≠ [])
    (hp : c.effectiveNullProbability.lt (.int 1) = true)
    (h : c.expression (.of e) now row salt = .ok x) :
    ∃ payload, lookupPayload vs = .ok payload ∧ x.heads = [digestName payload] := by
  obtain ⟨value, tags, compiled, same⟩ := heads_of_expression hp h
  rw [hg] at compiled
  obtain ⟨name, named, picked⟩ := Tagged.ok_of_choiceByLookup hvs compiled
  obtain ⟨payload, written, rfl⟩ := except_ok_of_map named
  exact ⟨payload, written, same.trans (Expr.heads_lookupPick picked)⟩

end Column

namespace Sql.Expr

section Parts

attribute [local simp] heads headsOfAll headsOfBranches bareHead

variable {e : Engine} {x y : Expr} {items : List Expr} {n tag : ℤ}

theorem headsOfAll_eq_flatMap : headsOfAll items = items.flatMap heads := by
  induction items with
  | nil => rfl
  | cons x items ih => simp [ih]

theorem headsOfBranches_eq_flatMap {branches : List (Expr × Expr)} :
    headsOfBranches branches = branches.flatMap fun b => b.1.heads ++ b.2.heads := by
  induction branches with
  | nil => rfl
  | cons b branches ih => simp [ih]

theorem heads_chain {op : Operator} {rest : List Expr} :
    (chain op x rest).heads = (x :: rest).flatMap heads := by
  induction rest generalizing x with
  | nil => simp [chain]
  | cons y rest ih =>
    have step : chain op x (y :: rest) = chain op (binary op x y) rest := rfl
    rw [step, ih]
    simp

theorem heads_ofInt {i : ℤ} (h : ofInt i = .ok x) : x.heads = [] := heads_ofNumber (n := .int i) h

theorem heads_ofFloat {d : Double} (h : ofFloat d = .ok x) : x.heads = [] :=
  heads_ofNumber (n := .float d) h

theorem heads_literal {v : Value} (h : (Dialect.of e).literal v = .ok x) : x.heads = [] := by
  obtain ⟨l, _, rfl⟩ := Dialect.literal_ok_iff.1 h
  rfl

theorem heads_drawn (h : (Dialect.of e).integer n tag = .ok x) : x.heads = [] := by
  obtain ⟨_, engine, h⟩ := except_ok_of_bind h
  cases engine
  exact heads_integer h

/-- A pick from items that refer to nothing refers to nothing. -/
theorem heads_pick (none : items.flatMap heads = [])
    (h : (Dialect.of e).pick items n tag = .ok x) : x.heads = [] := by
  obtain ⟨_, engine, h⟩ := except_ok_of_bind h
  cases engine
  cases e with
  | postgresql | clickhouse | trino =>
    obtain ⟨position, drawn, h⟩ := except_ok_of_bind h
    obtain rfl := Except.ok.inj h
    simp [headsOfAll_eq_flatMap, none, heads_arrayPosition drawn]
  | sqlite => cases h

theorem heads_caseOfItems (none : items.flatMap heads = []) :
    headsOfBranches (Generator.caseOfItems items) = [] := by
  rw [headsOfBranches_eq_flatMap, List.flatMap_eq_nil_iff]
  intro branch hb
  obtain ⟨i, hi, rfl⟩ := List.mem_map.1 hb
  have item := List.flatMap_eq_nil_iff.1 none i.1 (List.fst_mem_of_mem_zipIdx hi)
  simp [nat, int, item]

theorem heads_fromEpoch (h : (Dialect.of e).fromEpoch x = .ok y) : y.heads = x.heads := by
  cases e <;>
  · obtain rfl := Except.ok.inj h
    simp [word]

theorem heads_cutPieces (f : String) (length : ℕ) (pieces : List Expr) :
    (Generator.cutPieces f length pieces).heads = pieces.flatMap heads := by
  cases pieces with
  | nil => simp [Generator.cutPieces, null, nat, int]
  | cons first rest => simp [Generator.cutPieces, nat, int, heads_chain]

end Parts

end Sql.Expr

namespace Sql.Tagged

variable {α : Type} {names : List String}

/-- The expression of a compilation refers to names. -/
def Mentions (x : Tagged Expr) (names : List String) : Prop :=
  ∀ tags y tags', x.run tags = .ok (y, tags') → y.heads = names

theorem Mentions.lift {x : Except Error Expr} (h : ∀ y, x = .ok y → y.heads = names) :
    Mentions (liftM x) names := fun _ y _ run => h y (ok_of_lift run).1

theorem Mentions.pure {x : Expr} (h : x.heads = names) : Mentions (Pure.pure x) names := by
  intro tags y tags' run
  cases run
  exact h

theorem Mentions.bind {x : Except Error α} {k : α → Tagged Expr}
    (h : ∀ a, x = .ok a → Mentions (k a) names) : Mentions (liftM x >>= k) names := by
  intro tags y tags' run
  obtain ⟨a, between, first, rest⟩ := ok_of_bind run
  exact h a (ok_of_lift first).1 between y tags' rest

theorem Mentions.draw {k : ℤ → Tagged Expr} (h : ∀ tag, Mentions (k tag) names) :
    Mentions (nextTag >>= k) names := by
  intro tags y tags' run
  obtain ⟨tag, between, _, rest⟩ := ok_of_bind run
  exact h tag between y tags' rest

/-- Parts that refer to nothing. -/
theorem heads_of_pieces {piece : ℕ → Tagged Expr} (h : ∀ k, Mentions (piece k) []) {l : List ℕ}
    {tags tags' : Tags} {ys : List Expr} (run : (l.mapM piece).run tags = .ok (ys, tags')) :
    ys.flatMap Expr.heads = [] := by
  induction l generalizing tags ys with
  | nil =>
    cases run
    rfl
  | cons k l ih =>
    rw [List.mapM_cons] at run
    obtain ⟨y, between, first, run⟩ := ok_of_bind run
    obtain ⟨rest, after, others, run⟩ := ok_of_bind run
    cases run
    rw [List.flatMap_cons, h k tags y between first, ih others, List.nil_append]

end Sql.Tagged

namespace Generator
open Sql.Tagged

attribute [local simp] Expr.heads Expr.headsOfAll Expr.headsOfBranches

variable {e : Engine} {now : ℤ} {row : Expr}

theorem mentions_sequence (s : Sequence) : Mentions (liftM (sequenceExpr s row)) row.heads := by
  refine .lift fun y h => ?_
  obtain ⟨step, hstep, h⟩ := except_ok_of_bind h
  obtain ⟨start, hstart, h⟩ := except_ok_of_bind h
  cases h
  simp [Expr.add, Expr.sub, Expr.mul, Expr.heads_ofInt hstep, Expr.heads_ofInt hstart]

theorem mentions_intRange (r : IntRange) : Mentions (intRangeExpr (.of e) r) [] := by
  refine .bind fun low hlow => ?_
  have still := Expr.heads_ofInt hlow
  by_cases one : r.width = 1
  · simp only [one, if_true]
    exact .pure still
  · simp only [one, if_false]
    refine .draw fun tag => .bind fun draw hdraw => .pure ?_
    simp [Expr.add, still, Expr.heads_drawn hdraw]

theorem mentions_floatRange (r : FloatRange) : Mentions (floatRangeExpr (.of e) r) [] := by
  refine .bind fun bounds hbounds => .draw fun tag => .bind fun draw hdraw =>
    .bind fun places hplaces => ?_
  obtain ⟨_, _, h⟩ := except_ok_of_bind hbounds
  obtain ⟨low, hlow, h⟩ := except_ok_of_bind h
  obtain ⟨_, _, h⟩ := except_ok_of_bind h
  obtain ⟨_, _, h⟩ := except_ok_of_bind h
  obtain ⟨width, hwidth, h⟩ := except_ok_of_bind h
  cases h
  cases hdraw
  have parts := And.intro (Expr.heads_ofFloat hlow) (Expr.heads_ofFloat hwidth)
  cases e <;>
    exact .pure (by simp [Expr.add, Expr.mul, parts, Expr.heads_unit, Expr.heads_given hplaces])

theorem mentions_choice (values : List Value) : Mentions (choiceExpr (.of e) values) [] := by
  match values with
  | [] => exact .pure rfl
  | [v] => exact .lift fun y h => Expr.heads_literal h
  | v :: w :: rest =>
    change Mentions (_ >>= fun items => nextTag >>= fun tag => _) []
    rw [mapM_lift]
    refine .bind fun items hitems => .draw fun tag => ?_
    have none : items.flatMap Expr.heads = [] := by
      refine List.flatMap_eq_nil_iff.2 fun x hx => ?_
      obtain ⟨v, _, compiled⟩ := partner_left (forall₂_of_mapM hitems) hx
      exact Expr.heads_literal compiled
    by_cases lite : Dialect.of e = .of .sqlite
    · simp only [lite, if_true]
      refine .bind fun draw hdraw => .pure ?_
      simp [Expr.heads_drawn hdraw, Expr.heads_caseOfItems none]
    · simp only [lite, if_false]
      exact .lift fun y h => Expr.heads_pick none h

theorem mentions_spanBetween (start stop : ℤ) : Mentions (spanBetween (.of e) start stop) [] := by
  have inside : Mentions (if stop = start then liftM ((Dialect.of e).fromEpoch (.int start))
      else nextTag >>= fun tag =>
        liftM ((Dialect.of e).integer (stop - start + 1) tag) >>= fun draw =>
          liftM ((Dialect.of e).fromEpoch (.paren (.add (.int start) draw)))) [] := by
    by_cases same : stop = start
    · simp only [same, if_true]
      exact .lift fun y h => by rw [Expr.heads_fromEpoch h]; rfl
    · simp only [same, if_false]
      refine .draw fun tag => .bind fun draw hdraw => .lift fun y h => ?_
      rw [Expr.heads_fromEpoch h]
      simp [Expr.add, Expr.int, Expr.heads_drawn hdraw]
  unfold spanBetween
  by_cases future : stop < start
  · simp only [future, if_true]
    exact .bind fun _ _ => inside
  · simp only [future, if_false]
    exact inside

theorem mentions_span (s : Span) : Mentions (spanExpr (.of e) now s) [] := by
  rw [spanExpr_eq]
  exact .bind fun start _ => .bind fun stop _ => mentions_spanBetween start stop

theorem mentions_uuid : Mentions (uuidExpr (.of e)) [] := by
  refine .bind fun engine he => ?_
  cases he
  cases e with
  | clickhouse => exact .draw fun tag => .pure rfl
  | postgresql | sqlite | trino => exact .pure rfl

/-- Pieces that refer to nothing are cut to a text that refers to nothing. -/
theorem mentions_cutPieces {piece : ℕ → Tagged Expr} (h : ∀ k, Mentions (piece k) []) (f : String)
    (length : ℕ) :
    Mentions (piecesOf length piece >>= fun ys => pure (cutPieces f length ys)) [] := by
  intro tags y tags' run
  obtain ⟨pieces, between, pieced, cut⟩ := ok_of_bind run
  cases cut
  obtain ⟨n, _, each⟩ := run_piecesOf pieced
  rw [Expr.heads_cutPieces, heads_of_pieces h each]

theorem mentions_randomText (length : ℕ) : Mentions (randomTextExpr (.of e) length) [] := by
  refine .bind fun engine he => ?_
  cases he
  cases e with
  | postgresql | trino => exact mentions_cutPieces (fun _ => .pure rfl) _ _
  | clickhouse => exact mentions_cutPieces (fun _ => .draw fun tag => .pure rfl) _ _
  | sqlite =>
    refine .bind fun n _ => .pure ?_
    rw [Expr.heads_cutPieces]
    rfl

/-- What a generator refers to that picks from no named list. -/
def names (row : Expr) : Generator → List String
  | sequence _ => row.heads
  | _ => []

theorem mentions_compile (g : Generator) (h : ∀ vs, g = .choiceByLookup vs → vs = []) :
    Mentions (g.compile (.of e) now row) (g.names row) := by
  cases g with
  | sequence s => exact mentions_sequence s
  | intRange r => exact mentions_intRange r
  | floatRange r => exact mentions_floatRange r
  | randomText length =>
    by_cases none : length = 0
    · simp only [compile, none, if_true]
      exact .lift fun y h => Expr.heads_literal h
    · simp only [compile, none, if_false]
      exact mentions_randomText length
  | choice values => exact mentions_choice values
  | choiceByLookup values =>
    obtain rfl := h values rfl
    exact .pure rfl
  | constant v => exact .lift fun y h => Expr.heads_literal h
  | span s => exact mentions_span s
  | uuid => exact mentions_uuid
  | other kind =>
    intro tags y tags' run
    cases run

end Generator

namespace Column

variable {e : Engine} {c : Column} {now salt : ℤ} {row x : Expr} {name : String}

/-- The column picks from a list under a name: the list is not empty, and some rows can be other
than null. -/
def PicksUnder (c : Column) (name : String) : Prop :=
  ∃ vs, c.generator = .choiceByLookup vs ∧ vs ≠ [] ∧ c.nullShare < 1 ∧ lookupName vs = .ok name

theorem lt_one_iff : c.effectiveNullProbability.lt (.int 1) = true ↔ c.nullShare < 1 := by
  rw [Number.lt_iff (b := .int 1) (effectiveNullProbability_isReal c) trivial]
  simp [nullShare, Number.toRat]

theorem lookupValues?_iff {vs : List Value} : c.lookupValues? = some vs ↔
    c.generator = .choiceByLookup vs ∧ vs ≠ [] ∧ c.nullShare < 1 := by
  rw [← lt_one_iff, lookupValues?]
  cases c.generator with
  | choiceByLookup values =>
    rw [Option.ite_none_right_eq_some]
    simp only [Bool.and_eq_true, Bool.not_eq_true', List.isEmpty_eq_false_iff, Option.some.injEq,
      Generator.choiceByLookup.injEq]
    constructor
    · rintro ⟨⟨listed, uncertain⟩, rfl⟩
      exact ⟨rfl, listed, uncertain⟩
    · rintro ⟨rfl, listed, uncertain⟩
      exact ⟨⟨listed, uncertain⟩, rfl⟩
  | _ => simp

/-- A column that is always null refers to nothing. -/
theorem heads_of_certain (certain : ¬c.nullShare < 1)
    (h : c.expression (.of e) now row salt = .ok x) : x.heads = [] := by
  have le : (Number.int 1).le c.effectiveNullProbability = true := by
    rw [Number.le_iff (a := .int 1) trivial (effectiveNullProbability_isReal c)]
    simpa [nullShare, Number.toRat] using certain
  obtain ⟨⟨y, tags⟩, whole, rfl⟩ := except_ok_of_map h
  unfold compile at whole
  rw [if_pos le] at whole
  cases whole
  rfl

/-- A column refers to the list that it picks from and to nothing else, or to the ordinal of its row
at most. -/
theorem heads_of_column (h : c.expression (.of e) now row salt = .ok x) :
    (∃ name, c.PicksUnder name ∧ x.heads = [name]) ∨
      (∀ name, ¬c.PicksUnder name) ∧ x.heads ⊆ row.heads := by
  by_cases uncertain : c.nullShare < 1
  · by_cases listed : ∃ vs, c.generator = .choiceByLookup vs ∧ vs ≠ []
    · obtain ⟨vs, hg, hvs⟩ := listed
      obtain ⟨payload, written, heads⟩ := heads_of_lookup hg hvs (lt_one_iff.2 uncertain) h
      have named : lookupName vs = .ok (digestName payload) := by
        rw [lookupName_eq, written]
        rfl
      exact .inl ⟨digestName payload, ⟨vs, hg, hvs, uncertain, named⟩, heads⟩
    · obtain ⟨value, tags, compiled, same⟩ := heads_of_expression (lt_one_iff.2 uncertain) h
      have unlisted : ∀ vs, c.generator = .choiceByLookup vs → vs = [] := fun vs hg =>
        not_not.1 fun hvs => listed ⟨vs, hg, hvs⟩
      refine .inr ⟨fun name ⟨vs, hg, hvs, _⟩ => listed ⟨vs, hg, hvs⟩, ?_⟩
      rw [same, Generator.mentions_compile c.generator unlisted _ _ _ compiled]
      cases c.generator <;> simp [Generator.names]
  · refine .inr ⟨fun name ⟨_, _, _, below, _⟩ => uncertain below, ?_⟩
    rw [heads_of_certain uncertain h]
    exact List.nil_subset _

end Column
end SyntheticRows
