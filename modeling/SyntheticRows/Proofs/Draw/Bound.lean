import SyntheticRows.Proofs.Draw.Tag
import SyntheticRows.Proofs.Meaning.Mutation

/-!
# Draws that a mutation binds

A mutation in ClickHouse binds its draws in one list and reads them from there, so that a row is
changed by draws that are taken once. Its gate, its choice and its place are read from places of
their own, and what is put together from these draws nothing else.
-/
namespace SyntheticRows
open Sql

namespace Sql.Expr

/-- The place of the bound list that an access reads. -/
def slotOf : Expr → Expr → List ℤ
  | name [.bare "_r"], literal (.int i) => [i]
  | _, _ => []

mutual

/-- The places of the bound list that are read, from left to right. -/
def slots : Expr → List ℤ
  | literal _ | decimal _ | verbatim _ | name _ | lookup _ => []
  | paren x | cast x _ | convert x _ | isNotNull x | lambda _ x | atUtc x => slots x
  | binary _ a b => slots a ++ slots b
  | index a b => slotOf a b ++ slots a ++ slots b
  | call _ items | array items | brackets items => slotsOfAll items
  | caseWhen branches otherwise => slotsOfBranches branches ++ slots otherwise
  | caseOf subject branches => slots subject ++ slotsOfBranches branches

def slotsOfAll : List Expr → List ℤ
  | [] => []
  | x :: rest => slots x ++ slotsOfAll rest

def slotsOfBranches : List (Expr × Expr) → List ℤ
  | [] => []
  | (condition, result) :: rest => slots condition ++ slots result ++ slotsOfBranches rest

end

/-- An expression is made of parts, of literals and of calls that do not draw. -/
inductive MadeOf (parts : List Expr) : Expr → Prop
  | part {x : Expr} : x ∈ parts → MadeOf parts x
  | literal (l : Literal) : MadeOf parts (.literal l)
  | paren {x : Expr} : MadeOf parts x → MadeOf parts (.paren x)
  | isNotNull {x : Expr} : MadeOf parts x → MadeOf parts (.isNotNull x)
  | binary {op : Operator} {a b : Expr} :
    MadeOf parts a → MadeOf parts b → MadeOf parts (.binary op a b)
  | call {f : String} {items : List Expr} : f ∉ drawFunctions →
    (∀ x ∈ items, MadeOf parts x) → MadeOf parts (.call f items)
  | caseWhen {branches : List (Expr × Expr)} {otherwise : Expr} :
    (∀ b ∈ branches, MadeOf parts b.1) → (∀ b ∈ branches, MadeOf parts b.2) →
    MadeOf parts otherwise → MadeOf parts (.caseWhen branches otherwise)

variable {parts : List Expr} {x y : Expr} {items : List Expr} {branches : List (Expr × Expr)}

theorem mem_slotsOfAll {k : ℤ} : k ∈ slotsOfAll items ↔ ∃ x ∈ items, k ∈ x.slots := by
  induction items with
  | nil => simp [slotsOfAll]
  | cons x items ih => simp [slotsOfAll, ih]

theorem mem_slotsOfBranches {k : ℤ} :
    k ∈ slotsOfBranches branches ↔ ∃ b ∈ branches, k ∈ b.1.slots ∨ k ∈ b.2.slots := by
  induction branches with
  | nil => simp [slotsOfBranches]
  | cons b branches ih => simp [slotsOfBranches, ih, or_assoc]

theorem drawsOfBranches_eq_flatMap :
    drawsOfBranches branches = branches.flatMap fun b => b.1.draws ++ b.2.draws := by
  induction branches with
  | nil => rfl
  | cons b branches ih => simp [drawsOfBranches, ih]

namespace MadeOf

/-- What is made of parts that do not draw does not draw. -/
theorem draws_eq_nil (h : MadeOf parts x) (none : ∀ p ∈ parts, p.draws = []) : x.draws = [] := by
  induction h with
  | part there => exact none _ there
  | literal l => simp [draws]
  | paren _ ih => simpa [draws] using ih
  | isNotNull _ ih => simpa [draws] using ih
  | binary _ _ iha ihb => simp [draws, iha, ihb]
  | call quiet _ ih => simpa [draws, drawOf, quiet, drawsOfAll_eq_flatMap] using ih
  | caseWhen _ _ _ ih₁ ih₂ ih =>
    rw [draws, drawsOfBranches_eq_flatMap, ih, List.append_nil, List.flatMap_eq_nil_iff]
    intro b hb
    rw [ih₁ b hb, ih₂ b hb, List.append_nil]

/-- What is made of parts reads only the places that the parts read. -/
theorem slots_of_parts (h : MadeOf parts x) {k : ℤ} (hk : k ∈ x.slots) :
    ∃ p ∈ parts, k ∈ p.slots := by
  induction h with
  | part there => exact ⟨_, there, hk⟩
  | literal l => simp [slots] at hk
  | paren _ ih => exact ih (by simpa [slots] using hk)
  | isNotNull _ ih => exact ih (by simpa [slots] using hk)
  | binary _ _ iha ihb =>
    rw [slots, List.mem_append] at hk
    exact hk.elim iha ihb
  | call _ _ ih =>
    rw [slots, mem_slotsOfAll] at hk
    obtain ⟨x, hx, hk⟩ := hk
    exact ih x hx hk
  | caseWhen _ _ _ ih₁ ih₂ ih =>
    rw [slots, List.mem_append, mem_slotsOfBranches] at hk
    rcases hk with ⟨b, hb, hk | hk⟩ | hk
    · exact ih₁ b hb hk
    · exact ih₂ b hb hk
    · exact ih hk

theorem int (i : ℤ) : MadeOf parts (Expr.int i) := .literal _

theorem chain {op : Operator} {rest : List Expr} (hx : MadeOf parts x)
    (h : ∀ y ∈ rest, MadeOf parts y) : MadeOf parts (Expr.chain op x rest) := by
  induction rest generalizing x with
  | nil => exact hx
  | cons y rest ih =>
    exact ih (.binary hx (h y List.mem_cons_self)) fun z hz => h z (List.mem_cons_of_mem y hz)

theorem operand (l : Literal) : MadeOf parts (Expr.operand l) := by
  unfold Expr.operand
  split
  · exact .paren (.literal l)
  · exact .literal l

theorem ofFloat {d : Double} (h : Expr.ofFloat d = .ok x) : MadeOf parts x := by
  obtain ⟨l, _, h⟩ := except_ok_of_bind h
  obtain rfl := Except.ok.inj h
  exact operand l

theorem ofNumber {n : Number} (h : Expr.ofNumber n = .ok x) : MadeOf parts x := by
  cases n with
  | int i =>
    obtain ⟨l, _, rfl⟩ := except_ok_of_map h
    exact operand l
  | float d => exact ofFloat h

theorem ofLiteral {d : Dialect} {v : Value} (h : d.literal v = .ok x) : MadeOf parts x := by
  obtain ⟨_, _, h⟩ := except_ok_of_bind h
  obtain ⟨l, _, h⟩ := except_ok_of_bind h
  obtain rfl := Except.ok.inj h
  exact .literal l

theorem concat {d : Dialect} (h : d.concat items = .ok x) (all : ∀ y ∈ items, MadeOf parts y) :
    MadeOf parts x := by
  cases items with
  | nil => exact ofLiteral h
  | cons first rest =>
    obtain rfl := Except.ok.inj h
    exact chain (all first List.mem_cons_self) fun y hy => all y (List.mem_cons_of_mem first hy)

section ClickHouse

variable {start : Expr} {count : Option Expr}

theorem substring (hx : MadeOf parts x) (hs : MadeOf parts start)
    (hc : ∀ y ∈ count, MadeOf parts y) :
    MadeOf parts ((Dialect.of .clickhouse).substring x start count) := by
  refine .call (by decide) fun y hy => ?_
  simp only [List.mem_cons, Option.mem_toList] at hy
  rcases hy with rfl | rfl | hy
  · exact hx
  · exact hs
  · exact hc y hy

theorem length (hx : MadeOf parts x) : MadeOf parts ((Dialect.of .clickhouse).length x) :=
  .call (by decide) (by simpa using hx)

theorem position (hd : MadeOf parts y) (hx : MadeOf parts x) :
    MadeOf parts ((Dialect.of .clickhouse).position y x) := by
  have product : MadeOf parts (.mul y ((Dialect.of .clickhouse).length x)) :=
    .binary hd (length hx)
  have floored : MadeOf parts (.call "floor" [.mul y ((Dialect.of .clickhouse).length x)]) :=
    .call (by decide) (by simpa using product)
  exact .paren (.binary (.call (by decide) (by simpa using floored)) (int 1))

end ClickHouse
end MadeOf
end Sql.Expr

section Texts
open Sql.Expr

variable {x : Expr}

/-- A template draws nothing. -/
theorem Template.draws_eq_nil {t : Target} {columns : List Value} {strict : Bool}
    {ref : Value → Except Error Expr} {table : Value} {tr : Template}
    (ht : t.dialect = .of .clickhouse) (quiet : ∀ v y, ref v = .ok y → y.draws = [])
    (h : Returns (tr.expression t.dialect table columns strict ref) x) : x.draws = [] := by
  rw [ht] at h
  obtain ⟨s, parts, y, -, compiled, together, rfl⟩ := Template.expression_returns h
  have part (z : Expr) (hz : z ∈ parts) : z.MadeOf parts := .part hz
  have whole : y.MadeOf parts := .concat together part
  have none (z : Expr) (hz : z ∈ parts) : z.draws = [] := by
    obtain ⟨p, -, hp⟩ := partner_left compiled hz
    cases p with
    | text content => exact draws_literal hp
    | placeholder name =>
      obtain ⟨column, hc, hp⟩ := except_ok_of_bind hp
      obtain rfl := Except.ok.inj hp
      simp [Dialect.textCast, draws, drawOf, drawFunctions, drawsOfAll, quiet _ _ hc]
  split
  · have lowered : ((Dialect.of .clickhouse).lower y).MadeOf parts :=
      .call (by decide) (by simpa using whole)
    exact lowered.draws_eq_nil none
  · exact whole.draws_eq_nil none

namespace Mutation

variable {m : Mutation} {gate choice : Option Expr} {column place : Expr} {salt : ℤ}

theorem madeOf_editExpr {offset mark : Expr} {edit : Edit} {parts : List Expr}
    (hc : column.MadeOf parts) (ho : offset.MadeOf parts) (hm : mark.MadeOf parts)
    (h : editExpr (.of .clickhouse) column offset mark edit = .ok x) : x.MadeOf parts := by
  have head : ((Dialect.of .clickhouse).substring column (.nat 1)
      (some (.sub offset (.nat 1)))).MadeOf parts :=
    .substring hc (.int 1) (by simpa using .binary ho (.int 1))
  have after : ((Dialect.of .clickhouse).substring column (.add offset (.nat 1))
      none).MadeOf parts :=
    .substring hc (.binary ho (.int 1)) (by simp)
  have tail : ((Dialect.of .clickhouse).substring column offset none).MadeOf parts :=
    .substring hc ho (by simp)
  cases edit <;> simp only [editExpr] at h
  case replace => exact .concat h (by simp [head, after, hm])
  case delete => exact .concat h (by simp [head, after])
  case insert => exact .concat h (by simp [head, tail, hm])

theorem madeOf_chooseEdit {edits parts : List Expr} {choice : Expr} (hc : choice.MadeOf parts)
    (he : ∀ y ∈ edits, y.MadeOf parts) (h : chooseEdit choice edits = .ok x) :
    x.MadeOf parts := by
  obtain ⟨thresholds, ht, h⟩ := except_ok_of_bind h
  obtain rfl := Except.ok.inj h
  refine .caseWhen ?_ ?_ ?_
  · intro b hb
    obtain ⟨⟨threshold, edit⟩, hp, rfl⟩ := List.mem_map.1 hb
    obtain ⟨_, _, made⟩ := partner_left (forall₂_of_mapM ht) (List.of_mem_zip hp).1
    exact .binary hc (.ofFloat made)
  · intro b hb
    obtain ⟨⟨threshold, edit⟩, hp, rfl⟩ := List.mem_map.1 hb
    exact he _ (List.of_mem_zip hp).2
  · cases last : edits.getLast? with
    | none => exact .literal _
    | some y => exact he y (List.mem_of_getLast? last)

theorem madeOf_condition {parts : List Expr} (hc : column.MadeOf parts)
    (hg : ∀ g ∈ gate, g.MadeOf parts) :
    (condition (.of .clickhouse) column gate).MadeOf parts := by
  have filled : (Expr.binary .greater ((Dialect.of .clickhouse).length column)
      (.nat 0)).MadeOf parts := .binary (.length hc) (.int 0)
  cases gate with
  | none => exact .binary (.isNotNull hc) filled
  | some g => exact .chain (hg g rfl) (by simp [MadeOf.isNotNull hc, filled])

/-- What a mutation writes is made of its three draws and of the column, and of nothing else that
draws or reads a list. -/
theorem madeOf_expression
    (h : m.expression (.of .clickhouse) column gate choice place = .ok x) :
    x.MadeOf (column :: place :: (gate.toList ++ choice.toList)) := by
  obtain ⟨mark, edits, edited, gate', hm, he, hed, hg, rfl⟩ := expression_returns h
  have own : column.MadeOf (column :: place :: (gate.toList ++ choice.toList)) := .part (by simp)
  have offset : ((Dialect.of .clickhouse).position place column).MadeOf
      (column :: place :: (gate.toList ++ choice.toList)) := .position (.part (by simp)) own
  have edits_made (y : Expr) (hy : y ∈ edits) :
      y.MadeOf (column :: place :: (gate.toList ++ choice.toList)) := by
    obtain ⟨edit, -, made⟩ := partner_left he hy
    exact madeOf_editExpr own offset (.ofLiteral hm) made
  have edited_made : edited.MadeOf (column :: place :: (gate.toList ++ choice.toList)) := by
    split at hed
    · next c _ _ _ => exact madeOf_chooseEdit (.part (by simp)) edits_made hed
    · next first _ _ => exact Except.ok.inj hed ▸ edits_made first (by simp)
    · exact Except.ok.inj hed ▸ own
  have gate_made (g : Expr) (hg' : g ∈ gate') :
      g.MadeOf (column :: place :: (gate.toList ++ choice.toList)) := by
    cases gate with
    | none =>
      cases hg
      cases hg'
    | some draw =>
      obtain ⟨y, compared, rfl⟩ := except_ok_of_map hg
      obtain ⟨p, hp, compared⟩ := except_ok_of_bind compared
      obtain rfl := Except.ok.inj compared
      cases hg'
      exact .binary (.part (by simp)) (.ofNumber hp)
  exact .caseWhen (by simpa using madeOf_condition own gate_made) (by simpa using edited_made) own

/-- The numbers of the gate's draw, the choice's and the place's. -/
def places (gate choice : Option ℕ) (place : ℕ) : List ℕ := gate.toList ++ choice.toList ++ [place]

/-- The expression binds the draws of the mutation in one list. The gate, the choice and the place
are read from places of their own in it, and what the list is applied to reads only these. -/
def WellBound (m : Mutation) (column x : Expr) : Prop :=
  ∃ (draws : List Expr) (gate choice : Option ℕ) (place : ℕ) (body : Expr),
    x = .call "arrayElement"
      [.call "arrayMap" [.lambda "_r" body, .brackets [.brackets draws]], .nat 1] ∧
    draws.length = m.drawCount ∧ gate.isSome = m.needsGate ∧ choice.isSome = m.needsChoice ∧
    (places gate choice place).Nodup ∧
    (∀ k ∈ places gate choice place, 1 ≤ k ∧ k ≤ draws.length) ∧
    m.expression (.of .clickhouse) column (gate.map boundDraw) (choice.map boundDraw)
      (boundDraw place) = .ok body ∧
    ∀ k ∈ body.slots, ∃ i ∈ places gate choice place, k = i

/-- The gate is drawn first. -/
def gatePlace (m : Mutation) : Option ℕ := if m.needsGate then some 1 else none

/-- The choice is drawn after the gate, and the place last. -/
def choicePlace (m : Mutation) : Option ℕ :=
  if m.needsChoice then some (1 + if m.needsGate then 1 else 0) else none

theorem body_of_boundExpr (h : m.boundExpr .clickhouse column salt = .ok x) :
    ∃ body, m.expression (.of .clickhouse) column (m.gatePlace.map boundDraw)
        (m.choicePlace.map boundDraw) (boundDraw m.drawCount) = .ok body ∧
      x = .call "arrayElement" [.call "arrayMap" [.lambda "_r" body,
        .brackets [.brackets ((List.range m.drawCount).map fun i =>
          Engine.unit .clickhouse (salt * 1000 + ((i + 1 : ℕ) : ℤ)))]], .nat 1] := by
  obtain ⟨body, compiled, h⟩ := except_ok_of_bind h
  refine ⟨body, ?_, (Except.ok.inj h).symm⟩
  rw [← compiled, withDraws, drawCount, gatePlace, choicePlace]
  cases hg : m.needsGate <;> cases hq : m.needsChoice <;> simp

theorem slots_boundDraw (k : ℕ) : (boundDraw k).slots = [(k : ℤ)] := rfl

/-- What a mutation writes reads no other places of a list than its draws are at. -/
theorem slots_expression {gate choice : Option ℕ} {place : ℕ} (hc : column.slots = [])
    (h : m.expression (.of .clickhouse) column (gate.map boundDraw) (choice.map boundDraw)
      (boundDraw place) = .ok x) : ∀ k ∈ x.slots, ∃ i ∈ places gate choice place, k = i := by
  intro k hk
  obtain ⟨p, hp, hk⟩ := (madeOf_expression h).slots_of_parts hk
  simp only [List.mem_cons, List.mem_append, Option.mem_toList, Option.map_eq_some_iff] at hp
  rcases hp with rfl | rfl | ⟨i, hi, rfl⟩ | ⟨i, hi, rfl⟩
  · simp [hc] at hk
  · exact ⟨place, by simp [places], by simpa [slots_boundDraw] using hk⟩
  · exact ⟨i, by simp [places, hi], by simpa [slots_boundDraw] using hk⟩
  · exact ⟨i, by simp [places, hi], by simpa [slots_boundDraw] using hk⟩

theorem wellBound_of_boundExpr (hc : column.slots = [])
    (h : m.boundExpr .clickhouse column salt = .ok x) : m.WellBound column x := by
  obtain ⟨body, compiled, rfl⟩ := body_of_boundExpr h
  refine ⟨_, m.gatePlace, m.choicePlace, m.drawCount, body, rfl, by simp, ?_, ?_, ?_, ?_, compiled,
    slots_expression hc compiled⟩
  · cases hg : m.needsGate <;> simp [gatePlace, hg]
  · cases hq : m.needsChoice <;> simp [choicePlace, hq]
  all_goals
    cases hg : m.needsGate <;> cases hq : m.needsChoice <;>
      simp [places, gatePlace, choicePlace, drawCount, hg, hq]

theorem dealt_replicate {f : String} {last : ℤ} {n : ℕ} : dealt last (List.replicate n f) =
    (List.range n).map fun i => (f, some (last + ((i + 1 : ℕ) : ℤ))) := by
  induction n generalizing last with
  | zero => rfl
  | succ n ih =>
    rw [List.replicate_succ, dealt, ih, List.range_succ_eq_map, List.map_cons, List.map_map]
    congr 1
    refine List.map_congr_left fun i _ => ?_
    simp only [Function.comp_apply, Prod.mk.injEq, Option.some.injEq, true_and]
    push_cast
    ring

/-- A bound mutation draws as often as it has to, with one tag after the other. -/
theorem draws_boundExpr (hc : column.draws = []) (h : m.boundExpr .clickhouse column salt = .ok x) :
    x.draws = dealt (salt * 1000) (List.replicate m.drawCount "rand") := by
  obtain ⟨body, hb, rfl⟩ := body_of_boundExpr h
  have quiet : body.draws = [] := by
    refine (madeOf_expression hb).draws_eq_nil fun p hp => ?_
    simp only [List.mem_cons, List.mem_append, Option.mem_toList, Option.map_eq_some_iff] at hp
    rcases hp with rfl | rfl | ⟨i, -, rfl⟩ | ⟨i, -, rfl⟩
    · exact hc
    all_goals rfl
  simp only [draws, drawsOfAll, drawsOfAll_eq_flatMap, drawOf, drawFunctions, quiet, nat, int,
    List.flatMap_map, draws_unit, dealt_replicate, ← List.map_eq_flatMap]
  simp

end Mutation
end Texts
end SyntheticRows
