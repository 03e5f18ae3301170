import SyntheticRows.Proofs.Draw.Call
import SyntheticRows.Proofs.Meaning.Insert

/-!
# Tags of draws

Every draw of a column takes the next tag of the column. The draws of an insert are therefore the
functions that its columns draw from, numbered through from the place of the column on.
-/
namespace SyntheticRows
open Sql

section Dealing

/-- Draws of functions with one tag after the other. -/
def dealt (last : ℤ) : List String → List Draw
  | [] => []
  | f :: rest => (f, some (last + 1)) :: dealt (last + 1) rest

variable {last : ℤ} {fs gs : List String}

theorem dealt_append : dealt last (fs ++ gs) = dealt last fs ++ dealt (last + fs.length) gs := by
  induction fs generalizing last with
  | nil => simp [dealt]
  | cons f fs ih =>
    simp only [List.cons_append, dealt, ih, List.length_cons, Nat.cast_add, Nat.cast_one]
    rw [add_right_comm, add_assoc]

theorem mem_dealt {d : Draw} :
    d ∈ dealt last fs ↔ ∃ (k : ℕ) (f : String), fs[k]? = some f ∧ d = (f, some (last + 1 + k)) := by
  induction fs generalizing last with
  | nil => simp [dealt]
  | cons g fs ih =>
    simp only [dealt, List.mem_cons, ih]
    constructor
    · rintro (rfl | ⟨k, f, there, rfl⟩)
      · exact ⟨0, g, rfl, by simp⟩
      · exact ⟨k + 1, f, there, by push_cast; rw [add_right_comm, add_assoc (last + 1)]⟩
    · rintro ⟨k, f, there, rfl⟩
      cases k with
      | zero => exact .inl (by simpa [eq_comm] using there)
      | succ k =>
        exact .inr ⟨k, f, there, by push_cast; rw [add_right_comm (last + 1), add_assoc (last + 1)]⟩

theorem nodup_dealt : (dealt last fs).Nodup := by
  induction fs generalizing last with
  | nil => exact List.nodup_nil
  | cons f fs ih =>
    refine List.nodup_cons.2 ⟨fun again => ?_, ih⟩
    obtain ⟨k, _, _, same⟩ := mem_dealt.1 again
    simp only [Prod.mk.injEq, Option.some.injEq] at same
    omega

end Dealing

namespace Sql.Tagged

variable {α : Type} {fs : List String} {f : String} {ds : List Draw}

/-- The expression of a compilation has draws, and no tag is taken for it. -/
def Has (x : Tagged Expr) (ds : List Draw) : Prop :=
  ∀ tags y tags', x.run tags = .ok (y, tags') → tags' = tags ∧ y.draws = ds

/-- The expression of a compilation draws from functions, with the tags that it takes. -/
def Deals (x : Tagged Expr) (fs : List String) : Prop :=
  ∀ tags y tags', x.run tags = .ok (y, tags') →
    tags'.last = tags.last + fs.length ∧ y.draws.Perm (dealt tags.last fs)

theorem Has.lift {x : Except Error Expr} (h : ∀ y, x = .ok y → y.draws = ds) :
    Has (liftM x) ds := by
  intro tags y tags' run
  obtain ⟨hy, same⟩ := ok_of_lift run
  exact ⟨same, h y hy⟩

theorem Has.pure {x : Expr} (h : x.draws = ds) : Has (Pure.pure x) ds := by
  intro tags y tags' run
  cases run
  exact ⟨rfl, h⟩

theorem Has.bind {x : Except Error α} {k : α → Tagged Expr} (h : ∀ a, x = .ok a → Has (k a) ds) :
    Has (liftM x >>= k) ds := by
  intro tags y tags' run
  obtain ⟨a, between, first, rest⟩ := ok_of_bind run
  obtain ⟨ha, rfl⟩ := ok_of_lift first
  exact h a ha between y tags' rest

theorem Has.deals {x : Tagged Expr} (h : Has x []) : Deals x [] := by
  intro tags y tags' run
  obtain ⟨rfl, still⟩ := h tags y tags' run
  simp [still, dealt]

theorem Deals.bind {x : Except Error α} {k : α → Tagged Expr}
    (h : ∀ a, x = .ok a → Deals (k a) fs) : Deals (liftM x >>= k) fs := by
  intro tags y tags' run
  obtain ⟨a, between, first, rest⟩ := ok_of_bind run
  obtain ⟨ha, rfl⟩ := ok_of_lift first
  exact h a ha between y tags' rest

/-- Parts that take no tags are compiled as if there were none. -/
theorem mapM_lift {β : Type} {g : α → Except Error β} {l : List α} :
    (l.mapM fun a => (liftM (g a) : Tagged β)) = liftM (l.mapM g) := by
  induction l with
  | nil => rfl
  | cons a l ih =>
    rw [List.mapM_cons, List.mapM_cons, ih]
    funext tags
    cases ha : g a with
    | error e => rfl
    | ok b => cases hl : l.mapM g <;> rfl

theorem ok_of_nextTag {tags tags' : Tags} {tag : ℤ} (h : nextTag.run tags = .ok (tag, tags')) :
    tag = tags.last + 1 ∧ tags'.last = tags.last + 1 := by
  cases h
  simp [Tags.last, add_assoc]

/-- A pick from a list that is looked up is one under the name of the list, with the next tag. -/
theorem ok_of_choiceByLookup {d : Dialect} {vs : List Value} {x : Expr} {tags tags' : Tags}
    (some : vs ≠ []) (h : (Generator.choiceByLookupExpr d vs).run tags = .ok (x, tags')) :
    ∃ name, lookupName vs = .ok name ∧ d.lookupPick name vs.length (tags.last + 1) = .ok x := by
  have listed : vs.isEmpty = false := by simpa using some
  simp only [Generator.choiceByLookupExpr, listed, Bool.false_eq_true, if_false] at h
  obtain ⟨name, _, first, drawing⟩ := ok_of_bind h
  obtain ⟨named, rfl⟩ := ok_of_lift first
  obtain ⟨tag, _, taken, picking⟩ := ok_of_bind drawing
  obtain ⟨rfl, _⟩ := ok_of_nextTag taken
  obtain ⟨picked, _⟩ := ok_of_lift picking
  exact ⟨name, named, picked⟩

/-- A compilation that takes one tag and draws with it. -/
theorem Deals.draw {k : ℤ → Tagged Expr} (h : ∀ tag, Has (k tag) [(f, some tag)]) :
    Deals (nextTag >>= k) [f] := by
  intro tags y tags' run
  obtain ⟨tag, between, first, rest⟩ := ok_of_bind run
  obtain ⟨rfl, drawn⟩ := h tag between y tags' rest
  obtain ⟨rfl, last⟩ := ok_of_nextTag first
  simp [drawn, dealt, last]

end Sql.Tagged

namespace Generator
open Sql.Tagged

/-- The functions that a generator draws from on ClickHouse, draw by draw. -/
def drawn (now : ℤ) : Generator → List String
  | intRange r => if r.width = 1 then [] else ["rand64"]
  | floatRange _ => ["rand"]
  | randomText length =>
    if length = 0 then []
    else (pieceCount length 32).toOption.elim [] fun n => List.replicate n "generateUUIDv4"
  | choice values => if values.length ≤ 1 then [] else ["rand64"]
  | choiceByLookup values => if values.isEmpty then [] else ["rand64"]
  | span s =>
    if s.start.epochSeconds? = s.stop.elim (some now) DateTime.epochSeconds? then []
    else ["rand64"]
  | uuid => ["generateUUIDv4"]
  | sequence _ | constant _ | other _ => []

variable {now : ℤ} {row : Expr}

theorem deals_sequence (hrow : row.draws = []) (s : Sequence) :
    Deals (liftM (sequenceExpr s row)) [] := by
  refine (Has.lift fun y h => ?_).deals
  obtain ⟨step, hstep, h⟩ := except_ok_of_bind h
  obtain ⟨start, hstart, h⟩ := except_ok_of_bind h
  cases h
  simp [Expr.draws, Expr.add, Expr.sub, Expr.mul, Expr.draws_ofInt hstep,
    Expr.draws_ofInt hstart, hrow]

theorem deals_intRange (r : IntRange) :
    Deals (intRangeExpr (.of .clickhouse) r) ((intRange r).drawn now) := by
  refine .bind fun low hlow => ?_
  have still := Expr.draws_ofInt hlow
  by_cases one : r.width = 1
  · simp only [one, if_true, drawn]
    exact (Has.pure still).deals
  · simp only [one, if_false, drawn]
    refine .draw fun tag => .bind fun draw hdraw => .pure ?_
    simp [Expr.draws, Expr.add, still, Expr.draws_integer hdraw]

theorem draws_floatBounds {r : FloatRange} {low width : Expr}
    (h : floatBounds r = .ok (low, width)) : low.draws = [] ∧ width.draws = [] := by
  obtain ⟨_, _, h⟩ := except_ok_of_bind h
  obtain ⟨_, hlow, h⟩ := except_ok_of_bind h
  obtain ⟨_, _, h⟩ := except_ok_of_bind h
  obtain ⟨_, _, h⟩ := except_ok_of_bind h
  obtain ⟨_, hwidth, h⟩ := except_ok_of_bind h
  cases h
  exact ⟨Expr.draws_ofFloat hlow, Expr.draws_ofFloat hwidth⟩

theorem deals_floatRange (r : FloatRange) :
    Deals (floatRangeExpr (.of .clickhouse) r) ((floatRange r).drawn now) := by
  refine .bind fun bounds hbounds => .draw fun tag => .bind fun draw hdraw =>
    .bind fun places hplaces => .pure ?_
  obtain ⟨hlow, hwidth⟩ := draws_floatBounds hbounds
  cases hdraw
  simp [Expr.draws, Expr.drawsOfAll, drawOf, drawFunctions, Expr.add, Expr.mul, hlow, hwidth,
    Expr.draws_unit, Expr.draws_given hplaces]

theorem deals_choice (values : List Value) :
    Deals (choiceExpr (.of .clickhouse) values) ((choice values).drawn now) := by
  match values with
  | [] => exact (Has.pure rfl).deals
  | [v] => exact (Has.lift fun y h => Expr.draws_literal h).deals
  | v :: w :: rest =>
    change Deals (_ >>= fun items => nextTag >>= fun tag => _) ["rand64"]
    rw [mapM_lift]
    refine .bind fun items hitems => .draw fun tag => .lift fun y h => Expr.draws_pick ?_ h
    refine List.flatMap_eq_nil_iff.2 fun x hx => ?_
    obtain ⟨v, _, compiled⟩ := partner_left (forall₂_of_mapM hitems) hx
    exact Expr.draws_literal compiled

theorem deals_choiceByLookup (values : List Value) :
    Deals (choiceByLookupExpr (.of .clickhouse) values) ((choiceByLookup values).drawn now) := by
  cases values with
  | nil => exact (Has.pure rfl).deals
  | cons v rest =>
    exact .bind fun name _ => .draw fun tag => .lift fun y h => Expr.draws_lookupPick h

/-- The expression of a span between two times in seconds. -/
def spanBetween (d : Dialect) (start stop : ℤ) : Tagged Expr := do
  if stop < start then liftM (refuse .startInFuture : Except Error Unit)
  if stop = start then d.fromEpoch (.int start)
  else
    let draw ← d.integer (stop - start + 1) (← nextTag)
    d.fromEpoch (.paren (.add (.int start) draw))

theorem spanExpr_eq (d : Dialect) (s : Span) : spanExpr d now s =
    liftM (orError .dateTooFar s.start.epochSeconds?) >>= fun start =>
      liftM (orError .dateTooFar (s.stop.elim (some now) DateTime.epochSeconds?)) >>= fun stop =>
        spanBetween d start stop := by
  unfold spanExpr
  cases s.stop <;> rfl

theorem deals_spanBetween (start stop : ℤ) :
    Deals (spanBetween (.of .clickhouse) start stop) (if start = stop then [] else ["rand64"]) := by
  have inside : Deals (if stop = start then liftM ((Dialect.of .clickhouse).fromEpoch (.int start))
      else nextTag >>= fun tag =>
        liftM ((Dialect.of .clickhouse).integer (stop - start + 1) tag) >>= fun draw =>
          liftM ((Dialect.of .clickhouse).fromEpoch (.paren (.add (.int start) draw))))
      (if start = stop then [] else ["rand64"]) := by
    by_cases same : stop = start
    · simp only [same, if_true]
      exact (Has.lift fun y h => Expr.draws_fromEpoch h).deals
    · simp only [same, Ne.symm same, if_false]
      refine .draw fun tag => .bind fun draw hdraw => .lift fun y h => ?_
      rw [Expr.draws_fromEpoch h]
      simp [Expr.draws, Expr.add, Expr.int, Expr.draws_integer hdraw]
  unfold spanBetween
  by_cases future : stop < start
  · simp only [future, if_true]
    exact .bind fun _ _ => inside
  · simp only [future, if_false]
    exact inside

theorem deals_span (s : Span) :
    Deals (spanExpr (.of .clickhouse) now s) ((span s).drawn now) := by
  rw [spanExpr_eq]
  refine .bind fun start hstart => .bind fun stop hstop => ?_
  have ends : (s.start.epochSeconds? = s.stop.elim (some now) DateTime.epochSeconds?) ↔
      start = stop := by
    rw [orError_ok_iff.1 hstart, orError_ok_iff.1 hstop, Option.some.injEq]
  simp only [drawn, ends]
  exact deals_spanBetween start stop

theorem deals_uuid : Deals (uuidExpr (.of .clickhouse)) (uuid.drawn now) := by
  refine .bind fun e he => ?_
  cases he
  exact .draw fun tag => .pure rfl

/-- Pieces that each draw once from one function. -/
theorem draws_of_pieces {piece : Tagged Expr} {f : String} (h : Deals piece [f]) {l : List ℕ}
    {tags tags' : Tags} {ys : List Expr}
    (run : (l.mapM fun _ => piece).run tags = .ok (ys, tags')) :
    tags'.last = tags.last + l.length ∧
      (ys.flatMap Expr.draws).Perm (dealt tags.last (List.replicate l.length f)) := by
  induction l generalizing tags ys with
  | nil =>
    cases run
    simp [dealt]
  | cons k l ih =>
    rw [List.mapM_cons] at run
    obtain ⟨y, between, first, run⟩ := ok_of_bind run
    obtain ⟨rest, after, others, run⟩ := ok_of_bind run
    cases run
    obtain ⟨last, drawn⟩ := h tags y between first
    obtain ⟨last', drawn'⟩ := ih others
    rw [last] at last' drawn'
    refine ⟨by rw [last']; simp [add_assoc, add_comm], ?_⟩
    have more : List.replicate (k :: l).length f = [f] ++ List.replicate l.length f := rfl
    rw [more, dealt_append]
    exact drawn.append drawn'

theorem draws_cutPieces (length : ℕ) (pieces : List Expr) :
    (cutPieces "substring" length pieces).draws = pieces.flatMap Expr.draws := by
  cases pieces with
  | nil => simp [cutPieces, Expr.draws, Expr.drawsOfAll, drawOf, drawFunctions, Expr.null, Expr.nat,
      Expr.int]
  | cons first rest =>
    simp [cutPieces, Expr.draws, Expr.drawsOfAll, drawOf, drawFunctions, Expr.nat, Expr.int,
      Expr.draws_chain]

theorem run_piecesOf {length : ℕ} {piece : ℕ → Tagged Expr} {tags tags' : Tags} {ys : List Expr}
    (run : (piecesOf length piece).run tags = .ok (ys, tags')) : ∃ n,
      pieceCount length 32 = .ok n ∧ ((List.range n).mapM piece).run tags = .ok (ys, tags') := by
  obtain ⟨n, between, counted, sized⟩ := ok_of_bind run
  obtain ⟨hn, rfl⟩ := ok_of_lift counted
  obtain ⟨_, after, small, pieced⟩ := ok_of_bind sized
  obtain ⟨_, rfl⟩ := ok_of_lift small
  exact ⟨n, hn, pieced⟩

theorem deals_randomText {length : ℕ} (some : length ≠ 0) :
    Deals (randomTextExpr (.of .clickhouse) length) ((randomText length).drawn now) := by
  refine .bind fun e he => ?_
  cases he
  intro tags y tags' run
  obtain ⟨pieces, between, pieced, cut⟩ := ok_of_bind run
  cases cut
  obtain ⟨n, counted, each⟩ := run_piecesOf pieced
  have piece : Deals (nextTag >>= fun tag => pure (undashed "replaceAll"
      (.call "toString" [.call "generateUUIDv4" [.int tag]]))) ["generateUUIDv4"] :=
    .draw fun tag => .pure rfl
  have all := draws_of_pieces piece each
  rw [List.length_range] at all
  simpa [drawn, some, counted, Except.toOption, draws_cutPieces] using all

/-- The tags of a generator go to the functions that it draws from. -/
theorem deals_compile (hrow : row.draws = []) (g : Generator) :
    Deals (g.compile (.of .clickhouse) now row) (g.drawn now) := by
  cases g with
  | sequence s => exact deals_sequence hrow s
  | intRange r => exact deals_intRange r
  | floatRange r => exact deals_floatRange r
  | randomText length =>
    by_cases none : length = 0
    · simp only [compile, drawn, none, if_true]
      exact (Has.lift fun y h => Expr.draws_literal h).deals
    · simp only [compile, none, if_false]
      exact deals_randomText none
  | choice values => exact deals_choice values
  | choiceByLookup values => exact deals_choiceByLookup values
  | constant v => exact (Has.lift fun y h => Expr.draws_literal h).deals
  | span s => exact deals_span s
  | uuid => exact deals_uuid
  | other kind =>
    intro tags y tags' run
    cases run

end Generator

end SyntheticRows
