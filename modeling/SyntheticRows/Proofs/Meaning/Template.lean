import SyntheticRows.Proofs.Meaning.Denotes
import SyntheticRows.Proofs.Pairing

/-!
# Templates mean what they say

The expression of a template yields the texts of its pieces put together, over any way to refer to
the columns of a row.
-/
namespace SyntheticRows
open Sql

namespace Template

variable {d : Dialect} {columns : List Value} {ref : Value → Except Error Expr}

theorem expression_returns {table : Value} {strict : Bool} {tr : Template} {x : Expr}
    (h : Returns (tr.expression d table columns strict ref) x) :
    ∃ s parts y, tr.template = .text s ∧
      List.Forall₂ (fun p e => pieceExpr d ref p = .ok e) (resolve columns (pieces s.toList))
        parts ∧
      d.concat parts = .ok y ∧ x = if tr.lowercase then d.lower y else y := by
  unfold expression at h
  cases ht : tr.template with
  | text s =>
    simp only [ht] at h
    obtain ⟨_, hs, h⟩ := Returns.of_bind h
    cases Returns.of_pure hs
    have compiled (h : Returns (do
        let parts ← (resolve columns (pieces s.toList)).mapM fun p => liftM (pieceExpr d ref p)
        let x ← d.concat parts
        return if tr.lowercase then d.lower x else x) x) :
        ∃ parts y, List.Forall₂ (fun p e => pieceExpr d ref p = .ok e)
          (resolve columns (pieces s.toList)) parts ∧
          d.concat parts = .ok y ∧ x = if tr.lowercase then d.lower y else y := by
      obtain ⟨parts, hp, h⟩ := Returns.of_bind h
      obtain ⟨y, hy, h⟩ := Returns.of_bind h
      exact ⟨parts, y, (Returns.of_mapM hp).imp fun _ _ hx => Returns.of_lift hx,
        Returns.of_lift hy, Returns.of_pure h⟩
    refine ⟨s, ?_⟩
    simp only [true_and]
    by_cases hu : (unknownNames columns (pieces s.toList)).isEmpty = true
    · simp only [hu, Bool.not_true, Bool.false_eq_true, if_false] at h
      exact compiled h
    simp only [hu, Bool.not_false, if_true] at h
    obtain ⟨_, _, h⟩ := Returns.of_bind h
    by_cases hs : strict = true
    · simp only [hs, if_true] at h
      obtain ⟨_, h, _⟩ := Returns.of_bind h
      exact (Returns.of_throw h).elim
    · simp only [hs] at h
      obtain ⟨_, _, h⟩ := Returns.of_bind h
      obtain ⟨_, _, h⟩ := Returns.of_bind h
      exact compiled h
  | _ =>
    simp only [ht] at h
    obtain ⟨_, h, _⟩ := Returns.of_bind h
    exact (Returns.of_throw h).elim

section Resolve

variable {R : Rules} {row : Row}

/-- A piece with a placeholder that names no column taken as text. -/
def settled (columns : List Value) : Piece → Piece
  | .placeholder name =>
    if isColumn columns name then .placeholder name else .text (braced name)
  | .text content => .text content

/-- A piece put before others; texts that meet are put together. -/
def prepend : Piece → List Piece → List Piece
  | .text a, .text b :: more => .text (a ++ b) :: more
  | p, more => p :: more

theorem resolve_cons (p : Piece) (ps : List Piece) :
    resolve columns (p :: ps) = prepend (settled columns p) (resolve columns ps) := by
  cases p <;> rfl

theorem pieceText_settled (p : Piece) :
    pieceText R columns row (settled columns p) = pieceText R columns row p := by
  cases p with
  | text content => rfl
  | placeholder name =>
    by_cases hc : isColumn columns name = true <;> simp [settled, pieceText, hc]

theorem joined_prepend (p : Piece) (ps : List Piece) :
    joined ((prepend p ps).map (pieceText R columns row)) =
      joined ((p :: ps).map (pieceText R columns row)) := by
  unfold prepend
  split
  · rename_i a b more
    simp only [List.map_cons, joined, pieceText, Option.bind_some, String.ofList_append]
    cases joined (more.map (pieceText R columns row)) <;> simp [String.append_assoc]
  · rfl

/-- Putting texts together that meet does not change what a template stands for. -/
theorem joined_resolve (ps : List Piece) :
    joined ((resolve columns ps).map (pieceText R columns row)) =
      joined (ps.map (pieceText R columns row)) := by
  induction ps with
  | nil => rfl
  | cons p ps ih =>
    rw [resolve_cons, joined_prepend, List.map_cons, List.map_cons, joined, joined, ih,
      pieceText_settled]

/-- The placeholders that are left are those that name columns. -/
theorem mem_resolve {ps : List Piece} {name : List Char} :
    .placeholder name ∈ resolve columns ps ↔
      .placeholder name ∈ ps ∧ isColumn columns name = true := by
  have prepended (p : Piece) (more : List Piece) :
      .placeholder name ∈ prepend p more ↔ .placeholder name ∈ p :: more := by
    unfold prepend
    split <;> simp
  have one (p : Piece) : .placeholder name = settled columns p ↔
      .placeholder name = p ∧ isColumn columns name = true := by
    cases p with
    | text content => simp [settled]
    | placeholder other =>
      by_cases hc : isColumn columns other = true
      · simp only [settled, hc, if_true, Piece.placeholder.injEq]
        constructor
        · rintro rfl; exact ⟨rfl, hc⟩
        · exact And.left
      · simp only [settled, hc, Piece.placeholder.injEq]
        constructor
        · rintro ⟨⟩
        · rintro ⟨rfl, h⟩; exact (hc h).elim
  induction ps with
  | nil => simp [resolve]
  | cons p ps ih =>
    simp only [resolve_cons, prepended, List.mem_cons, ih, one, or_and_right]

theorem mem_reads {text : List Char} {name : String} :
    name ∈ reads columns text ↔
      ∃ cs, .placeholder cs ∈ resolve columns (pieces text) ∧ String.ofList cs = name := by
  simp only [reads, List.mem_filterMap, mem_resolve]
  constructor
  · rintro ⟨p, hp, hn⟩
    cases p with
    | text content => simp at hn
    | placeholder cs =>
      simp only [Option.ite_none_right_eq_some, Option.some.injEq] at hn
      exact ⟨cs, ⟨hp, hn.1⟩, hn.2⟩
  · rintro ⟨cs, ⟨hp, hc⟩, rfl⟩
    exact ⟨_, hp, by simp [hc]⟩

end Resolve

section Meaning

variable {R : Rules} {env : Env} {row : Row}

theorem literal_denotes {s : String} {x : Expr} (h : d.literal (.text s) = .ok x) :
    Denotes R env x (some (.text s)) := by
  obtain ⟨_, _, h⟩ := except_ok_of_bind h
  obtain ⟨l, hl, h⟩ := except_ok_of_bind h
  cases h
  simp only [Literal.ofValue, Literal.ofText] at hl
  split at hl
  · cases hl
    exact .literal _
  · unfold refuse at hl
    obtain ⟨_, _, hl⟩ := except_ok_of_bind hl
    cases hl

theorem ofText?_text? (x : Datum) : Datum.ofText? (R.text? x) = R.onText .text x := by
  cases x <;> rfl

theorem textCast_denotes {x : Expr} {o : Option Datum} (d : Dialect) (h : Denotes R env x o) :
    Denotes R env (d.textCast x) (o.map fun u => .ofText? (R.text? u)) := by
  have known : (o.bind fun u => some (R.onText .text u)) =
      o.map fun u => .ofText? (R.text? u) := by
    cases o <;> simp [ofText?_text?]
  rw [← known]
  unfold Dialect.textCast
  split
  · exact Denotes.call₁ (g := .toText) rfl h
  · exact Denotes.cast (k := .toText) rfl h
  · exact Denotes.cast (k := .toText) rfl h

/-- Texts put together from the left, where each part yields a text or null. -/
theorem chain_denotes {first : Expr} {rest : List Expr} {p : Option String}
    {ps : List (Option String)} (hf : Denotes R env first (some (.ofText? p)))
    (hr : List.Forall₂ (fun x p => Denotes R env x (some (.ofText? p))) rest ps) :
    Denotes R env (Expr.chain .concat first rest) (some (.ofText? (joined (p :: ps)))) := by
  induction hr generalizing first p with
  | nil =>
    refine hf.congr ?_
    cases p <;> simp [joined]
  | @cons x q rest ps hx _ ih =>
    have two : R.operate .concat (.ofText? p) (.ofText? q) =
        some (.ofText? (p.bind fun s => q.map (s ++ ·))) := by
      cases p <;> cases q <;> simp [Datum.ofText?, Rules.operate, R.toText_text]
    refine (ih (Denotes.binary_some .concat hf hx two)).congr ?_
    cases p <;> cases q <;> simp [joined]
    cases joined ps <;> simp [String.append_assoc]

theorem chain_denotes_none {first : Expr} {rest : List Expr}
    (h : ∃ x ∈ first :: rest, Denotes R env x none) :
    Denotes R env (Expr.chain .concat first rest) none := by
  induction rest generalizing first with
  | nil =>
    obtain ⟨y, hy, hn⟩ := h
    rw [List.mem_singleton] at hy
    exact hy ▸ hn
  | cons x rest ih =>
    apply ih
    obtain ⟨y, hy, hn⟩ := h
    simp only [List.mem_cons] at hy
    rcases hy with rfl | rfl | hy
    · exact ⟨_, List.mem_cons_self, .binary_none_left _ _ hn⟩
    · exact ⟨_, List.mem_cons_self, .binary_none_right _ _ hn⟩
    · exact ⟨y, List.mem_cons_of_mem _ hy, hn⟩

theorem concat_denotes {parts : List Expr} {ps : List (Option String)} {y : Expr}
    (hp : List.Forall₂ (fun x p => Denotes R env x (some (.ofText? p))) parts ps)
    (hy : d.concat parts = .ok y) : Denotes R env y (some (.ofText? (joined ps))) := by
  cases hp with
  | nil => exact literal_denotes hy
  | cons hf hr =>
    cases hy
    exact chain_denotes hf hr

theorem concat_denotes_none {parts : List Expr} {y : Expr}
    (h : ∃ x ∈ parts, Denotes R env x none) (hy : d.concat parts = .ok y) :
    Denotes R env y none := by
  cases parts with
  | nil => simp at h
  | cons first rest =>
    cases hy
    exact chain_denotes_none h

theorem lower_denotes {x : Expr} {o : Option Datum} (h : Denotes R env x o) :
    Denotes R env (d.lower x) (o.map (R.onText fun s => .text (R.lower s))) := by
  have builtin : Builtin.ofName? (if d = .of .clickhouse then "lowerUTF8" else "lower") =
      some .lower := by
    split <;> rfl
  refine (Denotes.call₁ builtin h).congr ?_
  cases o <;> rfl

theorem pieceExpr_denotes (href : ∀ c e, ref (.text c) = .ok e → Denotes R env e (row c))
    {p : Piece} {e : Expr} (h : pieceExpr d ref p = .ok e) :
    Denotes R env e (match p with
      | .text content => some (.text (String.ofList content))
      | .placeholder name => (row (String.ofList name)).map fun x => .ofText? (R.text? x)) := by
  cases p with
  | text content => exact literal_denotes h
  | placeholder name =>
    obtain ⟨x, hx, h⟩ := except_ok_of_bind h
    cases h
    exact textCast_denotes d (href _ _ hx)

/-- The expression of a template yields its content, if the columns that it reads are there, and
otherwise nothing. -/
theorem expression_denotes {table : Value} {strict : Bool} {tr : Template} {x : Expr}
    (href : ∀ c e, ref (.text c) = .ok e → Denotes R env e (row c))
    (h : Returns (tr.expression d table columns strict ref) x) :
    ∃ s, tr.template = .text s ∧
      ((∀ name ∈ reads columns s.toList, (row name).isSome) →
        Denotes R env x (some (content R columns row tr.lowercase s.toList))) ∧
      ((∃ name ∈ reads columns s.toList, row name = none) → Denotes R env x none) := by
  obtain ⟨s, parts, y, hs, hp, hy, rfl⟩ := expression_returns h
  refine ⟨s, hs, fun all => ?_, fun missing => ?_⟩
  · have each : List.Forall₂ (fun x p => Denotes R env x (some (.ofText? p))) parts
        ((resolve columns (pieces s.toList)).map (pieceText R columns row)) := by
      have there : ∀ p ∈ resolve columns (pieces s.toList), ∀ cs, p = .placeholder cs →
          isColumn columns cs = true ∧ (row (String.ofList cs)).isSome := by
        rintro _ hp cs rfl
        exact ⟨(mem_resolve.1 hp).2, all _ (mem_reads.2 ⟨cs, hp, rfl⟩)⟩
      rw [List.forall₂_map_right_iff]
      refine ((List.forall₂_and_left _ _).2 ⟨there, hp⟩).flip.imp fun e p h => ?_
      refine (pieceExpr_denotes href h.2).congr ?_
      cases p with
      | text content => rfl
      | placeholder cs =>
        obtain ⟨hc, hs⟩ := h.1 cs rfl
        obtain ⟨x, hx⟩ := Option.isSome_iff_exists.1 hs
        simp [pieceText, hc, hx]
    have whole := concat_denotes each hy
    rw [joined_resolve] at whole
    unfold content
    generalize joined ((pieces s.toList).map (pieceText R columns row)) = text at whole ⊢
    cases tr.lowercase with
    | false => simpa using whole
    | true =>
      refine (lower_denotes whole).congr ?_
      cases text <;> simp [Datum.ofText?, Rules.onText, R.toText_text]
  · have one : ∃ x ∈ parts, Denotes R env x none := by
      obtain ⟨name, hn, hr⟩ := missing
      obtain ⟨cs, hcs, rfl⟩ := mem_reads.1 hn
      obtain ⟨e, he, hx⟩ := partner_right hp hcs
      exact ⟨e, he, (pieceExpr_denotes href hx).congr (by simp [hr])⟩
    have none := concat_denotes_none one hy
    cases tr.lowercase with
    | false => exact none
    | true => exact lower_denotes none

end Meaning

end Template
end SyntheticRows
