import SyntheticRows.Proofs.Compile.Batch

/-!
# What rebuilds are put together from

The statement that fills the shadow table of a rebuild, taken apart. Whatever compiles it also
compiles the statement that creates the shadow.
-/
namespace SyntheticRows
open Sql

namespace Target

variable {t : Target} {shadow : Value} {scope : Scope} {transformations : List Transformation}
  {st : Statement}

/-- The entry of a column that is copied as it is. -/
def Copied (t : Target) (found : List (Value × Expr)) (column : Value)
    (found' : List (Value × Expr)) : Prop :=
  ∃ x, t.sourceRef column = .ok x ∧ found' = Value.insertEntry column x found

theorem populateShadow_returns (h : Returns (t.populateShadow shadow scope transformations) st) :
    t.rebuilding = .ok () ∧ ∃ start draft values path columns table,
      Folded t.Copied [] scope.columns start ∧
      Folded (fun d a d' => Returns (t.rebuildStep scope d a.2 a.1) d')
        { expressions := start } transformations.zipIdx draft ∧
      List.Forall₂ (fun c v => (draft.expressions.find? (c.same ·.1)).map Prod.snd = some v)
        scope.columns values ∧
      t.tableRef shadow = .ok path ∧
      List.Forall₂ (fun c i => t.ident c = .ok i) scope.columns columns ∧
      t.tableRef scope.table = .ok table ∧
      st = .rebuild {
        table, shadow := path, columns, values, draws := draft.draws, joins := draft.joins } := by
  unfold populateShadow at h
  obtain ⟨_, hr, h⟩ := Returns.of_bind h
  obtain ⟨start, hs, h⟩ := Returns.of_bind h
  obtain ⟨draft, hd, h⟩ := Returns.of_bind h
  obtain ⟨values, hv, h⟩ := Returns.of_bind h
  obtain ⟨path, hp, h⟩ := Returns.of_bind h
  obtain ⟨columns, hc, h⟩ := Returns.of_bind h
  obtain ⟨table, ht, h⟩ := Returns.of_bind h
  refine ⟨Returns.of_lift hr, start, draft, values, path, columns, table, ?_,
    Returns.of_foldlM hd, ?_, Returns.of_lift hp, ?_, Returns.of_lift ht, Returns.of_pure h⟩
  · refine (Returns.of_foldlM hs).imp fun found c found' hx => ?_
    obtain ⟨x, hx, hf⟩ := Returns.of_bind hx
    exact ⟨x, Returns.of_lift hx, Returns.of_pure hf⟩
  · refine (Returns.of_mapM hv).imp fun c v hx => ?_
    replace hx := Returns.of_lift hx
    generalize (draft.expressions.find? (c.same ·.1)).map Prod.snd = found at hx
    cases found <;> cases hx
    rfl
  · exact (Returns.of_mapM hc).imp fun c i hi => Returns.of_lift hi

/-- What one transformation adds to a rebuild. -/
inductive Rebuilds (t : Target) (scope : Scope) (index : Nat) (d : RebuildDraft) :
    Transformation → RebuildDraft → Prop
  | template {tr : Template} {x : Expr} :
    Returns (tr.expression t.dialect scope.table scope.columns scope.strict t.sourceRef) x →
    Rebuilds t scope index d (.template tr)
      { d with expressions := Value.insertEntry tr.column x d.expressions }
  | mutation {m : Mutation} {column x : Expr} : t.sourceRef m.column = .ok column →
    m.boundExpr .clickhouse column (transformationSalt + index : Nat) = .ok x →
    Rebuilds t scope index d (.mutation m)
      { d with expressions := Value.insertEntry m.column x d.expressions }
  | lookup {l : Lookup} {j : LookupJoin} : j.label = lookupName index →
    t.ident l.lookupColumn = .ok j.key → t.ident l.fromColumn = .ok j.wanted →
    t.tableRef l.fromTable = .ok j.source → t.sourceRef l.targetColumn = .ok j.target →
    Rebuilds t scope index d (.lookup l)
      { d with
        joins := d.joins ++ [j]
        expressions :=
          Value.insertEntry l.column (.name [.bare j.label, .bare "_v"]) d.expressions }
  | exchange {s : Swap} {first second : Expr} : t.sourceRef s.column1 = .ok first →
    t.sourceRef s.column2 = .ok second → (Number.int 1).le s.probability.val = true →
    Rebuilds t scope index d (.swap s)
      { d with
        expressions :=
          Value.insertEntry s.column2 first (Value.insertEntry s.column1 second d.expressions) }
  | gated {s : Swap} {first second p : Expr} : t.sourceRef s.column1 = .ok first →
    t.sourceRef s.column2 = .ok second → (Number.int 1).le s.probability.val = false →
    Expr.ofNumber s.probability.val = .ok p →
    Rebuilds t scope index d (.swap s)
      { d with
        draws := d.draws ++ [("_swap" ++ toString index,
          Engine.unit .clickhouse ((transformationSalt + index : Nat) * 1000 + 1))]
        expressions :=
          Value.insertEntry s.column2
            (.call "if" [.less (.name [.bare "_src", .bare ("_swap" ++ toString index)]) p,
              first, second])
            (Value.insertEntry s.column1
              (.call "if" [.less (.name [.bare "_src", .bare ("_swap" ++ toString index)]) p,
                second, first]) d.expressions) }

theorem set_returns {d d' : RebuildDraft} {column : Value} {x : Expr}
    (h : d.set column x = .ok d') :
    d' = { d with expressions := Value.insertEntry column x d.expressions } := by
  unfold RebuildDraft.set at h
  split at h <;> cases h
  rfl

theorem rebuildStep_returns {d d' : RebuildDraft} {index : Nat} {tr : Transformation}
    (h : Returns (t.rebuildStep scope d index tr) d') : t.Rebuilds scope index d tr d' := by
  cases tr with
  | template tr =>
    obtain ⟨x, hx, hset⟩ := Returns.of_bind h
    rw [set_returns (Returns.of_lift hset)]
    exact .template (rowExpr_template hx)
  | mutation m =>
    obtain ⟨x, hx, hset⟩ := Returns.of_bind h
    obtain ⟨column, hc, hb⟩ := rowExpr_mutation hx
    rw [set_returns (Returns.of_lift hset)]
    exact .mutation hc hb
  | lookup l =>
    replace h := Returns.of_lift h
    obtain ⟨key, hkey, h₁⟩ := except_ok_of_bind h
    obtain ⟨wanted, hwanted, h₂⟩ := except_ok_of_bind h₁
    obtain ⟨source, hsource, h₃⟩ := except_ok_of_bind h₂
    obtain ⟨target, htarget, h₄⟩ := except_ok_of_bind h₃
    rw [set_returns h₄]
    exact .lookup (j := ⟨lookupName index, source, key, wanted, target⟩) rfl hkey hwanted hsource
      htarget
  | swap s =>
    replace h := Returns.of_lift h
    obtain ⟨first, h₁, h₃⟩ := except_ok_of_bind h
    obtain ⟨second, h₂, h₄⟩ := except_ok_of_bind h₃
    by_cases hp : (Number.int 1).le s.probability.val = true
    · simp only [hp, if_true] at h₄
      obtain ⟨d₁, hd₁, hd'⟩ := except_ok_of_bind h₄
      rw [set_returns hd', set_returns hd₁]
      exact .exchange h₁ h₂ hp
    · simp only [hp] at h₄
      obtain ⟨p, hnum, h₅⟩ := except_ok_of_bind h₄
      obtain ⟨d₁, hd₁, hd'⟩ := except_ok_of_bind h₅
      rw [set_returns hd', set_returns hd₁]
      exact .gated h₁ h₂ (by simpa using hp) hnum
  | other kind => exact (Returns.of_throw h).elim

/-- A shadow that can be filled can be created. -/
theorem createShadow_of_populateShadow
    (h : Returns (t.populateShadow shadow scope transformations) st) :
    ∃ create, t.createShadow scope.table shadow = .ok create := by
  obtain ⟨hr, _, _, _, path, _, table, _, _, _, hp, _, ht, _⟩ := populateShadow_returns h
  refine ⟨.createLike path table, ?_⟩
  simp only [createShadow, hr, hp, ht]
  rfl

end Target
end SyntheticRows
