import SyntheticRows.Proofs.Draw.Bound
import SyntheticRows.Proofs.Draw.Distinct
import SyntheticRows.Proofs.Run.CarriedAssignments

/-!
# Draws of a batch

Every transformation of a batch has a series of draws of its own, by its place among those that
are carried out together. No statement of the batch has a draw twice, and a swap's draw is taken
under one name, which the contents of both its columns go by.
-/
namespace SyntheticRows
open Sql Target

section Lists

variable {α β γ : Type} {l l' : List α} {f : α → List β}

theorem nodup_of_subperm (h : l.Subperm l') (distinct : l'.Nodup) : l.Nodup := by
  obtain ⟨m, perm, sublist⟩ := h
  exact perm.nodup_iff.1 (distinct.sublist sublist)

theorem subperm_flatMap (h : l.Subperm l') : (l.flatMap f).Subperm (l'.flatMap f) := by
  obtain ⟨m, perm, sublist⟩ := h
  exact ⟨_, perm.flatMap_right f, sublist.flatMap f⟩

/-- Setting an entry brings in what is under it, and may leave out what was there. -/
theorem Value.insertEntry_subperm {key : Value} {x : α} {found : List (Value × α)} :
    ((insertEntry key x found).flatMap (f ·.2)).Subperm (f x ++ found.flatMap (f ·.2)) := by
  induction found with
  | nil => exact .refl _
  | cons e found ih =>
    obtain ⟨k, y⟩ := e
    rw [insertEntry, List.flatMap_cons]
    split
    · exact (List.subperm_append_left _).2 (List.sublist_append_right _ _).subperm
    · rw [List.flatMap_cons]
      exact ((List.subperm_append_left _).2 ih).trans (List.perm_append_comm_assoc ..).subperm

end Lists

namespace Transformation

variable {a b : Transformation × ℕ} {l : List (Transformation × ℕ)}

/-- The draws of a transformation at a place. -/
def dealt (a : Transformation × ℕ) : List Draw :=
  SyntheticRows.dealt ((transformationSalt + a.2 : ℕ) * 1000) (List.replicate a.1.drawCount "rand")

theorem mem_dealt {d : Draw} (h : d ∈ dealt a) :
    ∃ k : ℕ, k < 3 ∧ d = ("rand", some ((transformationSalt + a.2 : ℕ) * 1000 + 1 + (k : ℤ))) := by
  obtain ⟨k, f, there, rfl⟩ := SyntheticRows.mem_dealt.1 h
  obtain ⟨small, rfl⟩ := List.getElem?_eq_some_iff.1 there
  rw [List.length_replicate] at small
  exact ⟨k, small.trans_le a.1.drawCount_le, by rw [List.getElem_replicate]⟩

/-- The series of two places are a thousand tags apart, and none is that long. -/
theorem disjoint_dealt (h : a.2 ≠ b.2) : (dealt a).Disjoint (dealt b) := by
  intro d ha hb
  obtain ⟨j, hj, rfl⟩ := mem_dealt ha
  obtain ⟨k, hk, same⟩ := mem_dealt hb
  simp only [Prod.mk.injEq, Option.some.injEq, true_and] at same
  push_cast at same
  omega

theorem nodup_dealt_all (h : (l.map Prod.snd).Nodup) : (l.flatMap dealt).Nodup :=
  List.nodup_flatMap.2
    ⟨fun _ _ => nodup_dealt, (List.pairwise_map.1 h).imp fun apart => disjoint_dealt apart⟩

end Transformation

namespace Target

variable {t : Target} {scope : Scope} {d d' draft : RebuildDraft} {tr : Transformation}
  {index : ℕ} {l : List (Transformation × ℕ)} {column : Value} {x : Expr}

theorem sourceRef_eq (h : t.sourceRef column = .ok x) :
    ∃ c, x = .name [.bare "_src", .given c] := by
  obtain ⟨c, -, h⟩ := except_ok_of_bind h
  exact ⟨c, (Except.ok.inj h).symm⟩

theorem draws_sourceRef (h : t.sourceRef column = .ok x) : x.draws = [] := by
  obtain ⟨c, rfl⟩ := sourceRef_eq h
  rfl

/-- The draws of a rebuild under construction. -/
def RebuildDraft.drawn (d : RebuildDraft) : List Draw :=
  d.draws.flatMap (·.2.draws) ++ d.expressions.flatMap (·.2.draws)

theorem drawn_insert : ({ d with expressions := Value.insertEntry column x d.expressions } :
    RebuildDraft).drawn.Subperm (x.draws ++ d.drawn) :=
  ((List.subperm_append_left _).2 Value.insertEntry_subperm).trans
    (List.perm_append_comm_assoc ..).subperm

theorem drawn_insert_quiet (h : x.draws = []) :
    ({ d with expressions := Value.insertEntry column x d.expressions } :
      RebuildDraft).drawn.Subperm d.drawn := by
  have inserted : ({ d with expressions := Value.insertEntry column x d.expressions } :
      RebuildDraft).drawn.Subperm (x.draws ++ d.drawn) := drawn_insert
  rwa [h, List.nil_append] at inserted

theorem draws_swapped {name : String} {p first second : Expr} (hp : p.draws = [])
    (h₁ : first.draws = []) (h₂ : second.draws = []) :
    (Expr.call "if" [.less (.name [.bare "_src", .bare name]) p, first, second]).draws = [] := by
  simp [Expr.draws, Expr.drawsOfAll, drawOf, drawFunctions, Expr.less, hp, h₁, h₂]

/-- A step adds the draws of its transformation, and no others. -/
theorem drawn_of_rebuilds (ht : t.dialect = .of .clickhouse)
    (h : t.Rebuilds scope index d tr d') :
    d'.drawn.Subperm (Transformation.dealt (tr, index) ++ d.drawn) := by
  cases h with
  | template hx =>
    exact drawn_insert_quiet (Template.draws_eq_nil ht (fun _ _ => draws_sourceRef) hx)
  | mutation hc hx =>
    have drawn := Mutation.draws_boundExpr (draws_sourceRef hc) hx
    rw [Transformation.dealt, Transformation.drawCount, ← drawn]
    exact drawn_insert
  | lookup => exact drawn_insert_quiet (d := { d with joins := _ }) rfl
  | exchange h₁ h₂ =>
    refine .trans ?_ (List.sublist_append_right _ _).subperm
    exact (drawn_insert_quiet (d := { d with expressions := _ }) (draws_sourceRef h₁)).trans
      (drawn_insert_quiet (draws_sourceRef h₂))
  | @gated s first second p h₁ h₂ hp hnum =>
    have dealt : Transformation.dealt (.swap s, index) =
        (Engine.unit .clickhouse ((transformationSalt + index : ℕ) * 1000 + 1)).draws := by
      rw [Transformation.dealt, Transformation.drawCount, if_neg (by simp [hp])]
      rfl
    have quiet := Expr.draws_ofNumber hnum
    have first_quiet := draws_sourceRef h₁
    have second_quiet := draws_sourceRef h₂
    refine (drawn_insert_quiet (d := { d with draws := _, expressions := _ })
      (draws_swapped quiet first_quiet second_quiet)).trans ?_
    refine (drawn_insert_quiet (d := { d with draws := _ })
      (draws_swapped quiet second_quiet first_quiet)).trans ?_
    rw [dealt, RebuildDraft.drawn, RebuildDraft.drawn, List.flatMap_append, List.append_assoc,
      List.flatMap_singleton]
    exact (List.perm_append_comm_assoc ..).subperm

/-- The draws of a rebuild are those of its transformations. -/
theorem drawn_of_rebuildsAll (ht : t.dialect = .of .clickhouse)
    (h : t.RebuildsAll scope d l draft) :
    draft.drawn.Subperm (l.flatMap Transformation.dealt ++ d.drawn) := by
  induction h with
  | nil => exact .refl _
  | @cons a l d d₁ draft ha _ ih =>
    refine ih.trans (((List.subperm_append_left _).2 (drawn_of_rebuilds ht ha)).trans ?_)
    rw [List.flatMap_cons, List.append_assoc]
    exact (List.perm_append_comm_assoc ..).subperm

theorem drawn_copied {columns : List Value} {found start : List (Value × Expr)}
    (h : Folded t.Copied found columns start) (quiet : ∀ e ∈ found, e.2.draws = []) :
    ∀ e ∈ start, e.2.draws = [] := by
  induction h with
  | nil => exact quiet
  | cons hc _ ih =>
    obtain ⟨x, hx, rfl⟩ := hc
    refine ih fun e he => ?_
    rcases Value.mem_insertEntry he with new | old
    · exact new ▸ draws_sourceRef hx
    · exact quiet e old

/-- What the columns of a table get draws no more than what was kept for all columns. -/
theorem values_subperm {columns : List Value} {entries : List (Value × Expr)} {values : List Expr}
    (distinct : columns.Nodup) (texts : ∀ c ∈ columns, ∃ n, c = .text n)
    (h : List.Forall₂ (fun c v => (entries.find? (c.same ·.1)).map Prod.snd = some v) columns
      values) :
    (values.flatMap Expr.draws).Subperm (entries.flatMap (·.2.draws)) := by
  have listed : List.Forall₂ (fun c v => c ∈ columns ∧
      (entries.find? (c.same ·.1)).map Prod.snd = some v) columns values :=
    pairing_mem h
  have each : List.Forall₂ (fun c v => ∃ e, (e ∈ entries ∧ c = e.1) ∧ e.2 = v) columns values := by
    refine listed.imp fun c v hc => ?_
    obtain ⟨there, found⟩ := hc
    obtain ⟨n, rfl⟩ := texts c there
    obtain ⟨e, he, rfl⟩ := Option.map_eq_some_iff.1 found
    have same := List.find?_some he
    exact ⟨e, ⟨List.mem_of_find?_eq_some he, Value.text_same.1 same⟩, rfl⟩
  obtain ⟨kept, forward, backward⟩ := pairing_comp.1 each
  have keys : columns = kept.map Prod.fst := by
    rw [← List.forall₂_eq_eq_eq, List.forall₂_map_right_iff]
    exact forward.imp fun _ _ he => he.2
  have contents : kept.map Prod.snd = values := by
    rw [← List.forall₂_eq_eq_eq, List.forall₂_map_left_iff]
    exact backward
  have among : kept ⊆ entries := fun e he => by
    obtain ⟨c, -, there, -⟩ := partner_left forward he
    exact there
  rw [← contents, List.flatMap_map]
  exact subperm_flatMap ((List.Nodup.of_map _ (keys ▸ distinct)).subperm among)

end Target

section Statements

/-- All draws of the expressions are different, and each of them has a tag. -/
def DrawApart (xs : List Expr) : Prop :=
  (xs.flatMap Expr.draws).Nodup ∧ ∀ d ∈ xs.flatMap Expr.draws, ∃ tag, d = ("rand", some tag)

/-- An expression draws only if a mutation binds its draws there. -/
def BindsDraws (trs : List Transformation) (x : Expr) : Prop :=
  x.draws = [] ∨ ∃ m column, .mutation m ∈ trs ∧ m.WellBound column x

theorem BindsDraws.mono {trs trs' : List Transformation} {x : Expr} (h : BindsDraws trs x)
    (sub : trs ⊆ trs') : BindsDraws trs' x := by
  refine h.imp_right ?_
  rintro ⟨m, column, there, bound⟩
  exact ⟨m, column, sub there, bound⟩

variable {t : Target} {scope : Scope} {b : Batch} {actions : List Action} {u : Update}
  {trs : List Transformation} {start : List (Value × Expr)} {draft : RebuildDraft} {r : Rebuild}

theorem drawApart_of_subperm {l : List (Transformation × ℕ)} {xs : List Expr}
    (h : (xs.flatMap Expr.draws).Subperm (l.flatMap Transformation.dealt))
    (distinct : (l.map Prod.snd).Nodup) : DrawApart xs := by
  refine ⟨nodup_of_subperm h (Transformation.nodup_dealt_all distinct), fun d hd => ?_⟩
  obtain ⟨a, -, hd⟩ := List.mem_flatMap.1 (h.subset hd)
  obtain ⟨k, -, rfl⟩ := Transformation.mem_dealt hd
  exact ⟨_, rfl⟩

/-- The draws of what ClickHouse updates in place. -/
theorem draws_of_rowExpr {tr : Transformation} {index : ℕ} {x : Expr}
    (ht : t.dialect = .of .clickhouse)
    (h : Returns (t.rowExpr scope t.plainRef (transformationSalt + index : ℕ) tr) x) :
    x.draws = Transformation.dealt (tr, index) ∧ BindsDraws [tr] x := by
  have plain {v : Value} {y : Expr} (hv : t.plainRef v = .ok y) : ∃ c, y = .name [.given c] := by
    obtain ⟨c, -, hv⟩ := except_ok_of_bind hv
    exact ⟨c, (Except.ok.inj hv).symm⟩
  cases tr with
  | template tr =>
    have quiet (v : Value) (y : Expr) (hv : t.plainRef v = .ok y) : y.draws = [] := by
      obtain ⟨c, rfl⟩ := plain hv
      rfl
    have none := Template.draws_eq_nil ht quiet (rowExpr_template h)
    exact ⟨none, .inl none⟩
  | mutation m =>
    obtain ⟨column, hc, hx⟩ := rowExpr_mutation h
    obtain ⟨c, rfl⟩ := plain hc
    exact ⟨Mutation.draws_boundExpr rfl hx,
      .inr ⟨m, _, List.mem_singleton_self _, Mutation.wellBound_of_boundExpr rfl hx⟩⟩
  | lookup l => exact (Returns.of_throw h).elim
  | swap s => exact (Returns.of_throw h).elim
  | other kind => exact (Returns.of_throw h).elim

theorem drawApart_of_clickhouseActions (ht : t.dialect = .of .clickhouse)
    (h : Returns (t.clickhouseActions scope b) actions) (hu : .run (.update u) ∈ actions) :
    DrawApart (u.assignments.map Prod.snd) ∧
      ∀ x ∈ u.assignments.map Prod.snd, BindsDraws b.active x := by
  obtain ⟨_, assignments, paired, passes, hpasses, hactions⟩ := clickhouseActions_returns h
  have same : u.assignments = assignments := by
    rcases hpasses with ⟨_, rfl⟩ | ⟨_, rfl⟩ <;>
      rcases hactions with ⟨_, rfl⟩ | ⟨_, table, _, rfl⟩ <;> simp at hu
    all_goals rw [hu]
  rw [same]
  have each := paired.imp fun m a ha => draws_of_rowExpr ht ha.2
  constructor
  · refine drawApart_of_subperm (l := updatedPart scope b) ?_ ?_
    · rw [List.flatMap_map]
      exact (perm_flatMap_of_pairing (each.imp fun m a ha => .of_eq ha.1)).subperm
    · exact indices_nodup List.filter_sublist
  · intro x hx
    obtain ⟨a, ha, rfl⟩ := List.mem_map.1 hx
    obtain ⟨m, hm, -, binds⟩ := partner_left each ha
    have active : m.1 ∈ b.active := List.fst_mem_of_mem_zipIdx (List.mem_of_mem_filter hm)
    exact binds.mono (by simpa using active)

/-- What a step keeps for the columns draws only where a mutation binds its draws. -/
theorem bindsDraws_of_rebuilds {d d' : RebuildDraft} {tr : Transformation} {index : ℕ}
    (ht : t.dialect = .of .clickhouse) (h : t.Rebuilds scope index d tr d') (there : tr ∈ trs)
    (before : ∀ e ∈ d.expressions, BindsDraws trs e.2) :
    ∀ e ∈ d'.expressions, BindsDraws trs e.2 := by
  have kept {column : Value} {x : Expr} {found : List (Value × Expr)} (hx : BindsDraws trs x)
      (hfound : ∀ e ∈ found, BindsDraws trs e.2) :
      ∀ e ∈ Value.insertEntry column x found, BindsDraws trs e.2 := by
    intro e he
    rcases Value.mem_insertEntry he with new | old
    · exact new ▸ hx
    · exact hfound e old
  cases h with
  | template hx =>
    exact kept (.inl (Template.draws_eq_nil ht (fun _ _ => draws_sourceRef) hx)) before
  | mutation hc hx =>
    obtain ⟨c, rfl⟩ := sourceRef_eq hc
    exact kept (.inr ⟨_, _, there, Mutation.wellBound_of_boundExpr rfl hx⟩) before
  | lookup => exact kept (.inl rfl) before
  | exchange h₁ h₂ =>
    exact kept (.inl (draws_sourceRef h₁)) (kept (.inl (draws_sourceRef h₂)) before)
  | gated h₁ h₂ _ hnum =>
    have quiet := Expr.draws_ofNumber hnum
    have first_quiet := draws_sourceRef h₁
    have second_quiet := draws_sourceRef h₂
    exact kept (.inl (draws_swapped quiet first_quiet second_quiet))
      (kept (.inl (draws_swapped quiet second_quiet first_quiet)) before)

theorem bindsDraws_of_rebuildsAll {d : RebuildDraft} {l : List (Transformation × ℕ)}
    (ht : t.dialect = .of .clickhouse) (h : t.RebuildsAll scope d l draft)
    (there : ∀ a ∈ l, a.1 ∈ trs) (before : ∀ e ∈ d.expressions, BindsDraws trs e.2) :
    ∀ e ∈ draft.expressions, BindsDraws trs e.2 := by
  induction h with
  | nil => exact before
  | cons ha _ ih =>
    exact ih (fun a hb => there a (List.mem_cons_of_mem _ hb))
      (bindsDraws_of_rebuilds ht ha (there _ List.mem_cons_self) before)

theorem Sql.Rebuild.Drafted.drawApart (h : r.Drafted t scope trs start draft)
    (ht : t.dialect = .of .clickhouse) (distinct : scope.columns.Nodup) :
    DrawApart (r.draws.map Prod.snd ++ r.values) ∧ ∀ x ∈ r.values, BindsDraws trs x := by
  have copied := drawn_copied h.copied (by simp)
  have texts (c : Value) (hc : c ∈ scope.columns) : ∃ n, c = .text n := by
    obtain ⟨i, -, hi⟩ := partner_right h.columns hc
    exact ⟨_, ident_text hi⟩
  have nothing : start.flatMap (·.2.draws) = [] := List.flatMap_eq_nil_iff.2 copied
  have drawn := drawn_of_rebuildsAll ht h.rebuilt
  constructor
  · refine drawApart_of_subperm (l := trs.zipIdx) ?_ (indices_nodup (.refl _))
    rw [List.flatMap_append, List.flatMap_map, h.draws]
    refine ((List.subperm_append_left _).2 (values_subperm distinct texts h.values)).trans ?_
    simpa [RebuildDraft.drawn, nothing] using drawn
  · intro x hx
    obtain ⟨c, -, found⟩ := partner_left h.values hx
    obtain ⟨e, he, rfl⟩ := Option.map_eq_some_iff.1 found
    exact bindsDraws_of_rebuildsAll ht h.rebuilt (fun a ha => List.fst_mem_of_mem_zipIdx ha)
      (fun e he => .inl (copied e he)) e (List.mem_of_find?_eq_some he)

/-- A swap that is carried out for the rows with a low draw. -/
def Transformation.isGated : Transformation → Bool
  | .swap s => !(Number.int 1).le s.probability.val
  | _ => false

/-- The name that a swap's draw is taken under. -/
def swapName (index : ℕ) : String := "_swap" ++ toString index

/-- The content that a swap gives to a column: by its draw, it is that of the other column or
stays. Both columns go by one condition. -/
def GivenBySwap (t : Target) (s : Swap) (index : ℕ) (n : String) (x : Expr) : Prop :=
  ∃ p first second condition, Expr.ofNumber s.probability.val = .ok p ∧
    t.sourceRef s.column1 = .ok first ∧ t.sourceRef s.column2 = .ok second ∧
    condition = .less (.name [.bare "_src", .bare (swapName index)]) p ∧
    (s.column1 = .text n ∧ x = .call "if" [condition, second, first] ∨
      s.column2 = .text n ∧ x = .call "if" [condition, first, second])

/-- Each swap that needs one takes one draw, under a name of its own, and its columns go by this
draw as long as nothing after it assigns them. -/
structure Sql.Rebuild.SwapsByDraw (t : Target) (trs : List Transformation) (r : Rebuild) :
    Prop where
  names : r.draws.map Prod.fst =
    (trs.zipIdx.filter (·.1.isGated)).map fun a => swapName a.2
  once : (r.draws.map Prod.fst).Nodup
  shared : ∀ (i : ℕ) s, trs[i]? = some (.swap s) → (Transformation.swap s).isGated = true →
    ∀ n ∈ (Transformation.swap s).assigned,
      n ∉ (trs.drop (i + 1)).flatMap Transformation.assigned →
      ∀ k : ℕ, (r.columns.map Ident.name)[k]? = some n →
        ∃ x, r.values[k]? = some x ∧ GivenBySwap t s i n x

section Swaps

variable {d d' : RebuildDraft} {l l' : List (Transformation × ℕ)} {index : ℕ} {n : String}

theorem draws_names_of_rebuilds {tr : Transformation} (h : t.Rebuilds scope index d tr d') :
    d'.draws.map Prod.fst =
      d.draws.map Prod.fst ++ if tr.isGated then [swapName index] else [] := by
  cases h with
  | exchange _ _ hp => simp [Transformation.isGated, hp]
  | gated _ _ hp _ => simp [Transformation.isGated, hp, swapName]
  | _ => simp [Transformation.isGated]

theorem draws_names_of_rebuildsAll (h : t.RebuildsAll scope d l draft) :
    draft.draws.map Prod.fst =
      d.draws.map Prod.fst ++ (l.filter (·.1.isGated)).map fun a => swapName a.2 := by
  induction h with
  | nil => simp
  | @cons a l d d₁ draft ha _ ih =>
    rw [ih, draws_names_of_rebuilds ha, List.filter_cons]
    cases a.1.isGated <;> simp

/-- A swap gives both of its columns a content that goes by its draw. -/
theorem entry_of_gated {s : Swap} (h : t.Rebuilds scope index d (.swap s) d')
    (gated : (Transformation.swap s).isGated = true)
    (hn : n ∈ (Transformation.swap s).assigned) :
    ∃ x, d'.entry n = some x ∧ GivenBySwap t s index n x := by
  cases h with
  | exchange _ _ hp => simp [Transformation.isGated, hp] at gated
  | @gated s first second p h₁ h₂ hp hnum =>
    simp only [RebuildDraft.entry, Value.find_insertEntry]
    by_cases second_column : (Value.text n).same s.column2 = true
    · rw [if_pos second_column]
      exact ⟨_, rfl, p, first, second, _, hnum, h₁, h₂, rfl,
        .inr ⟨(Value.text_same.1 second_column).symm, rfl⟩⟩
    · have first_column : (Value.text n).same s.column1 = true := by
        simp only [Transformation.assigned, Transformation.assignedColumns,
          Transformation.mem_names, List.mem_cons, List.not_mem_nil, or_false] at hn
        rcases hn with here | here
        · exact Value.text_same.2 here
        · exact (second_column (Value.text_same.2 here)).elim
      rw [if_neg second_column, if_pos first_column]
      exact ⟨_, rfl, p, first, second, _, hnum, h₁, h₂, rfl,
        .inl ⟨(Value.text_same.1 first_column).symm, rfl⟩⟩

theorem entry_of_later {s : Swap} (h : t.RebuildsAll scope d (l ++ (.swap s, index) :: l') draft)
    (gated : (Transformation.swap s).isGated = true)
    (hn : n ∈ (Transformation.swap s).assigned)
    (later : n ∉ (l'.map Prod.fst).flatMap Transformation.assigned) :
    ∃ x, draft.entry n = some x ∧ GivenBySwap t s index n x := by
  obtain ⟨d₁, -, h⟩ := Folded.append_iff.1 h
  obtain ⟨d₂, step, rest⟩ := Folded.cons_iff.1 h
  rw [entry_of_unassigned rest later]
  exact entry_of_gated step gated hn

end Swaps

theorem Sql.Rebuild.Drafted.swapsByDraw (h : r.Drafted t scope trs start draft) :
    r.SwapsByDraw t trs := by
  have names : r.draws.map Prod.fst =
      (trs.zipIdx.filter (·.1.isGated)).map fun a => swapName a.2 := by
    rw [h.draws, draws_names_of_rebuildsAll h.rebuilt]
    rfl
  refine ⟨names, names ▸ nodup_numbered "_swap" List.filter_sublist, ?_⟩
  intro i s there gated n hn later k hk
  obtain ⟨hi, hs⟩ := List.getElem?_eq_some_iff.1 there
  have parts : trs.zipIdx =
      (trs.take i).zipIdx ++ (.swap s, i) :: (trs.drop (i + 1)).zipIdx (i + 1) := by
    conv_lhs => rw [← List.take_append_drop i trs, List.drop_eq_getElem_cons hi, hs]
    rw [List.zipIdx_append, List.zipIdx_cons, List.length_take, Nat.zero_add, min_eq_left hi.le]
  have rebuilt := h.rebuilt
  rw [parts] at rebuilt
  obtain ⟨x, entry, given⟩ := entry_of_later rebuilt gated hn (by rwa [List.zipIdx_map_fst])
  exact ⟨x, (h.value_at hk).trans entry, given⟩

/-- No statement for a batch has a draw twice, and the draws of a mutation and of a swap are read
as they are meant: those of a mutation from places of their own in the list that binds them, that
of a swap under its name by both of its columns. Where a batch is accepted, nothing assigns a
swap's columns after it. -/
theorem draws_apart_of_batch (ht : t.dialect = .of .clickhouse) (distinct : scope.columns.Nodup) :
    (∀ actions u, Returns (t.clickhouseActions scope b) actions → .run (.update u) ∈ actions →
      DrawApart (u.assignments.map Prod.snd) ∧
        ∀ x ∈ u.assignments.map Prod.snd, BindsDraws b.active x) ∧
    (∀ shadow trs st, Returns (t.populateShadow shadow scope trs) st → ∃ r, st = .rebuild r ∧
      DrawApart (r.draws.map Prod.snd ++ r.values) ∧ (∀ x ∈ r.values, BindsDraws trs x) ∧
      r.SwapsByDraw t trs) ∧
    (b.checkAssignments scope.table = .ok () → ∀ shadow r,
      Returns (t.populateShadow shadow scope (rebuiltPart scope b)) (.rebuild r) →
      ∀ (i : ℕ) s, (rebuiltPart scope b)[i]? = some (.swap s) →
        (Transformation.swap s).isGated = true → ∀ n ∈ (Transformation.swap s).assigned,
        .text n ∈ scope.columns → ∃ (k : ℕ) (x : Expr),
          (r.columns.map Ident.name)[k]? = some n ∧ r.values[k]? = some x ∧
          GivenBySwap t s i n x) := by
  refine ⟨fun actions u h hu => drawApart_of_clickhouseActions ht h hu, fun shadow trs st h => ?_,
    fun accepted shadow r h i s there gated n hn column => ?_⟩
  · obtain ⟨start, draft, r, rfl, drafted, -⟩ := drafted_of_populateShadow h
    obtain ⟨apart, binds⟩ := drafted.drawApart ht distinct
    exact ⟨r, rfl, apart, binds, drafted.swapsByDraw⟩
  · obtain ⟨start, draft, r', same, drafted, -⟩ := drafted_of_populateShadow h
    cases same
    obtain ⟨k, hk⟩ := List.mem_iff_getElem?.1 (drafted.mem_columns.2 column)
    have once : ((rebuiltPart scope b).flatMap Transformation.assigned).Nodup :=
      (nodup_of_parts (Batch.assigned_nodup accepted)).1
    have later : n ∉ ((rebuiltPart scope b).drop (i + 1)).flatMap Transformation.assigned := by
      rw [← List.take_append_drop (i + 1) (rebuiltPart scope b), List.flatMap_append] at once
      obtain ⟨hi, hs⟩ := List.getElem?_eq_some_iff.1 there
      have among : .swap s ∈ (rebuiltPart scope b).take (i + 1) :=
        List.mem_take_iff_getElem.2 ⟨i, by omega, hs⟩
      exact List.disjoint_of_nodup_append once (List.mem_flatMap.2 ⟨_, among, hn⟩)
    obtain ⟨x, hx, given⟩ := drafted.swapsByDraw.shared i s there gated n hn later k hk
    exact ⟨k, x, hk, hx, given⟩

def suiteTarget : Target := { dialect := .of .clickhouse }

def suiteScope : Scope := ⟨.text "suites", [.text "beds", .text "rooms", .text "view"], false⟩

def suiteSwap : Swap where
  column1 := .text "rooms"
  column2 := .text "view"
  probability := ⟨.float (.ofRatio false 1 2), by decide +kernel⟩

/-- A swap, and a mutation of the sort key, which joins it in the rebuild. -/
def suiteBatch : Batch where
  transformations :=
    [.mutation (.withAllEdits (.text "beds") suiteSwap.probability), .swap suiteSwap]

/-- The rebuild for the batch draws the swap once, and both columns go by it. -/
theorem draws_apart_of_suiteBatch : suiteBatch.checkAssignments suiteScope.table = .ok () ∧ ∃ r,
    Returns (suiteTarget.populateShadow (.text "shadow") suiteScope suiteBatch.transformations)
      (.rebuild r) ∧
    r.draws.map Prod.fst = ["_swap1"] ∧ DrawApart (r.draws.map Prod.snd ++ r.values) ∧
    ∀ n ∈ ["rooms", "view"], ∃ (k : ℕ) (x : Expr), (r.columns.map Ident.name)[k]? = some n ∧
      r.values[k]? = some x ∧ GivenBySwap suiteTarget suiteSwap 1 n x := by
  have compiles : (suiteTarget.populateShadow (.text "shadow") suiteScope
      suiteBatch.transformations).result.toOption.isSome = true := by decide +kernel
  obtain ⟨st, compiled⟩ := except_ok_of_isSome compiles
  have returned := returns_of_result compiled
  have distinct : suiteScope.columns.Nodup := by simp [suiteScope]
  obtain ⟨-, rebuilt, accepted⟩ :=
    draws_apart_of_batch (t := suiteTarget) (b := suiteBatch) rfl distinct
  obtain ⟨r, rfl, apart, -, swaps⟩ := rebuilt _ _ _ returned
  refine ⟨rfl, r, returned, swaps.names, apart, fun n hn => ?_⟩
  have assigned : n ∈ (Transformation.swap suiteSwap).assigned := hn
  have column : .text n ∈ suiteScope.columns := by
    simp only [List.mem_cons, List.not_mem_nil, or_false] at hn
    rcases hn with rfl | rfl <;> simp [suiteScope]
  exact accepted rfl _ r returned 1 suiteSwap rfl (by decide +kernel) n assigned column

/-- The name of the draw that a content goes by. -/
def gateName : Expr → Option String
  | .call "if" [.binary .less (.name [.bare "_src", .bare name]) _, _, _] => some name
  | _ => none

/-- The columns that a rebuild writes, each with the draw that its content goes by. -/
def gatesOf : Statement → List (String × Option String)
  | .rebuild r => (r.columns.map Ident.name).zip (r.values.map gateName)
  | _ => []

/-- Without the check of a batch, a template may take one of a swap's columns over, and then only
the other one goes by the draw. -/
theorem unshared_draw : ¬∀ (t : Target) (scope : Scope) (trs : List Transformation)
    (st : Statement), t.dialect = .of .clickhouse →
    (t.populateShadow (.text "shadow") scope trs).result = .ok st →
    ∀ (i : ℕ) s, trs[i]? = some (.swap s) → (Transformation.swap s).isGated = true →
      ∀ n ∈ (Transformation.swap s).assigned, (n, some (swapName i)) ∈ gatesOf st := by
  intro shared
  let trs : List Transformation :=
    [.swap suiteSwap, .template { column := .text "view", template := .text "sea" }]
  have gates : (suiteTarget.populateShadow (.text "shadow") suiteScope trs).result.toOption.map
      gatesOf = some [("beds", none), ("rooms", some "_swap0"), ("view", none)] := by
    decide +kernel
  cases compiled : (suiteTarget.populateShadow (.text "shadow") suiteScope trs).result with
  | error e =>
    rw [compiled] at gates
    cases gates
  | ok st =>
    have both := shared suiteTarget suiteScope trs st rfl compiled 0 suiteSwap rfl
      (by decide +kernel) "view" (by decide +kernel)
    rw [compiled] at gates
    rw [Option.some.inj gates] at both
    exact absurd both (by decide +kernel)

end Statements
end SyntheticRows
