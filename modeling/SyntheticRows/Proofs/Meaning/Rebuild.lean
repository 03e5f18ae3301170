import SyntheticRows.Proofs.Compile.Rebuild
import SyntheticRows.Proofs.Meaning.Assignment
import SyntheticRows.Proofs.Value.Parts

/-!
# What a rebuild puts into the shadow

While a rebuild is compiled, the expressions of its columns mean a row with the contents that the
transformations so far assign. Each of them still reads the row that is copied, so in the end the
row that is put into the shadow is what all of them make of the copied row at once.
-/
namespace SyntheticRows
open Sql

variable {R : Rules} {t : Target} {scope : Target.Scope} {σ : Store} {env : Env} {row : Row}

/-- The expressions of a draft mean the contents of a row. -/
def Target.RebuildDraft.Means (R : Rules) (env : Env) (row : Row)
    (expressions : List (Value × Expr)) : Prop :=
  ∀ n x, (expressions.find? ((Value.text n).same ·.1)).map Prod.snd = some x →
    Denotes R env x (row n)

namespace Target.RebuildDraft

variable {expressions : List (Value × Expr)} {n : String} {v : Datum} {x : Expr}

theorem Means.insert (h : Means R env row expressions) (hx : Denotes R env x (some v)) :
    Means R env (row.assign [(n, v)]) (Value.insertEntry (.text n) x expressions) := by
  intro m y hy
  rw [Value.find_insertEntry] at hy
  by_cases hm : n = m
  · subst hm
    rw [if_pos (Value.text_same.2 rfl), Option.some.injEq] at hy
    exact hy ▸ hx.congr (by simp [Row.assign, entry_cons])
  · rw [if_neg (by simpa [Value.text_same] using Ne.symm hm)] at hy
    exact (h m y hy).congr (by simp [Row.assign, hm, entry])

/-- Columns that are copied mean what they are. -/
theorem Means.copied {columns : List Value} {found start : List (Value × Expr)}
    (hfound : Means R env row found) (href : Refers R env row t.sourceRef)
    (h : Folded t.Copied found columns start) : Means R env row start := by
  induction h with
  | nil => exact hfound
  | cons hc _ ih =>
    obtain ⟨x, hx, rfl⟩ := hc
    obtain ⟨name, rfl, hd⟩ := href _ _ hx
    refine ih fun m y hy => ?_
    rw [Value.find_insertEntry] at hy
    by_cases hm : name = m
    · subst hm
      rw [if_pos (Value.text_same.2 rfl), Option.some.injEq] at hy
      exact hy ▸ hd
    · rw [if_neg (by simpa [Value.text_same] using Ne.symm hm)] at hy
      exact hfound m y hy

end Target.RebuildDraft

theorem Target.lookupName_ne_source (i : ℕ) : lookupName i ≠ "_src" := by
  intro h
  have chars := congrArg String.toList h
  simp [lookupName] at chars

/-- The columns that a template reads are columns of the table. -/
theorem Template.mem_of_reads {columns : List Value} {text : List Char} {n : String}
    (h : n ∈ reads columns text) : .text n ∈ columns := by
  obtain ⟨p, _, hp⟩ := List.mem_filterMap.1 h
  cases p with
  | text s => cases hp
  | placeholder cs =>
    simp only [Option.ite_none_right_eq_some, Option.some.injEq] at hp
    exact hp.2 ▸ Value.memberOf_text.1 hp.1

section Wide

variable {w : Wide}

theorem refers_sourceRef
    (h : ∀ c : Ident, env.resolve [.bare "_src", .given c] = row c.name) :
    Refers R env row t.sourceRef := by
  intro v x hx
  obtain ⟨c, hc, hx⟩ := except_ok_of_bind hx
  cases hx
  exact ⟨c.name, Target.ident_text hc, (Denotes.name _).congr (h c)⟩

theorem Wide.resolve_source (c : Ident) :
    (w.env σ).resolve [.bare "_src", .given c] = w.row c.name := by
  simp [Wide.env, Wide.resolve]

/-- A row of the table that is looked up was joined. -/
def Wide.IsJoined (R : Rules) (σ : Store) (w : Wide) (j : LookupJoin) : Prop :=
  ∃ x v, Yields R (w.env σ) j.target x ∧
    Finds R σ .aggregate j.source j.key j.wanted x v ∧ entry w.joined j.label = some v

/-- A draw was bound. -/
def Wide.IsBound (R : Rules) (σ : Store) (w : Wide) (draw : String × Expr) : Prop :=
  ∃ v, entry w.bound draw.1 = some v ∧ Yields R (w.env σ) draw.2 v

open Target RebuildDraft

variable {expressions : List (Value × Expr)} {c : Chance}

theorem swap_means {s : Swap} {first second : String} {a b : Expr} {x y : Datum}
    (h₁ : s.column1 = .text first) (h₂ : s.column2 = .text second) (hx : w.row first = some x)
    (hy : w.row second = some y) (hm : Means R env row expressions)
    (ha : Denotes R env a (if c.gate < s.probability.val.toRat then some y else some x))
    (hb : Denotes R env b (if c.gate < s.probability.val.toRat then some x else some y)) :
    ∃ g, Transformation.Gives R t σ scope.columns w.row (.swap s) c g ∧
      Means R env (row.assign g)
        (Value.insertEntry s.column2 b (Value.insertEntry s.column1 a expressions)) := by
  refine ⟨_, .swap h₁ h₂ hx hy, ?_⟩
  have other : first ≠ second := by
    have distinct := s.distinct
    rw [h₁, h₂] at distinct
    simpa [Value.same] using distinct
  have split {u v : Datum} : row.assign [(first, u), (second, v)] =
      (row.assign [(first, u)]).assign [(second, v)] :=
    Row.assign_append (g := [(first, u)]) (by simpa using Ne.symm other)
  rw [h₁, h₂]
  by_cases hp : c.gate < s.probability.val.toRat
  · rw [if_pos hp] at ha hb ⊢
    rw [split]
    exact (hm.insert ha).insert hb
  · rw [if_neg hp] at ha hb ⊢
    rw [split]
    exact (hm.insert ha).insert hb

theorem swap_columns {s : Swap} {a b : Expr}
    (has : ∀ v ∈ [s.column1, s.column2], w.row.Has v) (ha : t.sourceRef s.column1 = .ok a)
    (hb : t.sourceRef s.column2 = .ok b) :
    ∃ first second x y, s.column1 = .text first ∧ s.column2 = .text second ∧
      w.row first = some x ∧ w.row second = some y ∧
      Denotes R (w.env σ) a (some x) ∧ Denotes R (w.env σ) b (some y) := by
  have href : Refers R (w.env σ) w.row t.sourceRef := refers_sourceRef Wide.resolve_source
  obtain ⟨first, h₁, hs₁⟩ := has s.column1 (by simp)
  obtain ⟨second, h₂, hs₂⟩ := has s.column2 (by simp)
  obtain ⟨x, hx⟩ := Option.isSome_iff_exists.1 hs₁
  obtain ⟨y, hy⟩ := Option.isSome_iff_exists.1 hs₂
  obtain ⟨_, h₁', d₁⟩ := href _ _ ha
  obtain ⟨_, h₂', d₂⟩ := href _ _ hb
  cases h₁.symm.trans h₁'
  cases h₂.symm.trans h₂'
  exact ⟨first, second, x, y, h₁, h₂, hx, hy, d₁.congr hx, d₂.congr hy⟩

theorem template_means {tr : Template} {x : Expr} (there : ∀ v ∈ scope.columns, w.row.Has v)
    (has : w.row.Has tr.column) (hm : Means R (w.env σ) row expressions)
    (hx : Returns (tr.expression t.dialect scope.table scope.columns scope.strict t.sourceRef) x) :
    ∃ g, Transformation.Gives R t σ scope.columns w.row (.template tr) c g ∧
      Means R (w.env σ) (row.assign g) (Value.insertEntry tr.column x expressions) := by
  have href : Refers R (w.env σ) w.row t.sourceRef := refers_sourceRef Wide.resolve_source
  obtain ⟨n, hn, hs⟩ := has
  have named (c : String) (e : Expr) (he : t.sourceRef (.text c) = .ok e) :
      Denotes R (w.env σ) e (w.row c) := by
    obtain ⟨c', hc, hd⟩ := href _ _ he
    cases hc
    exact hd
  obtain ⟨s, htext, present, _⟩ := Template.expression_denotes named hx
  have reads : ∀ name ∈ Template.reads scope.columns s.toList, (w.row name).isSome := by
    intro name hname
    obtain ⟨_, ⟨⟩, hs⟩ := there _ (Template.mem_of_reads hname)
    exact hs
  refine ⟨_, .template hn hs htext reads, ?_⟩
  rw [hn]
  exact hm.insert (present reads)

theorem mutation_means {index : ℕ} {m : Mutation} {column x : Expr} (he : R.engine = .clickhouse)
    (hc : c.IsFor .clickhouse) (tagged : (Transformation.mutation m).Tagged w.rand index c)
    (has : w.row.Has m.column) (hm : Means R (w.env σ) row expressions)
    (hcolumn : t.sourceRef m.column = .ok column)
    (hx : m.boundExpr .clickhouse column (transformationSalt + index : ℕ) = .ok x) :
    ∃ g, Transformation.Gives R t σ scope.columns w.row (.mutation m) c g ∧
      Means R (w.env σ) (row.assign g) (Value.insertEntry m.column x expressions) := by
  obtain ⟨n, hn, hs⟩ := has
  obtain ⟨u, hu⟩ := Option.isSome_iff_exists.1 hs
  have bound (v : Datum) : Denotes R ((w.env σ).bind "_r" v) column (w.row n) := by
    have inside : Refers R ((w.env σ).bind "_r" v) w.row t.sourceRef :=
      refers_sourceRef fun c => (bind_resolve (by simp)).trans (Wide.resolve_source c)
    obtain ⟨n', hn', hd⟩ := inside _ _ hcolumn
    cases hn.symm.trans hn'
    exact hd
  refine ⟨_, .mutation hn hu, ?_⟩
  rw [hn]
  refine hm.insert ?_
  exact (Mutation.boundExpr_denotes he hc tagged bound hx).congr (by rw [hu]; rfl)

/-- What a lookup assigns is read from the row that was joined for it. -/
theorem lookup_means {index : ℕ} {l : Lookup} {j : LookupJoin} (he : R.engine = .clickhouse)
    (has : w.row.Has l.column) (hm : Means R (w.env σ) row expressions)
    (hlabel : j.label = lookupName index) (hkey : t.ident l.lookupColumn = .ok j.key)
    (hwanted : t.ident l.fromColumn = .ok j.wanted)
    (hsource : t.tableRef l.fromTable = .ok j.source)
    (htarget : t.sourceRef l.targetColumn = .ok j.target) (joined : w.IsJoined R σ j) :
    ∃ g, Transformation.Gives R t σ scope.columns w.row (.lookup l) c g ∧
      Means R (w.env σ) (row.assign g)
        (Value.insertEntry l.column (.name [.bare j.label, .bare "_v"]) expressions) := by
  have href : Refers R (w.env σ) w.row t.sourceRef := refers_sourceRef Wide.resolve_source
  obtain ⟨n, hn, hs⟩ := has
  obtain ⟨x, v, hx, hfinds, hentry⟩ := joined
  obtain ⟨target, hname, hdenotes⟩ := href _ _ htarget
  have taking : R.engine.taking = .aggregate := by rw [he]; rfl
  refine ⟨_, .lookup hn hs hname ((hdenotes x).1 hx) hsource hkey hwanted (taking ▸ hfinds), ?_⟩
  rw [hn]
  refine hm.insert ((Denotes.name _).congr ?_)
  simp [Wide.env, Wide.resolve, hlabel, lookupName_ne_source, ← hentry]

/-- The draw that is bound for a swap is the one that decides it. -/
theorem gate_denotes {index : ℕ} {s : Swap}
    (tagged : (Transformation.swap s).Tagged w.rand index c)
    (uncertain : (Number.int 1).le s.probability.val = false)
    (bound : w.IsBound R σ ("_swap" ++ toString index,
      Engine.unit .clickhouse ((transformationSalt + index : ℕ) * 1000 + 1))) :
    Denotes R (w.env σ) (.name [.bare "_src", .bare ("_swap" ++ toString index)])
      (some (.number c.gate)) := by
  obtain ⟨v, hentry, hv⟩ := bound
  rw [Engine.unit_denotes _, Option.some.injEq] at hv
  have drawn : c.gate = (w.rand ((transformationSalt + index : ℕ) * 1000 + 1) : ℚ) / 2 ^ 32 := by
    simpa [Transformation.Tagged, Transformation.drawn, Transformation.drawCount, uncertain]
      using tagged
  have found : (w.env σ).resolve [.bare "_src", .bare ("_swap" ++ toString index)] =
      entry w.bound ("_swap" ++ toString index) := by
    simp [Wide.env, Wide.resolve]
  refine (Denotes.name _).congr ?_
  rw [found, hentry, ← hv, drawn]
  rfl

/-- After a step, the expressions also mean what the transformation gives. -/
theorem rebuilds_means {d d' : RebuildDraft} {index : ℕ} {tr : Transformation}
    (he : R.engine = .clickhouse) (hc : c.IsFor .clickhouse) (tagged : tr.Tagged w.rand index c)
    (there : ∀ v ∈ scope.columns, w.row.Has v)
    (hassigned : ∀ v ∈ tr.assignedColumns, v ∈ scope.columns)
    (h : t.Rebuilds scope index d tr d') (hjoins : ∀ j ∈ d'.joins, w.IsJoined R σ j)
    (hdraws : ∀ draw ∈ d'.draws, w.IsBound R σ draw)
    (hm : Means R (w.env σ) row d.expressions) :
    ∃ g, tr.Gives R t σ scope.columns w.row c g ∧
      Means R (w.env σ) (row.assign g) d'.expressions := by
  have has {v : Value} (hv : v ∈ tr.assignedColumns) : w.row.Has v := there v (hassigned v hv)
  cases h with
  | template hx => exact template_means there (has (List.mem_singleton_self _)) hm hx
  | mutation hcolumn hx =>
    exact mutation_means he hc tagged (has (List.mem_singleton_self _)) hm hcolumn hx
  | lookup hlabel hkey hwanted hsource htarget =>
    exact lookup_means he (has (List.mem_singleton_self _)) hm hlabel hkey hwanted hsource htarget
      (hjoins _ (by simp))
  | @exchange s first second hfirst hsecond hp =>
    obtain ⟨_, _, x, y, h₁, h₂, hx, hy, d₁, d₂⟩ := swap_columns @has hfirst hsecond
    have always : c.gate < s.probability.val.toRat :=
      hc.1.bounds.2.trans_le (s.probability.one_le_iff.1 hp)
    exact swap_means h₁ h₂ hx hy hm (d₂.congr (by rw [if_pos always]))
      (d₁.congr (by rw [if_pos always]))
  | @gated s first second p hfirst hsecond hp hnum =>
    obtain ⟨_, _, x, y, h₁, h₂, hx, hy, d₁, d₂⟩ := swap_columns @has hfirst hsecond
    have gate := gate_denotes tagged hp
      (hdraws _ (List.mem_append_right _ (List.mem_singleton_self _)))
    have condition := less_denotes gate (ofNumber_denotes hnum)
    refine swap_means h₁ h₂ hx hy hm ((Denotes.choose condition d₂ d₁).congr ?_)
      ((Denotes.choose condition d₁ d₂).congr ?_)
    · simp only [decide_eq_true_eq]
    · simp only [decide_eq_true_eq]

end Wide

namespace Target

/-- The join of a lookup. -/
def JoinOf (t : Target) (a : Transformation × ℕ) (j : LookupJoin) : Prop :=
  ∃ l, a.1 = .lookup l ∧ j.label = lookupName a.2 ∧ t.tableRef l.fromTable = .ok j.source ∧
    t.sourceRef l.targetColumn = .ok j.target ∧ t.ident l.lookupColumn = .ok j.key ∧
    t.ident l.fromColumn = .ok j.wanted

/-- The draw of a swap. -/
def DrawOf (a : Transformation × ℕ) (draw : String × Expr) : Prop :=
  draw.1 = "_swap" ++ toString a.2 ∧ ∃ tag, draw.2 = Engine.unit .clickhouse tag

/-- One transformation after the other, each with its index. -/
abbrev RebuildsAll (t : Target) (scope : Scope) :
    RebuildDraft → List (Transformation × ℕ) → RebuildDraft → Prop :=
  Folded fun d a d' => t.Rebuilds scope a.2 d a.1 d'

variable {l : List (Transformation × ℕ)} {d draft : RebuildDraft}

theorem joins_of_rebuilds (h : t.RebuildsAll scope d l draft) :
    ∃ as js, as.Sublist l ∧ draft.joins = d.joins ++ js ∧ List.Forall₂ t.JoinOf as js := by
  induction h with
  | nil => exact ⟨[], [], .slnil, by simp, .nil⟩
  | @cons a l d d₁ draft ha _ ih =>
    obtain ⟨as, js, hs, hjs, hall⟩ := ih
    obtain ⟨tr, index⟩ := a
    cases ha with
    | @lookup lk j hlabel hkey hwanted hsource htarget =>
      refine ⟨_ :: as, j :: js, hs.cons_cons _, by rw [hjs]; simp, .cons ?_ hall⟩
      exact ⟨lk, rfl, hlabel, hsource, htarget, hkey, hwanted⟩
    | template _ => exact ⟨as, js, hs.cons _, hjs, hall⟩
    | mutation _ _ => exact ⟨as, js, hs.cons _, hjs, hall⟩
    | exchange _ _ _ => exact ⟨as, js, hs.cons _, hjs, hall⟩
    | gated _ _ _ _ => exact ⟨as, js, hs.cons _, hjs, hall⟩

theorem draws_of_rebuilds (h : t.RebuildsAll scope d l draft) :
    ∃ as ds, as.Sublist l ∧ draft.draws = d.draws ++ ds ∧ List.Forall₂ DrawOf as ds := by
  induction h with
  | nil => exact ⟨[], [], .slnil, by simp, .nil⟩
  | @cons a l d d₁ draft ha _ ih =>
    obtain ⟨as, ds, hs, hds, hall⟩ := ih
    obtain ⟨tr, index⟩ := a
    cases ha with
    | gated _ _ _ _ =>
      exact ⟨_ :: as, _ :: ds, hs.cons_cons _, hds.trans (List.append_assoc ..),
        .cons ⟨rfl, _, rfl⟩ hall⟩
    | template _ => exact ⟨as, ds, hs.cons _, hds, hall⟩
    | mutation _ _ => exact ⟨as, ds, hs.cons _, hds, hall⟩
    | exchange _ _ _ => exact ⟨as, ds, hs.cons _, hds, hall⟩
    | lookup _ _ _ _ _ => exact ⟨as, ds, hs.cons _, hds, hall⟩

/-- In the end the expressions mean what all transformations give. -/
theorem rebuildsAll_means {w : Wide} {cs : List (Transformation × Chance)}
    (he : R.engine = .clickhouse) (hcs : Transformation.TaggedAll w.rand l cs)
    (there : ∀ v ∈ scope.columns, w.row.Has v)
    (hassigned : ∀ a ∈ l, ∀ v ∈ a.1.assignedColumns, v ∈ scope.columns)
    (h : t.RebuildsAll scope d l draft) (hjoins : ∀ j ∈ draft.joins, w.IsJoined R σ j)
    (hdraws : ∀ draw ∈ draft.draws, w.IsBound R σ draw)
    (hm : RebuildDraft.Means R (w.env σ) row d.expressions) :
    ∃ gs, List.Forall₂ (fun a g => a.1.Gives R t σ scope.columns w.row a.2 g) cs gs ∧
      RebuildDraft.Means R (w.env σ) (gs.foldl Row.assign row) draft.expressions := by
  induction h generalizing row cs with
  | nil =>
    cases hcs
    exact ⟨[], .nil, hm⟩
  | @cons a l d d₁ draft ha hrest ih =>
    obtain ⟨_, js, _, hjs, _⟩ := joins_of_rebuilds hrest
    obtain ⟨_, ds, _, hds, _⟩ := draws_of_rebuilds hrest
    have joined (j : LookupJoin) (hj : j ∈ d₁.joins) : w.IsJoined R σ j :=
      hjoins j (hjs ▸ List.mem_append_left js hj)
    have bound (draw : String × Expr) (hdr : draw ∈ d₁.draws) : w.IsBound R σ draw :=
      hdraws draw (hds ▸ List.mem_append_left ds hdr)
    cases hcs with
    | @cons _ x _ cs hx htail =>
      obtain ⟨same, hc, tagged⟩ := hx
      rw [← same] at ha
      obtain ⟨g, hg, hm₁⟩ := rebuilds_means he hc tagged there
        (same ▸ hassigned a List.mem_cons_self) ha joined bound hm
      obtain ⟨gs, hgs, hm₂⟩ := ih htail (fun a ha => hassigned a (List.mem_cons_of_mem _ ha))
        hjoins hdraws hm₁
      exact ⟨g :: gs, .cons hg hgs, hm₂⟩

end Target
end SyntheticRows
