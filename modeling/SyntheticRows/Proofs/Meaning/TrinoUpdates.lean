import SyntheticRows.Proofs.Meaning.Assignment

/-!
# One update, then one per swap

Trino draws inside the expressions and swaps in updates of their own. No swap reads or assigns what
another transformation of the batch assigns, so what the updates make of a row one after the other
is what the active transformations make of it at once.
-/
namespace SyntheticRows
open Sql
open scoped List

namespace Target

variable {R : Rules} {env : Env} {row row' : Row} {t : Target} {scope : Scope} {σ : Store}
  {contents : List (String × Datum)} {table : Path} {index : ℕ}

theorem boundExpr_fills {m : Mutation} {column : Ident} {x : Expr} {salt : Int}
    (he : R.engine = .trino) (hm : m.column = .text column.name)
    (hres : env.resolve [.given column] = row column.name)
    (h : m.boundExpr .trino (.name [.given column]) salt = .ok x) :
    List.Forall₂ (Fills R env row) [(m.column, x)] contents ↔
      ∃ c : Chance, c.IsFor .trino ∧
        Transformation.Gives R t σ scope.columns row (.mutation m) c contents := by
  have named (w : Datum) :
      Denotes R (env.bind "_r" w) (.name [.given column]) (row column.name) := by
    refine (Denotes.name _).congr ?_
    simp [Env.bind, hres]
  obtain ⟨body, hbody, each⟩ := Mutation.boundExpr_yields h
  have tags : ((List.range m.drawCount).map fun (i : ℕ) =>
      Engine.trino.unit (salt * 1000 + ((i + 1 : ℕ) : Int))) =
        ((List.range m.drawCount).map fun (i : ℕ) =>
          salt * 1000 + ((i + 1 : ℕ) : Int)).map Engine.trino.unit := by
    rw [List.map_map]
    rfl
  have yields (v : Datum) : Yields R env x v ↔
      ∃ c : Chance, c.IsFor .trino ∧ (row column.name).map (m.content R c) = some v := by
    rw [each R env, tags]
    simp only [Engine.units_yield he (by decide), List.length_map, List.length_range]
    constructor
    · rintro ⟨_, ⟨qs, hl, hqs, rfl⟩, hv⟩
      obtain ⟨c, hc, rfl⟩ : ∃ c : Chance, c.IsFor .trino ∧ m.drawn c = qs :=
        @Transformation.exists_drawn (.mutation m) _ _ hl hqs
      exact ⟨c, hc, (Mutation.body_denotes he hc.inUnit named hbody v).1 hv⟩
    · rintro ⟨c, hc, hv⟩
      refine ⟨_, ⟨m.drawn c, Transformation.length_drawn (.mutation m) c,
        fun q hq => @Transformation.isDraw_of_mem_drawn (.mutation m) _ _ hc _ hq, rfl⟩, ?_⟩
      exact (Mutation.body_denotes he hc.inUnit named hbody v).2 hv
  rw [fills_one]
  simp only [yields]
  constructor
  · rintro ⟨name, w, hc, _, ⟨c, hfor, hv⟩, rfl⟩
    cases hm.symm.trans hc
    obtain ⟨u, hu, rfl⟩ := Option.map_eq_some_iff.1 hv
    exact ⟨c, hfor, .mutation hm hu⟩
  · rintro ⟨c, hfor, hg⟩
    cases hg with
    | mutation hc hu =>
      cases hm.symm.trans hc
      exact ⟨_, _, hm, by rw [hu]; rfl, ⟨c, hfor, by rw [hu]; rfl⟩, rfl⟩

/-- A transformation that is part of the shared update. -/
theorem trinoPart_fills {tr : Transformation} {given : Value × Expr} (he : R.engine = .trino)
    (href : Refers R env row (t.tableColumn scope.table))
    (hplain : ∀ c : Ident, env.resolve [.given c] = row c.name) (htables : env.tables = σ)
    (h : Returns (t.trinoPart scope table index tr) (.inl given)) :
    List.Forall₂ (Fills R env row) [given] contents ↔
      ∃ c : Chance, c.IsFor .trino ∧ tr.Gives R t σ scope.columns row c contents := by
  have zero := Chance.zero_isFor .trino
  have hl : R.engine.taking = .aggregate := by rw [he]; rfl
  cases tr with
  | template tr =>
    obtain ⟨x, hx, hg⟩ := trinoPart_template h
    cases hg
    constructor
    · exact fun hf => ⟨_, zero, (template_fills (refers_plainRef hplain) hx).1 hf⟩
    · rintro ⟨c, _, hg⟩
      exact (template_fills (refers_plainRef hplain) hx).2 hg
  | mutation m =>
    obtain ⟨column, x, hc, hx, hg⟩ := trinoPart_mutation h
    cases hg
    exact boundExpr_fills he (ident_text hc) (hplain column) hx
  | lookup l =>
    obtain ⟨x, hx, hg⟩ := trinoPart_lookup h
    cases hg
    constructor
    · exact fun hf => ⟨_, zero, (lookup_fills hl href htables hx).1 hf⟩
    · rintro ⟨c, _, hg⟩
      exact (lookup_fills hl href htables hx).2 hg
  | swap s =>
    obtain ⟨_, _, _, _, _, hg, _⟩ := trinoPart_swap h
    cases hg
  | other kind =>
    cases kind with
    | none => exact (Returns.of_throw h).elim
    | some kind => exact (Returns.of_throw h).elim

section Swaps

variable {s : Swap} {first second : Ident}

/-- The update that exchanges two columns where a condition holds. -/
def exchange (table : Path) (first second : Ident) (condition : Option Expr) : Update where
  table
  assignments := [(first, .name [.given second]), (second, .name [.given first])]
  condition

/-- A condition that holds for draws below a number. -/
theorem gate_yields {p : Expr} {n : Number} {v : Datum} (he : R.engine = .trino)
    (hp : Expr.ofNumber n = .ok p) :
    Yields R env (.less Engine.random p) v ↔
      ∃ q, Engine.trino.IsDraw q ∧ v = .bool (q < n.toRat) := by
  have draw (w : Datum) : Yields R env Engine.random w ↔
      ∃ q, Engine.trino.IsDraw q ∧ w = .number q := Engine.unit_yields he (by decide) 0
  have less (q : ℚ) : R.operate .less (.number q) (.number n.toRat) =
      some (.bool (q < n.toRat)) := rfl
  simp only [Expr.less, Yields.binary_iff, draw, ofNumber_denotes hp _, Option.some.injEq]
  constructor
  · rintro ⟨_, _, ⟨q, hq, rfl⟩, rfl, h⟩
    rw [less, Option.some.injEq] at h
    exact ⟨q, hq, h.symm⟩
  · rintro ⟨q, hq, rfl⟩
    exact ⟨_, _, ⟨q, hq, rfl⟩, rfl, less q⟩

theorem exchange_compiled (h₁ : s.column1 = .text first.name) (h₂ : s.column2 = .text second.name)
    (condition : Option Expr) :
    Compiled [(s.column1, .name [.given second]), (s.column2, .name [.given first])]
      (exchange table first second condition).assignments :=
  .cons ⟨h₁, rfl⟩ (.cons ⟨h₂, rfl⟩ .nil)

/-- What is exchanged is what the swap gives when its gate is open. -/
theorem exchange_fills {u : Update} {σ' : Store} {rand : Int → ℕ} {c : Chance}
    (h₁ : s.column1 = .text first.name) (h₂ : s.column2 = .text second.name)
    (ho : c.gate < s.probability.val.toRat) :
    List.Forall₂ (Fills R (u.env σ' row rand []) row)
        [(s.column1, .name [.given second]), (s.column2, .name [.given first])] contents ↔
      Transformation.Gives R t σ scope.columns row (.swap s) c contents :=
  swap_fills h₁ h₂ (by rw [if_pos ho]; exact .name _) (by rw [if_pos ho]; exact .name _)

theorem swap_gives (c : Chance) (h₁ : s.column1 = .text first.name)
    (h₂ : s.column2 = .text second.name) (there : (row first.name).isSome)
    (there' : (row second.name).isSome) :
    ∃ g, Transformation.Gives R t σ scope.columns row (.swap s) c g := by
  obtain ⟨x, hx⟩ := Option.isSome_iff_exists.1 there
  obtain ⟨y, hy⟩ := Option.isSome_iff_exists.1 there'
  exact ⟨_, .swap h₁ h₂ hx hy⟩

/-- A row that is not exchanged is given its own contents. -/
theorem assign_of_shut {c : Chance} {g : List (String × Datum)}
    (hs : ¬c.gate < s.probability.val.toRat)
    (h : Transformation.Gives R t σ scope.columns row (.swap s) c g) :
    row.assign g = row := by
  cases h with
  | swap _ _ hx hy =>
    rw [if_neg hs]
    refine Row.assign_self fun a ha => ?_
    simp only [List.mem_cons, List.not_mem_nil, or_false] at ha
    rcases ha with rfl | rfl
    · exact hx
    · exact hy

theorem exchange_always {σ' : Store} (he : R.engine = .trino) (h₁ : s.column1 = .text first.name)
    (h₂ : s.column2 = .text second.name) (hp : s.probability.val.lt (.int 1) = false) :
    (exchange table first second none).Changes R σ' row row' ↔
      Transforms R t σ scope.columns [.swap s] row row' := by
  have always (c : Chance) (hc : c.IsFor .trino) : c.gate < s.probability.val.toRat := by
    rw [← Bool.not_eq_true, Probability.lt_one_iff, not_lt] at hp
    exact hc.1.bounds.2.trans_le hp
  rw [Transforms.one, he, changes_iff rfl (exchange_compiled h₁ h₂ none)]
  constructor
  · rintro ⟨rand, bound, _, hb, contents, hf, rfl⟩
    cases hb
    have open' := always _ (Chance.zero_isFor .trino)
    exact ⟨_, Chance.zero_isFor _, contents, (exchange_fills h₁ h₂ open').1 hf, rfl⟩
  · rintro ⟨c, hc, contents, hg, rfl⟩
    exact ⟨fun _ => 0, [], fun _ => by positivity, .nil, contents,
      (exchange_fills h₁ h₂ (always c hc)).2 hg, rfl⟩

theorem exchange_gated {σ' : Store} {p : Expr} (he : R.engine = .trino)
    (h₁ : s.column1 = .text first.name) (h₂ : s.column2 = .text second.name)
    (hp : Expr.ofNumber s.probability.val = .ok p) :
    (exchange table first second (some (.less Engine.random p))).Changes R σ' row row' ↔
      Transforms R t σ scope.columns [.swap s] row row' := by
  have zero := Engine.isDraw_zero .trino
  have compiled : Compiled [(s.column1, .name [.given second]), (s.column2, .name [.given first])]
      (exchange table first second (some (.less Engine.random p))).assignments :=
    exchange_compiled h₁ h₂ _
  rw [Transforms.one, he]
  constructor
  · rintro ⟨there, rand, bound, _, hb, ⟨hopen, contents, ha, rfl⟩ | ⟨⟨_, ⟨⟩, v, hv, hn⟩, rfl⟩⟩
    · cases hb
      obtain ⟨q, hq, ho⟩ := (gate_yields he hp).1 (hopen _ rfl)
      have low : q < s.probability.val.toRat := by simpa using ho.symm
      have hf := (fills_of_compiled compiled).2 ⟨there, ha⟩
      exact ⟨⟨q, 0, 0⟩, ⟨hq, zero, zero⟩, contents,
        (exchange_fills h₁ h₂ (c := ⟨q, 0, 0⟩) low).1 hf, rfl⟩
    · cases hb
      obtain ⟨q, hq, rfl⟩ := (gate_yields he hp).1 hv
      have high : ¬q < s.probability.val.toRat := by simpa using hn
      obtain ⟨g, hg⟩ := swap_gives ⟨q, 0, 0⟩ h₁ h₂ (there _ List.mem_cons_self)
        (there _ (List.mem_cons_of_mem _ List.mem_cons_self))
      exact ⟨_, ⟨hq, zero, zero⟩, g, hg, (assign_of_shut high hg).symm⟩
  · rintro ⟨c, hc, contents, hg, rfl⟩
    have there : ∀ a ∈ (exchange table first second (some (.less Engine.random p))).assignments,
        (row a.1.name).isSome := by
      intro a ha
      have named := hg.there a.1.name
      rw [hg.keys, Transformation.assigned, Transformation.mem_names] at named
      apply named
      simp only [exchange, List.mem_cons, List.not_mem_nil, or_false] at ha
      rcases ha with rfl | rfl <;> simp [Transformation.assignedColumns, h₁, h₂]
    refine ⟨there, fun _ => 0, [], fun _ => by positivity, .nil, ?_⟩
    by_cases ho : c.gate < s.probability.val.toRat
    · left
      refine ⟨?_, contents, ?_, rfl⟩
      · rintro _ ⟨⟩
        exact (gate_yields he hp).2 ⟨c.gate, hc.1, by simp [ho]⟩
      · exact ((fills_of_compiled compiled).1 ((exchange_fills h₁ h₂ ho).2 hg)).2
    · right
      refine ⟨⟨_, rfl, _, (gate_yields he hp).2 ⟨c.gate, hc.1, rfl⟩, by simp [ho]⟩, ?_⟩
      exact assign_of_shut ho hg

/-- The update of a swap, whatever the tables hold. -/
theorem swapUpdate_changes {tr : Transformation} {st : Statement} (he : R.engine = .trino)
    (h : Returns (t.trinoPart scope table index tr) (.inr st)) :
    ∃ s u, tr = .swap s ∧ st = .update u ∧ u.table = table ∧ ∀ σ' row row',
      u.Changes R σ' row row' ↔ Transforms R t σ scope.columns [tr] row row' := by
  cases tr with
  | swap s =>
    obtain ⟨first, second, condition, h₁, h₂, hst, hcond⟩ := trinoPart_swap h
    refine ⟨s, exchange table first second condition, rfl, Sum.inr.inj hst, rfl, ?_⟩
    intro σ' row row'
    rcases hcond with ⟨hp, rfl⟩ | ⟨_, p, hnum, rfl⟩
    · exact exchange_always he (ident_text h₁) (ident_text h₂) hp
    · exact exchange_gated he (ident_text h₁) (ident_text h₂) hnum
  | template tr =>
    obtain ⟨_, _, hg⟩ := trinoPart_template h
    cases hg
  | mutation m =>
    obtain ⟨_, _, _, _, hg⟩ := trinoPart_mutation h
    cases hg
  | lookup l =>
    obtain ⟨_, _, hg⟩ := trinoPart_lookup h
    cases hg
  | other kind =>
    cases kind with
    | none => exact (Returns.of_throw h).elim
    | some kind => exact (Returns.of_throw h).elim

end Swaps

/-- The transformation is part of the shared update. -/
def Shares (t : Target) (scope : Scope) (table : Path) (tr : Transformation)
    (given : Value × Expr) : Prop :=
  ∃ index, Returns (t.trinoPart scope table index tr) (.inl given)

/-- The transformation has an update of its own. -/
def StandsAlone (t : Target) (scope : Scope) (table : Path) (tr : Transformation)
    (st : Statement) : Prop :=
  ∃ index, Returns (t.trinoPart scope table index tr) (.inr st)

/-- The transformations sorted by where they go. -/
theorem sorted_parts {l : List (Transformation × ℕ)} {parts : List ((Value × Expr) ⊕ Statement)}
    (h : List.Forall₂ (fun a p => Returns (t.trinoPart scope table a.2 a.1) p) l parts) :
    ∃ sharing alone, (sharing ++ alone).Perm (l.map Prod.fst) ∧
      List.Forall₂ (t.Shares scope table) sharing (parts.filterMap Sum.getLeft?) ∧
      List.Forall₂ (t.StandsAlone scope table) alone (parts.filterMap Sum.getRight?) := by
  induction h with
  | nil => exact ⟨[], [], .nil, .nil, .nil⟩
  | @cons a p l parts ha _ ih =>
    obtain ⟨sharing, alone, hp, hs, hl⟩ := ih
    cases p with
    | inl g => exact ⟨a.1 :: sharing, alone, hp.cons _, .cons ⟨a.2, ha⟩ hs, hl⟩
    | inr st =>
      exact ⟨sharing, a.1 :: alone, List.perm_middle.trans (hp.cons _), hs, .cons ⟨a.2, ha⟩ hl⟩

theorem shares_fills {sharing : List Transformation} {given : List (Value × Expr)}
    (he : R.engine = .trino) (href : Refers R env row (t.tableColumn scope.table))
    (hplain : ∀ c : Ident, env.resolve [.given c] = row c.name) (htables : env.tables = σ)
    (h : List.Forall₂ (t.Shares scope table) sharing given) :
    List.Forall₂ (Fills R env row) given contents ↔
      ∃ cs : List (Transformation × Chance), cs.map Prod.fst = sharing ∧
        (∀ a ∈ cs, a.2.IsFor .trino) ∧ ∃ gs,
          List.Forall₂ (fun a g => a.1.Gives R t σ scope.columns row a.2 g) cs gs ∧
          contents = gs.flatten := by
  induction h generalizing contents with
  | nil =>
    rw [List.forall₂_nil_left_iff]
    constructor
    · rintro rfl
      exact ⟨[], rfl, by simp, [], .nil, rfl⟩
    · rintro ⟨cs, hcs, _, gs, hg, rfl⟩
      rw [List.map_eq_nil_iff] at hcs
      subst hcs
      cases hg
      rfl
  | @cons tr g sharing given hg _ ih =>
    obtain ⟨index, hg⟩ := hg
    rw [← List.singleton_append, pairing_append]
    simp only [trinoPart_fills he href hplain htables hg, ih]
    constructor
    · rintro ⟨first, _, ⟨c, hc, hfirst⟩, ⟨cs, rfl, hfor, gs, hgs, rfl⟩, rfl⟩
      refine ⟨(tr, c) :: cs, rfl, fun a ha => ?_, first :: gs, .cons hfirst hgs, rfl⟩
      rcases List.mem_cons.1 ha with rfl | ha
      · exact hc
      · exact hfor a ha
    · rintro ⟨cs, hcs, hfor, gs, hgs, rfl⟩
      obtain ⟨⟨_, c⟩, rest, rfl, rfl, hrest⟩ := List.map_eq_cons_iff.1 hcs
      cases hgs with
      | cons hfirst htail =>
        exact ⟨_, _, ⟨c, hfor _ List.mem_cons_self, hfirst⟩, ⟨rest, hrest,
          fun a ha => hfor a (List.mem_cons_of_mem _ ha), _, htail, rfl⟩, rfl⟩

/-- What the shared update makes of a row. -/
theorem shared_changes {sharing : List Transformation} {given : List (Value × Expr)} {u : Update}
    (he : R.engine = .trino) (ht : t.tableRef scope.table = .ok u.table)
    (hs : List.Forall₂ (t.Shares scope table) sharing given)
    (ha : t.assignments given = .ok u.assignments) (hc : u.condition = none)
    (hd : u.draws = []) :
    u.Changes R σ row row' ↔ Transforms R t σ scope.columns sharing row row' := by
  have each (rand : Int → ℕ) (contents : List (String × Datum)) :
      List.Forall₂ (Fills R (u.env σ row rand []) row) given contents ↔
        ∃ cs : List (Transformation × Chance), cs.map Prod.fst = sharing ∧
          (∀ a ∈ cs, a.2.IsFor .trino) ∧ ∃ gs,
            List.Forall₂ (fun a g => a.1.Gives R t σ scope.columns row a.2 g) cs gs ∧
            contents = gs.flatten :=
    shares_fills he (refers_tableColumn ht) (fun _ => rfl) rfl hs
  rw [changes_iff hc (compiled_of_assignments ha), hd, Transforms, he]
  constructor
  · rintro ⟨rand, bound, _, hb, contents, hf, rfl⟩
    cases hb
    obtain ⟨cs, hcs, hfor, gs, hgs, rfl⟩ := (each rand contents).1 hf
    exact ⟨cs, hcs, hfor, gs, hgs, rfl⟩
  · rintro ⟨cs, hcs, hfor, gs, hgs, rfl⟩
    exact ⟨fun _ => 0, [], fun _ => by positivity, .nil, gs.flatten,
      (each _ _).2 ⟨cs, hcs, hfor, gs, hgs, rfl⟩, rfl⟩

/-- Names that differ within one part do not come up in another. -/
theorem disjoint_of_nodup {as bs : List Transformation}
    (hn : ((as ++ bs).flatMap Transformation.assigned).Nodup) :
    ∀ b ∈ bs, ∀ n ∈ b.assigned, n ∉ as.flatMap Transformation.assigned := by
  intro b hb n hbn han
  rw [List.flatMap_append, List.nodup_append] at hn
  exact hn.2.2 n han n (List.mem_flatMap.2 ⟨b, hb, hbn⟩) rfl

/-- A transformation with an update of its own reads what it assigns. -/
theorem StandsAlone.reads_eq {tr : Transformation} {st : Statement} (he : R.engine = .trino)
    (h : t.StandsAlone scope table tr st) : tr.reads scope.columns = tr.assigned := by
  obtain ⟨index, h⟩ := h
  obtain ⟨s, _, rfl, _⟩ := swapUpdate_changes (R := R) (σ := fun _ => none) he h
  rfl

theorem executes_alone {alone : List Transformation} {sts : List Statement} {σ₀ σ₁ : Store}
    {rows : List Row} (he : R.engine = .trino)
    (hn : (alone.flatMap Transformation.assigned).Nodup)
    (h : List.Forall₂ (t.StandsAlone scope table) alone sts) (hσ : σ₀ table = some rows) :
    ExecutesAll R σ₀ sts σ₁ ↔ ∃ rows', σ₁ = σ₀.set table rows' ∧
      List.Forall₂ (Transforms R t σ scope.columns alone) rows rows' := by
  induction h generalizing σ₀ rows with
  | nil =>
    simp only [Folded.nil_iff, Transforms.rows_nil, exists_eq_right, Store.set_self hσ]
  | @cons tr st alone sts hst hrest ih =>
    have apart (rows' : List Row) :
        List.Forall₂ (Transforms R t σ scope.columns (tr :: alone)) rows rows' ↔
          ∃ mids, List.Forall₂ (Transforms R t σ scope.columns [tr]) rows mids ∧
            List.Forall₂ (Transforms R t σ scope.columns alone) mids rows' := by
      rw [← List.singleton_append] at hn ⊢
      have disjoint := disjoint_of_nodup hn
      refine Transforms.rows_append disjoint fun b hb n hbn => ?_
      obtain ⟨_, _, hst⟩ := partner_right hrest hb
      rw [hst.reads_eq he] at hbn
      exact disjoint b hb n hbn
    obtain ⟨index, hst⟩ := hst
    obtain ⟨s, u, _, rfl, hu, changes⟩ := swapUpdate_changes (σ := σ) he hst
    have tail : (alone.flatMap Transformation.assigned).Nodup := by
      rw [List.flatMap_cons, List.nodup_append] at hn
      exact hn.2.1
    have first : σ₀ u.table = some rows := by rw [hu, hσ]
    have one : u.Changes R σ₀ = Transforms R t σ scope.columns [tr] :=
      funext₂ fun _ _ => propext (changes _ _ _)
    simp only [Folded.cons_iff, executes_update first, one, hu, apart]
    constructor
    · rintro ⟨_, ⟨mids, rfl, hmids⟩, hall⟩
      obtain ⟨rows', rfl, hrows⟩ := (ih tail Store.set_same).1 hall
      exact ⟨rows', Store.set_set, mids, hmids, hrows⟩
    · rintro ⟨rows', rfl, mids, hmids, hrows⟩
      exact ⟨_, ⟨mids, rfl, hmids⟩, (ih tail Store.set_same).2 ⟨rows', Store.set_set.symm, hrows⟩⟩

/-- What the updates of a batch make of the table, in whatever way they draw and look up. -/
theorem trinoUpdates_executes {b : Batch} {actions : List Action} {path : Path}
    (he : R.engine = .trino) (ht : t.tableRef scope.table = .ok path)
    (hn : (b.active.flatMap Transformation.assigned).Nodup)
    (h : Returns (t.trinoUpdates scope b) actions) :
    ∃ sts : List Statement, actions = sts.map .run ∧ ∀ σ rows, σ path = some rows → ∀ σ',
      ExecutesAll R σ sts σ' ↔ ∃ rows', σ' = σ.set path rows' ∧
        List.Forall₂ (Transforms R t σ scope.columns b.active) rows rows' := by
  obtain ⟨table, parts, ht', hparts, shared, rfl, hshared⟩ := trinoUpdates_returns h
  cases ht.symm.trans ht'
  obtain ⟨sharing, alone, hp, hs, hl⟩ := sorted_parts hparts
  rw [List.zipIdx_map_fst] at hp
  have distinct : ((sharing ++ alone).flatMap Transformation.assigned).Nodup :=
    (hp.flatMap_right _).nodup_iff.2 hn
  have disjoint := disjoint_of_nodup distinct
  refine ⟨_, rfl, fun σ rows hσ σ' => ?_⟩
  have whole (rows' : List Row) :
      List.Forall₂ (Transforms R t σ scope.columns b.active) rows rows' ↔
        ∃ mids, List.Forall₂ (Transforms R t σ scope.columns sharing) rows mids ∧
          List.Forall₂ (Transforms R t σ scope.columns alone) mids rows' := by
    rw [← Transforms.rows_perm hp distinct]
    refine Transforms.rows_append disjoint fun tr htr n hread => ?_
    obtain ⟨_, _, hst⟩ := partner_right hl htr
    rw [hst.reads_eq he] at hread
    exact disjoint tr htr n hread
  have first : ∀ σ₁, ExecutesAll R σ shared σ₁ ↔ ∃ mids, σ₁ = σ.set path mids ∧
      List.Forall₂ (Transforms R t σ scope.columns sharing) rows mids := by
    intro σ₁
    rcases hshared with ⟨hnone, rfl⟩ | ⟨_, assignments, ha, rfl⟩
    · rw [hnone, List.forall₂_nil_right_iff] at hs
      subst hs
      simp only [Folded.nil_iff, Transforms.rows_nil, exists_eq_right, Store.set_self hσ]
    · set u : Update := { table := path, assignments } with hu
      have one : u.Changes R σ = Transforms R t σ scope.columns sharing :=
        funext₂ fun _ _ => propext (shared_changes he ht hs ha rfl rfl)
      have started : σ u.table = some rows := hσ
      rw [executesAll_update started, one]
  have alone' : (alone.flatMap Transformation.assigned).Nodup := by
    rw [List.flatMap_append, List.nodup_append] at distinct
    exact distinct.2.1
  simp only [Folded.append_iff, first, whole]
  constructor
  · rintro ⟨_, ⟨mids, rfl, hmids⟩, hrest⟩
    obtain ⟨rows', rfl, hrows⟩ := (executes_alone he alone' hl Store.set_same).1 hrest
    exact ⟨rows', Store.set_set, mids, hmids, hrows⟩
  · rintro ⟨rows', rfl, mids, hmids, hrows⟩
    exact ⟨_, ⟨mids, rfl, hmids⟩,
      (executes_alone he alone' hl Store.set_same).2 ⟨rows', Store.set_set.symm, hrows⟩⟩

end Target
end SyntheticRows
