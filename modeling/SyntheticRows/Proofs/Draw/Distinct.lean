import SyntheticRows.Proofs.Draw.Tag
import SyntheticRows.Proofs.Lookup.Definition

/-!
# Distinct draws of an insert

The tags of the columns of an insert start a thousand apart. So two draws of an insert fall together
exactly if a column makes more than a thousand draws and one of those beyond is from the function
from which a later column draws under the same number.
-/
namespace SyntheticRows
open Sql

namespace Sql

def Definition.draws : Definition → List Draw
  | .counter _ => []
  | .arrayRow _ items | .arrayName _ items => items.flatMap Expr.draws
  | .jsonRow _ payload => payload.draws

/-- The draws in the whole text of an insert. -/
def Insert.draws (i : Insert) : List Draw :=
  i.definitions.flatMap Definition.draws ++ i.values.flatMap Expr.draws ++
    i.condition.toList.flatMap Expr.draws

end Sql

/-- The functions that a column draws from on ClickHouse, draw by draw; that for its nulls comes
last. -/
def Column.drawn (now : ℤ) (c : Column) : List String :=
  let p := c.effectiveNullProbability
  if (Number.int 1).le p then []
  else c.generator.drawn now ++ if p.le (.int 0) then [] else ["rand"]

/-- A column makes so many draws that one of them has the function and the tag of a draw of another
column, some places further on. -/
def Column.RunsInto (now : ℤ) (places : ℕ) (c later : Column) : Prop :=
  ∃ k f, (later.drawn now)[k]? = some f ∧ (c.drawn now)[k + 1000 * places]? = some f

/-- The draws of a table, column by column. -/
def Table.dealt (now : ℤ) (t : Table) : List Draw :=
  t.columns.zipIdx.flatMap fun c => SyntheticRows.dealt ((c.2 + 1) * 1000) (c.1.drawn now)

section Columns
open Sql.Tagged

variable {now : ℤ} {row x : Expr} {c : Column}

theorem Column.draws_cast {y : Expr} (h : c.cast (.of .clickhouse) x = .ok y) :
    y.draws = x.draws := by
  obtain ⟨e, engine, h⟩ := except_ok_of_bind h
  cases engine
  cases h
  rfl

/-- The tags of a column go to the functions that it draws from. -/
theorem Column.deals_compile (hrow : row.draws = []) (c : Column) :
    Deals (c.compile (.of .clickhouse) now row) (c.drawn now) := by
  unfold compile drawn
  by_cases certain : (Number.int 1).le c.effectiveNullProbability = true
  · simp only [certain, if_true]
    exact (Has.pure rfl).deals
  intro tags y tags' run
  rw [if_neg certain] at run ⊢
  obtain ⟨value, between, compiled, typed⟩ := ok_of_bind run
  obtain ⟨last, drawn⟩ := c.generator.deals_compile hrow tags value between compiled
  obtain ⟨casted, after, lifted, nulls⟩ := ok_of_bind typed
  obtain ⟨hcast, rfl⟩ := ok_of_lift lifted
  rw [← draws_cast hcast] at drawn
  by_cases never : c.effectiveNullProbability.le (.int 0) = true
  · rw [if_pos never] at nulls ⊢
    cases nulls
    rw [List.append_nil]
    exact ⟨last, drawn⟩
  · rw [if_neg never] at nulls ⊢
    obtain ⟨tag, later, taken, wrapping⟩ := ok_of_bind nulls
    obtain ⟨rfl, next⟩ := ok_of_nextTag taken
    obtain ⟨p, _, given, wrapped⟩ := ok_of_bind wrapping
    obtain ⟨hp, rfl⟩ := ok_of_lift given
    obtain ⟨hy, rfl⟩ := ok_of_lift wrapped
    rw [Expr.draws_nullWrap (Expr.draws_ofNumber hp) hy, dealt_append, next, last]
    refine ⟨by simp [add_assoc], ?_⟩
    exact (drawn.cons _).trans (List.perm_append_singleton _ _).symm

end Columns

section Inserts

theorem perm_flatMap_of_pairing {α β γ : Type} {f : α → List γ} {g : β → List γ} {l : List α}
    {u : List β} (h : List.Forall₂ (fun a b => (g b).Perm (f a)) l u) :
    (u.flatMap g).Perm (l.flatMap f) := by
  induction h with
  | nil => exact .refl _
  | cons first _ ih => exact first.append ih

variable {t : Target} {now : ℤ} {table : Table} {n origin : ℤ} {i : Insert} {d : Definition}

theorem draws_of_rowSource {source : RowSource}
    (h : RowSource.make (.of .clickhouse) n origin = .ok source) :
    source.definitions = [] ∧ source.condition = none ∧ source.row.draws = [] := by
  obtain ⟨_, engine, h⟩ := except_ok_of_bind h
  cases engine
  obtain ⟨_, _, h⟩ := except_ok_of_bind h
  cases h
  refine ⟨rfl, rfl, ?_⟩
  simp [Expr.draws, Expr.drawsOfAll, drawOf, drawFunctions, Expr.add, Expr.bare, Expr.int]

theorem draws_of_lookupDefinition {name : String} {values : List Value}
    (h : (Dialect.of .clickhouse).lookupDefinition name values = .ok d) : d.draws = [] := by
  obtain ⟨ls, _, rfl⟩ := (Dialect.lookupDefinition_array (by decide)).1 h
  simp [Dialect.arrayDefinition, Definition.draws, List.flatMap_map, Expr.draws]

/-- The draws of an insert are those that its columns are dealt. -/
theorem draws_of_insertRows (ht : t.dialect = .of .clickhouse)
    (h : t.insertRows now table n origin = .ok (.insert i)) : i.draws.Perm (table.dealt now) := by
  obtain ⟨_, source, _, lists, ⟨⟩, made, _, defined, _, computed, _, definitions, _, condition⟩ :=
    Target.parts_of_insertRows h
  rw [ht] at made defined computed
  obtain ⟨hd, hc, hrow⟩ := draws_of_rowSource made
  have still : lists.flatMap Definition.draws = [] := by
    refine List.flatMap_eq_nil_iff.2 fun d hd => ?_
    obtain ⟨l, _, own⟩ := partner_left defined hd
    exact draws_of_lookupDefinition own
  have each : List.Forall₂ (fun c x => x.draws.Perm (SyntheticRows.dealt ((c.2 + 1) * 1000)
      (c.1.drawn now))) table.columns.zipIdx i.values := by
    refine computed.imp fun c x compiled => ?_
    obtain ⟨⟨y, tags⟩, run, rfl⟩ := except_ok_of_map compiled
    have dealing := (Column.deals_compile hrow c.1 _ y tags run).2
    simpa [Tags.last, Tags.ofSalt] using dealing
  simp only [Insert.draws, definitions, condition, hd, hc, List.nil_append, still, Option.toList_none, List.flatMap_nil,
    List.append_nil]
  exact perm_flatMap_of_pairing each

end Inserts

section Collisions

variable {fs gs : List String} {a b : ℤ}

/-- Two series of draws have one in common exactly if they meet in a function and in its tag. -/
theorem disjoint_dealt_iff : (dealt a fs).Disjoint (dealt b gs) ↔
    ∀ (j k : ℕ) f, fs[j]? = some f → gs[k]? = some f → a + j ≠ b + k := by
  constructor
  · intro apart j k f hf hg same
    refine apart (mem_dealt.2 ⟨j, f, hf, rfl⟩) (mem_dealt.2 ⟨k, f, hg, ?_⟩)
    simp only [Prod.mk.injEq, Option.some.injEq, true_and]
    omega
  · intro apart d hd hd'
    obtain ⟨j, f, hf, rfl⟩ := mem_dealt.1 hd
    obtain ⟨k, g, hg, same⟩ := mem_dealt.1 hd'
    simp only [Prod.mk.injEq, Option.some.injEq] at same
    obtain ⟨rfl, same⟩ := same
    exact apart j k f hf hg (by omega)

/-- Series that start a thousand tags apart for each place between them. -/
theorem disjoint_dealt_places_iff {p q : ℕ} (h : p < q) :
    (dealt ((p + 1) * 1000) fs).Disjoint (dealt ((q + 1) * 1000) gs) ↔
      ∀ k f, gs[k]? = some f → fs[k + 1000 * (q - p)]? ≠ some f := by
  rw [disjoint_dealt_iff]
  constructor
  · intro apart k f hg hf
    refine apart _ k f hf hg ?_
    push_cast [h.le]
    ring
  · intro apart j k f hf hg same
    obtain rfl : j = k + 1000 * (q - p) := by omega
    exact apart k f hg hf

theorem Table.nodup_dealt_iff {now : ℤ} {table : Table} : (table.dealt now).Nodup ↔
    ∀ (p q : ℕ) (c later : Column), p < q → table.columns[p]? = some c →
      table.columns[q]? = some later → ¬c.RunsInto now (q - p) later := by
  rw [Table.dealt, List.nodup_flatMap, List.pairwise_iff_getElem]
  have apart_iff : ∀ {p q : ℕ} {c later : Column}, p < q →
      ((SyntheticRows.dealt ((p + 1) * 1000) (c.drawn now)).Disjoint
        (SyntheticRows.dealt ((q + 1) * 1000) (later.drawn now)) ↔
          ¬c.RunsInto now (q - p) later) := by
    intro p q c later h
    simp [disjoint_dealt_places_iff h, Column.RunsInto]
  simp only [List.length_zipIdx, List.getElem_zipIdx, Nat.zero_add]
  constructor
  · rintro ⟨_, apart⟩ p q c later h hc hlater
    obtain ⟨hp, rfl⟩ := List.getElem?_eq_some_iff.1 hc
    obtain ⟨hq, rfl⟩ := List.getElem?_eq_some_iff.1 hlater
    exact (apart_iff h).1 (apart p q hp hq h)
  · intro apart
    refine ⟨fun _ _ => nodup_dealt, fun p q hp hq h => ?_⟩
    exact (apart_iff h).2 (apart p q _ _ h (List.getElem?_eq_getElem hp)
      (List.getElem?_eq_getElem hq))

end Collisions

namespace Target

variable {t : Target} {now : ℤ} {table : Table} {n origin : ℤ} {i : Insert}

/-- No two draws of an insert have the same function and the same tag exactly if no column makes so
many draws that it runs into those of a later column. -/
theorem nodup_draws_iff (ht : t.dialect = .of .clickhouse)
    (h : t.insertRows now table n origin = .ok (.insert i)) : i.draws.Nodup ↔
      ∀ (p q : ℕ) (c later : Column), p < q → table.columns[p]? = some c →
        table.columns[q]? = some later → ¬c.RunsInto now (q - p) later := by
  rw [(draws_of_insertRows ht h).nodup_iff]
  exact Table.nodup_dealt_iff

/-- A thousand draws for each column are few enough. -/
theorem nodup_draws_of_few (ht : t.dialect = .of .clickhouse)
    (h : t.insertRows now table n origin = .ok (.insert i))
    (few : ∀ c ∈ table.columns, (c.drawn now).length ≤ 1000) : i.draws.Nodup := by
  rw [(draws_of_insertRows ht h).nodup_iff, Table.nodup_dealt_iff]
  rintro p q c later hpq hc _ ⟨k, f, _, beyond⟩
  have short := few c (List.mem_of_getElem? hc)
  have inside := (List.getElem?_eq_some_iff.1 beyond).1
  omega

section Tickets

/-- Random codes of a length, and an identifier for each. -/
def ticketTable (length : ℕ) : Table :=
  { name := .text "tickets"
    columns := [
      { name := .text "code", type := .string, generator := .randomText length },
      { name := .text "ticket", type := .string, generator := .uuid }]
    distinct := rfl }

theorem shortTickets_compile : (insertRows { dialect := .of .clickhouse } 0 (ticketTable 40)
    (1 : ℕ) 0).toOption.isSome = true := by
  decide +kernel

theorem shortTickets_drawn : (ticketTable 40).columns.map (Column.drawn 0) =
    [["generateUUIDv4", "generateUUIDv4"], ["generateUUIDv4"]] := by
  decide +kernel

theorem distinct_of_shortTickets : ∃ i,
    insertRows { dialect := .of .clickhouse } 0 (ticketTable 40) (1 : ℕ) 0 = .ok (.insert i) ∧
      i.draws.Nodup := by
  obtain ⟨_, h⟩ := except_ok_of_isSome shortTickets_compile
  obtain ⟨i, _, rfl, _⟩ := inserts_of_insertRows h
  refine ⟨i, h, (nodup_draws_iff rfl h).2 fun p q c _ hpq hc _ => ?_⟩
  rintro ⟨k, f, _, beyond⟩
  have drawn : c.drawn 0 ∈ (ticketTable 40).columns.map (Column.drawn 0) :=
    List.mem_map_of_mem (List.mem_of_getElem? hc)
  have short : (c.drawn 0).length ≤ 2 := by
    rw [shortTickets_drawn, List.mem_pair] at drawn
    rcases drawn with drawn | drawn <;> simp [drawn]
  have inside := (List.getElem?_eq_some_iff.1 beyond).1
  omega

theorem longTickets_compile : (insertRows { dialect := .of .clickhouse } 0 (ticketTable 32001)
    (1 : ℕ) 0).toOption.isSome = true := by
  decide +kernel

theorem longTickets_runInto : (ticketTable 32001).columns[0].RunsInto 0 1
    (ticketTable 32001).columns[1] :=
  ⟨0, "generateUUIDv4", by decide +kernel, by decide +kernel⟩

/-- The last piece of a code is drawn together with the identifier. -/
theorem merged_of_longTickets : ¬∀ (t : Target) (now : ℤ) (table : Table) (n origin : ℤ)
    (i : Insert), t.dialect = .of .clickhouse →
    t.insertRows now table n origin = .ok (.insert i) → i.draws.Nodup := by
  intro claim
  obtain ⟨_, h⟩ := except_ok_of_isSome longTickets_compile
  obtain ⟨i, _, rfl, _⟩ := inserts_of_insertRows h
  have distinct := claim _ _ _ _ _ i rfl h
  rw [(draws_of_insertRows rfl h).nodup_iff, Table.nodup_dealt_iff] at distinct
  exact distinct 0 1 _ _ (by decide) rfl rfl longTickets_runInto

end Tickets

end Target
end SyntheticRows
