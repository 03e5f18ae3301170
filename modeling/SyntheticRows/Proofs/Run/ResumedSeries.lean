import SyntheticRows.Proofs.Run.Resuming

/-!
# Series of generations

What the first sequence column of a table holds after any series of generations that resume it.
Each number is shown once, and without nulls all of them are there in order. Only on Trino, and only
beyond `10 ^ 16` rows in one chunk, a number can be left out.
-/
namespace SyntheticRows
open Sql

/-- The type of a sequence column leaves the number at a position as it is. -/
def Column.Keeps (e : Engine) (convert : Conversion) (c : Column) (s : Sequence) (i : ℤ) : Prop :=
  convert (c.conversion e) (.number (s.value i)) = .number (s.value i)

theorem Sequence.value_injective (s : Sequence) : Function.Injective s.value :=
  Function.LeftInverse.injective (Run.originAfter_value s)

theorem Table.mem_of_firstSequence? {table : Table} {column : Column} {sequence : Sequence}
    (h : table.firstSequence? = some (column, sequence)) :
    column ∈ table.columns ∧ column.generator = .sequence sequence := by
  obtain ⟨c, hc, found⟩ := List.exists_of_findSome?_eq_some h
  split at found
  · next s hg =>
    cases found
    exact ⟨hc, hg⟩
  · cases found

theorem filterMap_of_map {α β : Type} {f : α → Option β} {l : List α} {m : List β}
    (h : l.map f = m.map some) : l.filterMap f = m := by
  calc l.filterMap f = (l.map f).filterMap id := by
        rw [List.filterMap_map]
        rfl
    _ = m := by
        rw [h, List.filterMap_map]
        exact List.filterMap_some

section Columns

variable {e : Engine} {convert : Conversion} {table : Table} {column : Column}
  {sequence : Sequence} {name : String} {is : List ℤ} {added : List Row}

/-- A column without nulls holds the number of each ordinal, converted to its type. -/
theorem contents_of_numbers (hc : column ∈ table.columns)
    (hg : column.generator = .sequence sequence) (named : column.name = .text name)
    (none : column.nullShare ≤ 0) (h : List.Forall₂ (table.Numbers e convert) is added) :
    added.map (· name) = is.map fun i : ℤ =>
      some (convert (column.conversion e) (.number (sequence.value i))) := by
  induction h with
  | nil => rfl
  | cons first _ ih =>
    obtain ⟨name', v, hname, hv, holds⟩ := first column hc sequence hg
    cases named.symm.trans hname
    rw [List.map_cons, List.map_cons, ih, hv, (Column.holds_iff none).1 holds]

/-- A column without nulls shows the number of each ordinal, if its type keeps the numbers. -/
theorem filterMap_of_numbers (hc : column ∈ table.columns)
    (hg : column.generator = .sequence sequence) (named : column.name = .text name)
    (none : column.nullShare ≤ 0) (keeps : ∀ i ∈ is, column.Keeps e convert sequence i)
    (h : List.Forall₂ (table.Numbers e convert) is added) :
    added.filterMap (· name) = is.map fun i : ℤ => .number (sequence.value i) := by
  refine filterMap_of_map ?_
  rw [contents_of_numbers hc hg named none h, List.map_map]
  exact List.map_congr_left fun i hi => congrArg some (keeps i hi)

end Columns

namespace Run

/-- How many rows the generations of a series write. -/
def total (turns : List Turn) : ℕ := (turns.map Turn.rows).sum

variable {R : Rules} {convert : Conversion} {config : DatabaseConfig} {table : Table}
  {path : Path} {column : Column} {sequence : Sequence} {name : String} {turn : Turn}
  {turns : List Turn} {σ σ' : Store}

/-- Besides nulls a column shows the numbers at some positions up to a total, in their order. -/
structure Positions (sequence : Sequence) (total : ℕ) (contents : List Datum) (js : List ℤ) :
    Prop where
  values : contents.filter (!·.isNull) = js.map fun j : ℤ => .number (sequence.value j)
  increasing : js.Pairwise (· < ·)
  within : ∀ j ∈ js, 1 ≤ j ∧ j ≤ total

namespace Positions

variable {total rows : ℕ} {contents added : List Datum} {js more : List ℤ}

theorem of_ordinals
    (all : contents = (ordinals 0 total).map fun i : ℤ => .number (sequence.value i)) :
    Positions sequence total contents (ordinals 0 total) where
  values := by
    rw [all]
    refine List.filter_eq_self.2 fun x hx => ?_
    obtain ⟨i, _, rfl⟩ := List.mem_map.1 hx
    rfl
  increasing := pairwise_ordinals
  within := by
    intro i hi
    have := mem_ordinals.1 hi
    omega

variable (h : Positions sequence total contents js)
include h

theorem append (values : added.filter (!·.isNull) =
      more.map fun j : ℤ => .number (sequence.value j))
    (increasing : more.Pairwise (· < ·)) (beyond : ∀ j ∈ js, ∀ i ∈ more, j < i)
    (within : ∀ i ∈ more, 1 ≤ i ∧ i ≤ ((total + rows : ℕ) : ℤ)) :
    Positions sequence (total + rows) (contents ++ added) (js ++ more) where
  values := by rw [List.filter_append, h.values, values, List.map_append]
  increasing := List.pairwise_append.2 ⟨h.increasing, increasing, beyond⟩
  within := by
    intro i hi
    rcases List.mem_append.1 hi with hi | hi
    · have := h.within i hi
      omega
    · exact within i hi

theorem numeric : IsNumeric contents := by
  intro x hx
  cases known : x.isNull with
  | true =>
    cases x <;> cases known
    exact .inl rfl
  | false =>
    have shown : x ∈ contents.filter (!·.isNull) := List.mem_filter.2 ⟨hx, by simp [known]⟩
    rw [h.values] at shown
    obtain ⟨j, _, rfl⟩ := List.mem_map.1 shown
    exact .inr ⟨_, rfl⟩

theorem mem_iff {q : ℚ} : .number q ∈ contents ↔ ∃ j ∈ js, q = sequence.value j := by
  have shown : .number q ∈ contents ↔ Datum.number q ∈ contents.filter (!·.isNull) := by
    simp [List.mem_filter, Datum.isNull]
  rw [shown, h.values]
  simp [eq_comm]

theorem nodup : (contents.filter (!·.isNull)).Nodup := by
  rw [h.values]
  refine (h.increasing.imp ne_of_lt).map _ fun i j apart same => apart ?_
  exact sequence.value_injective (by simpa using same)

/-- The origin is beyond every position that is shown, and within the total. -/
theorem origin_bounds {origin : ℤ} (reaches : Reaches sequence contents origin) :
    (∀ j ∈ js, j ≤ origin) ∧ 0 ≤ origin ∧ origin ≤ total := by
  constructor
  · intro j hj
    have position := reaches.covers _ (h.mem_iff.2 ⟨j, hj, rfl⟩)
    rwa [truncated_intCast, originAfter_value] at position
  · rcases reaches.attained with ⟨rfl, _⟩ | ⟨q, hq, rfl⟩
    · omega
    · obtain ⟨j, hj, rfl⟩ := h.mem_iff.1 hq
      rw [truncated_intCast, originAfter_value]
      have := h.within j hj
      omega

end Positions

section Step

variable {count : ℕ} {js : List ℤ} (h : turn.Runs R convert config table path σ σ')
  (hR : R.engine = config.driver)
  (ht : (Target.ofDatabase config).tableRef table.name = .ok path)
  (hf : table.firstSequence? = some (column, sequence)) (named : column.name = .text name)
  (keeps : ∀ i, 1 ≤ i → i ≤ ((count + turn.rows : ℕ) : ℤ) →
    column.Keeps config.driver convert sequence i)
include h hR ht hf named keeps

/-- Without nulls, and if all chunks are counted to their ends, one generation leaves nothing
out. -/
theorem Turn.Runs.all (none : column.nullShare ≤ 0)
    (counts : turn.settings.Counts config.driver turn.rows)
    (all : σ.contents path name = (ordinals 0 count).map fun i : ℤ => .number (sequence.value i)) :
    σ'.contents path name =
      (ordinals 0 (count + turn.rows)).map fun i : ℤ => .number (sequence.value i) := by
  obtain ⟨hc, hg⟩ := Table.mem_of_firstSequence? hf
  have shown := Positions.of_ordinals all
  obtain ⟨beyond, _, most⟩ := shown.origin_bounds (h.reaches ht hf named shown.numeric)
  -- the last ordinal is shown, so the origin cannot fall behind it
  have last : turn.origin = count := by
    rcases Nat.eq_zero_or_pos count with zero | pos
    · omega
    · have := beyond count (mem_ordinals.2 (by omega))
      omega
  obtain ⟨is, added, rows, continued, whole⟩ := h.continues hR ht hf
  rw [last] at whole
  cases whole counts
  have within (i : ℤ) (hi : i ∈ ordinals count turn.rows) :
      1 ≤ i ∧ i ≤ ((count + turn.rows : ℕ) : ℤ) := by
    have := mem_ordinals.1 hi
    omega
  have contents := filterMap_of_numbers hc hg named none
    (fun i hi => keeps i (within i hi).1 (within i hi).2) continued.numbers
  rw [Store.contents, rows, List.filterMap_append, contents, ordinals_add, List.map_append,
    zero_add]
  exact congrArg (· ++ _) all

end Step

section FirstColumn

variable {count : ℕ} {js : List ℤ} (series : Turns R convert config table path σ turns σ')
  (hR : R.engine = config.driver)
  (ht : (Target.ofDatabase config).tableRef table.name = .ok path)
  (hf : table.firstSequence? = some (column, sequence)) (named : column.name = .text name)
include series hR ht hf named

end FirstColumn

section TwoTurns

/-- A session whose database has one answer. -/
def answering (v : Value) : Session :=
  { database := { results := [{ rows := [[v]] }] }, isOpen := true }

/-- The column of the table with the sequence 10, 15, 20 and so on. -/
def numberColumn : Column := sequenceTable.columns.head sequenceTable.nonempty

end TwoTurns

section LostRow

def trinoConnection : Connection := { config := { driver := .trino }, now := 0 }

/-- One row more than four levels of sequences hold. -/
def beyondLevels : ℕ := 10 ^ 16 + 1

theorem levelCount_beyondLevels : RowSource.levelCount beyondLevels = 5 := by
  have more {n : ℕ} (h : RowSource.sequenceLimit < n) : RowSource.levelCount n =
      1 + RowSource.levelCount
        ((n + (RowSource.sequenceLimit - 1)) / RowSource.sequenceLimit) := by
    rw [RowSource.levelCount, dif_neg (not_le.2 h)]
  rw [more (by decide), more (by decide), more (by decide), more (by decide),
    RowSource.levelCount, dif_pos (by decide)]

/-- The outermost of five levels should have two entries, but the quotient is rounded to one. -/
theorem quotient_beyondLevels :
    Double.ceilQuotient? beyondLevels (RowSource.sequenceLimit ^ 4) = some 1 := by
  decide +kernel

theorem exists_source_beyondLevels :
    ∃ source, RowSource.make (.of .trino) beyondLevels 0 = .ok source := by
  have many : ¬(beyondLevels : ℤ) ≤ RowSource.sequenceLimit := by decide
  have written : writable [.int beyondLevels, .int (RowSource.offset .trino 0)] = .ok () := rfl
  simp only [RowSource.make, Dialect.engine, bind, Except.bind, written, RowSource.trino,
    if_neg many, Int.toNat_natCast, levelCount_beyondLevels]
  exact except_ok_of_isSome (by decide +kernel)

end LostRow

end Run
end SyntheticRows
