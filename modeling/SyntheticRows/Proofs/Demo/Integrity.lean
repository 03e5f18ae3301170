import SyntheticRows.Demo.Scenario
import SyntheticRows.Proofs.Lookup.Closed
import SyntheticRows.Proofs.Run.Serving

/-!
# The demo is referentially intact

The customers of the demo are numbered without a gap, orders refer to these numbers alone, and in
the end each order has the address of its customer, which is made of the names that the customer had
before the noise.
-/
namespace SyntheticRows.Demo
open Sql Target Run

variable {R : Rules} {convert : Conversion} {t : Target} {e : Engine} {σ : Store}
  {columns : List Value} {row row' : Row} {users orders : ℕ} {pools : NamePools}

section Scenario

/-- The steps of the demo, for so many customers and orders. -/
def steps (pools : NamePools) (users orders : ℕ) (one : 1 ≤ users) : List Step :=
  [.generate ⟨usersTable pools, users, [emails, noise]⟩,
    .generate ⟨ordersTable ⟨1, users, by exact_mod_cast one⟩, orders, []⟩,
    .transform ⟨.text "orders", [customerEmails]⟩]

theorem make_ok (table : Table) (batches : List Batch) (n : ℕ)
    (h : ∃ s, table.name.shown = .ok s) :
    GenerateStep.make table (.int n) batches = .ok ⟨table, n, batches⟩ := by
  obtain ⟨s, h⟩ := h
  have positive : ¬(n : ℤ) < 0 := by omega
  simp only [GenerateStep.make, h, except_ok_bind, Spec.checkWhole, positive, if_false]
  rfl

/-- With a customer at least, the demo can be made. -/
theorem scenario_ok (pools : NamePools) (orders : ℕ) (one : 1 ≤ users) :
    ∃ demo, scenario pools (.int users) (.int orders) = .ok demo ∧
      demo.steps = steps pools users orders one := by
  have most : ¬(Number.int users).lt (.int 1) = true := by
    rw [Number.lt_iff (a := .int users) (b := .int 1) trivial trivial]
    have bound : (1 : ℚ) ≤ users := by exact_mod_cast one
    simp only [Number.toRat]
    push_cast
    exact not_lt.2 bound
  have last : lastCustomer (.int users) = .ok (.int users) := by
    rw [lastCustomer]
    show Except.ok (if (Number.int users).lt (.int 1) then _ else _) = _
    rw [if_neg most]
  have range : customers (.int users) = .ok ⟨1, users, by exact_mod_cast one⟩ := by
    rw [customers, last, except_ok_bind, Spec.checkWhole, except_ok_bind]
    exact dif_pos (by exact_mod_cast one)
  rw [scenario, range, except_ok_bind, make_ok _ _ _ ⟨_, rfl⟩, except_ok_bind,
    make_ok _ _ _ ⟨_, rfl⟩, except_ok_bind]
  exact ⟨_, rfl, rfl⟩

end Scenario

section Batches

/-- The address that the names of a row make; null if one of them is. -/
def address (R : Rules) (row : Row) : Datum :=
  .ofText? do
    let first ← R.text? ((row "first_name").getD .null)
    let last ← R.text? ((row "last_name").getD .null)
    return R.lower (first ++ "." ++ last ++ "@example.com")

theorem pieces_emails : Template.pieces "\x7bfirst_name\x7d.\x7blast_name\x7d@example.com".toList =
    .placeholder "first_name".toList :: .text ['.'] :: .placeholder "last_name".toList ::
      "@example.com".toList.map fun c => .text [c] := by
  cbv

/-- Pieces of one character each are put together again. -/
theorem joined_characters (cs : List Char) :
    Template.joined ((cs.map fun c => .text [c]).map (Template.pieceText R columns row)) =
      some (String.ofList cs) := by
  induction cs with
  | nil => rfl
  | cons c cs ih =>
    rw [List.map_cons, List.map_cons, Template.joined, ih]
    simp [Template.pieceText]

theorem content_emails (first : .text "first_name" ∈ columns) (last : .text "last_name" ∈ columns) :
    Template.content R columns row true
      "\x7bfirst_name\x7d.\x7blast_name\x7d@example.com".toList = address R row := by
  have named {n : String} (h : .text n ∈ columns) : Template.isColumn columns n.toList = true := by
    rw [Template.isColumn, String.ofList_toList]
    exact Value.memberOf_text.2 h
  rw [Template.content, pieces_emails, address]
  simp only [List.map_cons, Template.joined, joined_characters, Template.pieceText, named first,
    named last, if_true, String.ofList_toList]
  cases R.text? ((row "first_name").getD .null) with
  | none => rfl
  | some first =>
    cases R.text? ((row "last_name").getD .null) with
    | none => rfl
    | some last =>
      have joins : first ++ (String.ofList ['.'] ++ (last ++ "@example.com")) =
          first ++ "." ++ last ++ "@example.com" := by
        rw [String.append_assoc, String.append_assoc]
      exact congrArg (fun s => Datum.text (R.lower s)) joins

/-- The lookup of the address of a customer by number. -/
def addressLookup : Lookup where
  column := .text "customer_email"
  fromTable := .text "users"
  fromColumn := .text "email"
  targetColumn := .text "user_id"
  lookupColumn := .text "id"

theorem active_emails : emails.active = emails.transformations := rfl

theorem active_noise : noise.active = noise.transformations :=
  List.filter_eq_self.2 (List.all_eq_true.1 (by decide +kernel))

theorem active_customerEmails : customerEmails.active = [.lookup addressLookup] := rfl

theorem independent_of_one {b : Batch} {tr : Transformation} (h : b.active = [tr]) :
    b.Independent columns := by
  intro first hfirst other hother apart
  rw [h, List.mem_singleton] at hfirst hother
  exact (apart (hfirst.trans hother.symm)).elim

theorem independent_noise : noise.Independent columns := by
  intro tr htr other hother apart n read assigned
  rw [active_noise] at htr hother
  simp only [noise, List.mem_cons, List.not_mem_nil, or_false] at htr hother
  rcases htr with rfl | rfl <;> rcases hother with rfl | rfl
  · exact apart rfl
  · simp only [Transformation.reads, Transformation.names, Mutation.withAllEdits,
      Transformation.assigned, Transformation.assignedColumns] at read assigned
    simp_all
  · simp only [Transformation.reads, Transformation.names, Mutation.withAllEdits,
      Transformation.assigned, Transformation.assignedColumns] at read assigned
    simp_all
  · exact apart rfl

/-- All columns of a table are there. -/
theorem isSome_of_drew {table : Table} {names : List String}
    (h : table.columns.map Column.name = names.map .text) (drew : table.Drew e convert row) :
    ∀ n ∈ names, (row n).isSome := by
  intro n hn
  obtain ⟨c, hc, named⟩ := List.mem_map.1 (h ▸ List.mem_map_of_mem hn)
  obtain ⟨m, same, there⟩ := drew.columns c hc
  obtain rfl : n = m := Value.text.inj (named.symm.trans same)
  exact there

theorem suits_emails {rows : List Row}
    (h : ∀ row ∈ rows, row.IsOver columns ∧ (row "email").isSome) :
    emails.Suits t σ columns rows := by
  intro row hrow
  obtain ⟨covers, there⟩ := h row hrow
  refine ⟨covers, fun tr htr => ?_⟩
  rw [active_emails, emails, List.mem_singleton] at htr
  subst htr
  refine ⟨⟨_, rfl, there⟩, _, rfl, fun n hn => (covers n).2 ?_⟩
  obtain ⟨_, known, rfl⟩ := Template.mem_reads.1 hn
  exact Value.memberOf_text.1 (Template.mem_resolve.1 known).2

theorem suits_noise {rows : List Row}
    (h : ∀ row ∈ rows, row.IsOver columns ∧ ∀ n ∈ ["last_name", "billing_city", "shipping_city"],
      (row n).isSome) :
    noise.Suits t σ columns rows := by
  intro row hrow
  obtain ⟨covers, there⟩ := h row hrow
  refine ⟨covers, fun tr htr => ?_⟩
  rw [active_noise] at htr
  simp only [noise, List.mem_cons, List.not_mem_nil, or_false] at htr
  rcases htr with rfl | rfl
  · exact ⟨_, rfl, there _ (by simp)⟩
  · exact ⟨⟨_, rfl, there _ (by simp)⟩, ⟨_, rfl, there _ (by simp)⟩⟩

theorem email_of_emails (covers : row.IsOver columns) (first : (row "first_name").isSome)
    (last : (row "last_name").isSome) (h : Transforms R t σ columns emails.active row row') :
    row' "email" = some (address R row) ∧ ∀ n ≠ "email", row' n = row n := by
  rw [active_emails, emails, Transforms.one] at h
  obtain ⟨_, _, g, gives, rfl⟩ := h
  cases gives with
  | template hc _ ht _ =>
    cases hc
    cases ht
    rw [content_emails ((covers _).1 first) ((covers _).1 last)]
    refine ⟨Row.assign_of_mem (by simp) (by simp), fun n hn => Row.assign_of_not_mem ?_⟩
    simpa using hn

theorem kept_of_noise (h : Transforms R t σ columns noise.active row row') {n : String}
    (hn : n ∉ ["last_name", "billing_city", "shipping_city"]) : row' n = row n := by
  obtain ⟨cs, hcs, _, h⟩ := h
  refine h.unassigned ?_
  rw [hcs, active_noise]
  exact hn

end Batches

section Rows

/-- Customers that are numbered from 1 without a gap, with the addresses that their names made
before the noise. -/
structure Customers (R : Rules) (users : ℕ) (named customers : List Row) : Prop where
  ids : customers.map (· "id") = (List.range users).map fun i => some (.number (i + 1 : ℕ))
  emails : List.Forall₂ (fun before after => after "id" = before "id" ∧
    after "email" = some (address R before)) named customers

/-- The order refers to a customer by number, and has the address of that customer and no other. -/
def RefersTo (users : ℕ) (customers : List Row) (order : Row) : Prop :=
  ∃ k : ℕ, 1 ≤ k ∧ k ≤ users ∧ order "user_id" = some (.number k) ∧
    ∃ customer ∈ customers, order "customer_email" = customer "email" ∧
      ∀ other ∈ customers, other "id" = order "user_id" ↔ other = customer

/-- The rows of the demo at its end, and the customers as they were before the noise. -/
structure Intact (R : Rules) (users : ℕ) (named customers orders : List Row) : Prop
    extends Customers R users named customers where
  orders : ∀ order ∈ orders, RefersTo users customers order

/-- What is assumed of the comparison of contents and of casts: different whole numbers are not
equal, and the numbers of customers stay as they are. -/
structure KeepsNumbers (R : Rules) (convert : Conversion) (e : Engine) (users : ℕ) : Prop where
  canon : ∀ a b : ℤ, R.canon (.number a) = R.canon (.number b) → a = b
  convert : ∀ i : ℤ, 1 ≤ i → i ≤ users →
    convert (identifier.conversion e) (.number i) = .number i

theorem map_eq_of_forall₂ {α β γ : Type} {f : α → γ} {g : β → γ} {l : List α} {u : List β}
    (h : List.Forall₂ (fun a b => g b = f a) l u) : u.map g = l.map f := by
  induction h with
  | nil => rfl
  | cons first _ ih => rw [List.map_cons, List.map_cons, first, ih]

/-- Numbered from 1, the customers have the numbers up to how many they are. -/
theorem ids_of_numbers (keeps : KeepsNumbers R convert e users) {rows : List Row}
    (h : List.Forall₂ ((usersTable pools).Numbers e convert) (ordinals 0 users) rows) :
    rows.map (· "id") = (List.range users).map fun i => some (.number (i + 1 : ℕ)) := by
  have numbered : List.Forall₂ (fun (i : ℤ) (row : Row) => row "id" = some (.number i))
      (ordinals 0 users) rows := by
    refine (pairing_mem h).imp fun i row hrow => ?_
    obtain ⟨hi, numbers⟩ := hrow
    obtain ⟨above, below⟩ := mem_ordinals.1 hi
    obtain ⟨name, v, named, hv, holds⟩ :=
      numbers identifier (by simp [usersTable, userColumns]) {} rfl
    cases named
    have never : identifier.nullShare ≤ 0 := (Column.nullShare_of_not_nullable rfl).le
    have value : Sequence.value {} i = i := by simp [Sequence.value]
    rw [hv, (Column.holds_iff never).1 holds, value, keeps.convert i (by omega) (by omega)]
  rw [map_eq_of_forall₂ numbered, ordinals, List.map_map]
  refine List.map_congr_left fun i _ => ?_
  simp only [Function.comp_apply]
  push_cast
  congr 2
  ring

namespace Customers

variable {named customers : List Row} {row : Row} {k : ℕ}

theorem exists_number (h : Customers R users named customers) (hrow : row ∈ customers) :
    ∃ i : ℕ, row "id" = some (.number (i : ℤ)) := by
  have listed : row "id" ∈ customers.map (· "id") := List.mem_map_of_mem hrow
  rw [h.ids] at listed
  obtain ⟨i, _, same⟩ := List.mem_map.1 listed
  exact ⟨i + 1, by rw [← same]; push_cast; rfl⟩

theorem exists_customer (h : Customers R users named customers) (least : 1 ≤ k) (most : k ≤ users) :
    ∃ customer ∈ customers, customer "id" = some (.number k) := by
  have listed : some (.number k) ∈ customers.map (· "id") := by
    rw [h.ids]
    exact List.mem_map.2 ⟨k - 1, List.mem_range.2 (by omega), by rw [Nat.sub_add_cancel least]⟩
  exact List.mem_map.1 listed

theorem unique (h : Customers R users named customers) {other : Row} (hrow : row ∈ customers)
    (hother : other ∈ customers) (same : other "id" = row "id") : other = row := by
  have distinct : (customers.map (· "id")).Nodup := by
    rw [h.ids]
    refine List.Nodup.map (fun i j same => ?_) List.nodup_range
    simpa using same
  exact List.inj_on_of_nodup_map distinct hother hrow same

/-- A lookup of a customer's number finds the address of that customer. -/
theorem of_finds {path : Path} {taking : Taking} {key wanted : Ident} {v : Datum}
    (h : Customers R users named (σ.rowsOf path)) (keeps : KeepsNumbers R convert e users)
    (least : 1 ≤ k) (most : k ≤ users) (hkey : key.name = "id") (hwanted : wanted.name = "email")
    (finds : Finds R σ taking path key wanted (.number k) v) :
    ∃ customer ∈ σ.rowsOf path, some v = customer "email" ∧
      ∀ other ∈ σ.rowsOf path, other "id" = some (.number k) ↔ other = customer := by
  obtain ⟨rows, hrows, -, found⟩ := finds
  rw [Store.rowsOf_eq hrows] at h ⊢
  rcases found with ⟨customer, hcustomer, ⟨x, hx, -, same⟩, hv, -⟩ | ⟨none, -⟩
  · obtain ⟨i, hi⟩ := h.exists_number hcustomer
    rw [hkey, hi] at hx
    cases hx
    have number : (i : ℤ) = (k : ℤ) := keeps.canon _ _ (by exact_mod_cast same)
    rw [number] at hi
    refine ⟨customer, hcustomer, by rw [← hv, hwanted], fun other hother => ⟨fun hid => ?_, ?_⟩⟩
    · exact h.unique hcustomer hother (by rw [hid, hi]; norm_cast)
    · rintro rfl
      rw [hi]
      norm_cast
  · obtain ⟨customer, hcustomer, hid⟩ := h.exists_customer least most
    exact (none customer hcustomer ⟨_, hkey ▸ hid, rfl, rfl⟩).elim

end Customers

end Rows

section Steps

variable {c : Connection} {s s' : Session} {settings : GenerationSettings} {p p' : Progress}
  {σ' : Store}

theorem customers_of_rows {rows named customers : List Row}
    (keeps : KeepsNumbers R convert e users)
    (numbers : List.Forall₂ ((usersTable pools).Numbers e convert) (ordinals 0 users) rows)
    (known : ∀ row ∈ rows, row.IsOver columns ∧ ∀ n ∈ userColumnNames, (row n).isSome)
    (derived : List.Forall₂ (Transforms R t σ columns emails.active) rows named) {σ₁ : Store}
    (noised : List.Forall₂ (Transforms R t σ₁ columns noise.active) named customers) :
    Customers R users named customers := by
  have before : List.Forall₂ (fun row row' => row' "id" = row "id" ∧
      row' "email" = some (address R row')) rows named := by
    refine ((List.forall₂_and_left _ _).2 ⟨fun row hrow => known row hrow, derived⟩).imp ?_
    rintro row row' ⟨⟨covers, there⟩, transforms⟩
    obtain ⟨email, others⟩ := email_of_emails covers (there _ (by simp [userColumnNames]))
      (there _ (by simp [userColumnNames])) transforms
    refine ⟨others _ (by decide), ?_⟩
    rw [email, address, address, others "first_name" (by decide), others "last_name" (by decide)]
  have addressed : ∀ row ∈ named, row "email" = some (address R row) := by
    intro row hrow
    obtain ⟨_, _, _, email⟩ := partner_left before hrow
    exact email
  have after : List.Forall₂ (fun row row' => row' "id" = row "id" ∧
      row' "email" = some (address R row)) named customers := by
    refine ((List.forall₂_and_left _ _).2 ⟨addressed, noised⟩).imp ?_
    rintro row row' ⟨email, transforms⟩
    exact ⟨kept_of_noise transforms (by decide),
      (kept_of_noise transforms (by decide)).trans email⟩
  refine ⟨?_, after⟩
  rw [map_eq_of_forall₂ (after.imp fun _ _ => And.left),
    map_eq_of_forall₂ (before.imp fun _ _ => And.left)]
  exact ids_of_numbers keeps numbers

/-- The two batches of the first step: the addresses are derived, and then the noise comes. -/
theorem noised_of_batches {path : Path} {rows : List Row} {result : TransformResult}
    (hR : R.engine = c.config.driver) (ht : c.target.tableRef (.text "users") = .ok path)
    (hrows : σ path = some rows) (there : ∀ row ∈ rows, ∀ n ∈ userColumnNames, (row n).isSome)
    (h : outcome (applyTransformations settings.strictTemplates (.text "users") [emails, noise]) c
      s = (.ok result, s'))
    (served : Served R convert c.target σ s σ' s') :
    ∃ columns soFar done s₁ σ₁, soFar.tableName = .text "users" ∧
      Served R convert c.target σ s σ₁ s₁ ∧
      outcome (applyBatches settings.strictTemplates columns soFar [noise]) c s₁ =
        (.ok done, s') ∧
      Served R convert c.target σ₁ s₁ σ' s' ∧ (∀ row ∈ rows, row.IsOver columns) ∧
      List.Forall₂ (Transforms R c.target σ columns emails.active) rows (σ₁.rowsOf path) ∧
      List.Forall₂ (Transforms R c.target σ₁ columns noise.active) (σ₁.rowsOf path)
        (σ'.rowsOf path) := by
  obtain ⟨columns, s₁, checked, described, served₁, served₂, hrun⟩ :=
    served_of_applyTransformations (by simp) (by simp [emails, noise]) h served
  obtain ⟨soFar, s₂, σ₂, hnoise, named, served₃, served₄, derives⟩ :=
    applied_of_applyBatches hR (checked emails (by simp)) (independent_of_one active_emails) ht hrun
      served₂
  obtain ⟨done, s₃, σ₃, hnone, -, served₅, served₆, noises⟩ :=
    applied_of_applyBatches hR (by rw [named]; exact checked noise (by simp)) independent_noise
      (by rw [named]; exact ht) hnoise served₄
  cases hnone
  obtain rfl := served₆.eq_of_events rfl
  have covers : ∀ row ∈ rows, row.IsOver columns := fun row hrow =>
    described path ht row (by rwa [Store.rowsOf_eq hrows])
  obtain ⟨named', rfl, derived⟩ := derives rows hrows
    (suits_emails fun row hrow => ⟨covers row hrow, there row hrow _ (by decide)⟩)
  have suits : noise.Suits c.target (σ.set path named') columns named' := by
    refine suits_noise fun row hrow => ?_
    obtain ⟨before, hbefore, transforms⟩ := partner_left derived hrow
    refine ⟨isOver_of_transformed derived covers row hrow, fun n hn => ?_⟩
    rw [transforms.isSome]
    exact there before hbefore n (by revert n; decide)
  obtain ⟨customers, rfl, noised⟩ := noises named' Store.set_same suits
  refine ⟨columns, soFar, _, s₂, σ.set path named', named, served₁.trans served₃, hnoise, served₅,
    covers, ?_⟩
  rw [Store.rowsOf_set, Store.rowsOf_set]
  exact ⟨derived, noised⟩

/-- The first step: the customers are generated, get their addresses, and then the noise. -/
theorem customers_of_step (hR : R.engine = c.config.driver) (drops : settings.dropFirst = true)
    (counts : settings.Counts c.config.driver users) (one : 1 ≤ users)
    (keeps : KeepsNumbers R convert c.config.driver users) (new : p.generated = [])
    (h : outcome (runStep settings p (.generate ⟨usersTable pools, users, [emails, noise]⟩)) c s =
      (.ok p', s'))
    (served : Served R convert c.target σ s σ' s') :
    p'.generated = [.text "users"] ∧ settings.createTable = true ∧ ∃ path s₁ σ₁ columns soFar done,
      c.target.tableRef (.text "users") = .ok path ∧ soFar.tableName = .text "users" ∧
      Served R convert c.target σ s σ₁ s₁ ∧
      outcome (applyBatches settings.strictTemplates columns soFar [noise]) c s₁ =
        (.ok done, s') ∧
      Served R convert c.target σ₁ s₁ σ' s' ∧
      Customers R users (σ₁.rowsOf path) (σ'.rowsOf path) := by
  obtain ⟨generated, path, s₁, σ₁, ht, refilled, served₁, served₂, hbatches⟩ :=
    served_of_generate hR drops (by rw [new]; rfl) h served
  obtain ⟨result, hrun⟩ := hbatches
  obtain ⟨rows, hrows⟩ := refilled.exists_rows counts one
  have creates : settings.createTable = true := by rw [← refilled.there, hrows, Option.isSome_some]
  have there : ∀ row ∈ rows, ∀ n ∈ userColumnNames, (row n).isSome := by
    intro row hrow
    rw [← Store.rowsOf_eq hrows] at hrow
    exact isSome_of_drew (map_name_userColumns pools) (refilled.drew row hrow)
  obtain ⟨columns, soFar, done, s₂, σ₂, named, served₃, hnoise, served₄, covers, derived, noised⟩ :=
    noised_of_batches hR ht hrows there hrun served₂
  refine ⟨by rw [generated, new]; rfl, creates, path, s₂, σ₂, columns, soFar, done, ht, named,
    served₁.trans served₃, hnoise, served₄, ?_⟩
  have numbers := refilled.numbers counts
  rw [Store.rowsOf_eq hrows] at numbers
  exact customers_of_rows keeps numbers (fun row hrow => ⟨covers row hrow, there row hrow⟩) derived
    noised

/-- An order draws the number of a customer. -/
theorem customer_of_drew (one : 1 ≤ users) (keeps : KeepsNumbers R convert e users)
    (drew : (ordersTable ⟨1, users, by exact_mod_cast one⟩).Drew e convert row) :
    ∃ k : ℕ, 1 ≤ k ∧ k ≤ users ∧ row "user_id" = some (.number k) := by
  let range : IntRange := ⟨1, users, by exact_mod_cast one⟩
  let column : Column := { name := .text "user_id", type := .bigint, generator := .intRange range }
  have draws : column.DrawsFrom e range :=
    ⟨rfl, (Column.nullShare_of_not_nullable rfl).le, .inr rfl,
      fun _ => (by decide : (-2 ^ 63 : ℤ) ≤ 1 ∧ (1 : ℤ) < 2 ^ 63)⟩
  obtain ⟨name, i, named, least, most, held⟩ :=
    drew.drawn column (by simp [ordersTable, orderColumns, column, range]) range draws
  cases named
  obtain ⟨least, most⟩ : 1 ≤ i ∧ i ≤ users := ⟨least, most⟩
  obtain ⟨k, rfl⟩ := Int.eq_ofNat_of_zero_le (show 0 ≤ i by omega)
  have same : column.conversion e = identifier.conversion e := by
    cases e <;> rfl
  refine ⟨k, by exact_mod_cast least, by exact_mod_cast most, ?_⟩
  rw [held, same, keeps.convert k least most]
  norm_cast

/-- The second step generates the orders, which refer to customers. -/
theorem orders_of_step (hR : R.engine = c.config.driver) (drops : settings.dropFirst = true)
    (creates : settings.createTable = true) (one : 1 ≤ users)
    (keeps : KeepsNumbers R convert c.config.driver users)
    (generated : p.generated = [.text "users"])
    (h : outcome (runStep settings p
      (.generate ⟨ordersTable ⟨1, users, by exact_mod_cast one⟩, orders, []⟩)) c s = (.ok p', s'))
    (served : Served R convert c.target σ s σ' s') :
    ∃ path rows, c.target.tableRef (.text "orders") = .ok path ∧ σ' path = some rows ∧
      (∀ other, other ≠ path → σ' other = σ other) ∧
      (settings.Counts c.config.driver orders → rows.length = orders) ∧
      ∀ row ∈ rows, (∀ n ∈ orderColumnNames, (row n).isSome) ∧
        ∃ k : ℕ, 1 ≤ k ∧ k ≤ users ∧ row "user_id" = some (.number k) := by
  obtain ⟨-, path, s₁, σ₁, ht, refilled, served₁, served₂, last⟩ :=
    served_of_generate hR drops (by rw [generated]; rfl) h served
  obtain rfl : s' = s₁ := last
  obtain rfl := served₂.eq_of_events rfl
  have there := refilled.there
  rw [creates] at there
  obtain ⟨rows, hrows⟩ := Option.isSome_iff_exists.1 there
  refine ⟨path, rows, ht, hrows, refilled.elsewhere, fun counts => ?_, fun row hrow => ?_⟩
  · rw [← Store.rowsOf_eq hrows, ← (refilled.numbers counts).length_eq, length_ordinals]
  rw [← Store.rowsOf_eq hrows] at hrow
  have drew := refilled.drew row hrow
  exact ⟨isSome_of_drew (map_name_orderColumns _) drew, customer_of_drew one keeps drew⟩

theorem suits_customerEmails {rows : List Row} (there : addressLookup.IsThere t σ)
    (h : ∀ row ∈ rows, row.IsOver columns ∧ (row "customer_email").isSome ∧
      (row "user_id").isSome) :
    customerEmails.Suits t σ columns rows := by
  intro row hrow
  obtain ⟨covers, email, number⟩ := h row hrow
  refine ⟨covers, fun tr htr => ?_⟩
  rw [active_customerEmails, List.mem_singleton] at htr
  subst htr
  exact ⟨⟨_, rfl, email⟩, ⟨_, rfl, number⟩, there⟩

/-- Customers with numbers and addresses can be looked up. -/
theorem isThere_of_columns {path : Path} {rows : List Row}
    (ht : c.target.tableRef (.text "users") = .ok path) (hrows : σ path = some rows)
    (known : ∀ row ∈ rows, (row "id").isSome ∧ (row "email").isSome) :
    addressLookup.IsThere c.target σ := by
  obtain ⟨key, hkey⟩ : ∃ key, c.target.ident (.text "id") = .ok key := ⟨_, rfl⟩
  obtain ⟨wanted, hwanted⟩ : ∃ wanted, c.target.ident (.text "email") = .ok wanted := ⟨_, rfl⟩
  refine ⟨path, key, wanted, rows, ht, hkey, hwanted, hrows, fun row hrow => ?_⟩
  rw [← Value.text.inj (ident_text hkey), ← Value.text.inj (ident_text hwanted)]
  exact known row hrow

theorem Customers.isThere {path : Path} {named : List Row} (one : 1 ≤ users)
    (h : Customers R users named (σ.rowsOf path))
    (ht : c.target.tableRef (.text "users") = .ok path) : addressLookup.IsThere c.target σ := by
  obtain ⟨customer, hcustomer, -⟩ := h.exists_customer le_rfl one
  obtain ⟨rows, hrows⟩ := Store.exists_rows_of_mem hcustomer
  refine isThere_of_columns ht hrows fun row hrow => ?_
  rw [← Store.rowsOf_eq hrows] at hrow
  obtain ⟨i, hid⟩ := h.exists_number hrow
  obtain ⟨_, _, -, email⟩ := partner_left h.emails hrow
  exact ⟨by rw [hid]; rfl, by rw [email]; rfl⟩

theorem users_ne_orders {path ordersPath : Path}
    (ht : t.tableRef (.text "users") = .ok path)
    (ht' : t.tableRef (.text "orders") = .ok ordersPath) : path ≠ ordersPath := by
  rintro rfl
  have same := Value.text.inj (Target.tableRef_injective ht ht')
  revert same
  decide

/-- An order with the number of a customer gets the address of that customer. -/
theorem refersTo_of_transforms {path : Path} {named : List Row} {before order : Row}
    (keeps : KeepsNumbers R convert c.config.driver users)
    (ht : c.target.tableRef (.text "users") = .ok path)
    (customers : Customers R users named (σ.rowsOf path))
    (drew : ∃ k : ℕ, 1 ≤ k ∧ k ≤ users ∧ before "user_id" = some (.number k))
    (h : Transforms R c.target σ columns customerEmails.active before order) :
    RefersTo users (σ.rowsOf path) order := by
  obtain ⟨k, least, most, number⟩ := drew
  rw [active_customerEmails, Transforms.one] at h
  obtain ⟨_, _, g, gives, rfl⟩ := h
  cases gives with
  | @lookup _ _ _ _ v _ _ _ _ hc _ htarget hx hsource hkey hwanted finds =>
    cases hc
    cases htarget
    cases ht.symm.trans hsource
    cases number.symm.trans hx
    obtain ⟨customer, hcustomer, email, exactly⟩ := customers.of_finds keeps least most
      (Value.text.inj (ident_text hkey)).symm (Value.text.inj (ident_text hwanted)).symm finds
    have kept : before.assign [("customer_email", v)] "user_id" = some (.number k) :=
      (Row.assign_of_not_mem (by simp)).trans number
    refine ⟨k, least, most, kept, customer, hcustomer, ?_, fun other hother => ?_⟩
    · rw [← email]
      exact Row.assign_of_mem (by simp) (by simp)
    · rw [kept]
      exact exactly other hother

/-- The last step gives the orders the addresses of their customers. -/
theorem refersTo_of_step {path ordersPath : Path} {named rows : List Row}
    (hR : R.engine = c.config.driver) (one : 1 ≤ users)
    (keeps : KeepsNumbers R convert c.config.driver users)
    (ht : c.target.tableRef (.text "users") = .ok path)
    (ht' : c.target.tableRef (.text "orders") = .ok ordersPath)
    (customers : Customers R users named (σ.rowsOf path))
    (hrows : σ ordersPath = some rows)
    (drew : ∀ row ∈ rows, (∀ n ∈ orderColumnNames, (row n).isSome) ∧
      ∃ k : ℕ, 1 ≤ k ∧ k ≤ users ∧ row "user_id" = some (.number k))
    (h : outcome (runStep settings p (.transform ⟨.text "orders", [customerEmails]⟩)) c s =
      (.ok p', s'))
    (served : Served R convert c.target σ s σ' s') :
    σ' path = σ path ∧ (σ'.rowsOf ordersPath).length = rows.length ∧
      ∀ order ∈ σ'.rowsOf ordersPath, RefersTo users (σ.rowsOf path) order := by
  obtain ⟨_, hrun⟩ := parts_of_transform h
  obtain ⟨columns, s₂, checked, described, served₁, served₂, hrun⟩ :=
    served_of_applyTransformations (by simp) (by simp [customerEmails]) hrun served
  obtain ⟨_, s₃, σ₁, hnone, -, served₃, served₄, looks⟩ :=
    applied_of_applyBatches hR (checked _ (by simp)) (independent_of_one active_customerEmails) ht'
      hrun served₂
  cases hnone
  obtain rfl := served₄.eq_of_events rfl
  have apart := users_ne_orders ht ht'
  have known : ∀ row ∈ rows, row.IsOver columns ∧ (row "customer_email").isSome ∧
      (row "user_id").isSome := by
    intro row hrow
    obtain ⟨there, -⟩ := drew row hrow
    exact ⟨described ordersPath ht' row (by rwa [Store.rowsOf_eq hrows]),
      there _ (by decide), there _ (by decide)⟩
  obtain ⟨orders, rfl, looked⟩ := looks rows hrows
    (suits_customerEmails (customers.isThere one ht) known)
  rw [Store.rowsOf_set]
  refine ⟨Store.set_other apart, looked.length_eq.symm, ?_⟩
  intro order horder
  obtain ⟨before, hbefore, transforms⟩ := partner_left looked horder
  exact refersTo_of_transforms keeps ht customers (drew before hbefore).2 transforms

end Steps

/-- A run of the demo that ends well, on a database that serves it, leaves customers with the
numbers from 1 on, and orders that refer to them alone and have their addresses. The addresses are
made of the names that the customers had when the noise was about to be introduced. It leaves as
many orders as were asked for if the engine can count them, as it must for the customers. -/
theorem intact_of_scenario (pools : NamePools) {users : ℕ} (orders : ℕ) (one : 1 ≤ users)
    {R : Rules} {convert : Conversion} {c : Connection} {settings : GenerationSettings}
    (hR : R.engine = c.config.driver) (drops : settings.dropFirst = true)
    (counts : settings.Counts c.config.driver users)
    (keeps : KeepsNumbers R convert c.config.driver users) :
    ∃ demo, scenario pools (.int users) (.int orders) = .ok demo ∧
      ∀ (s s' : Session) (σ σ' : Store) (result : ScenarioResult),
        outcome (runScenario settings demo) c s = (.ok result, s') →
        Served R convert c.target σ s σ' s' →
        ∃ path ordersPath, c.target.tableRef (.text "users") = .ok path ∧
          c.target.tableRef (.text "orders") = .ok ordersPath ∧
          ∃ s₁ s₂ σ₁ σ₂ columns soFar done, Served R convert c.target σ s σ₁ s₁ ∧
            soFar.tableName = .text "users" ∧
            outcome (applyBatches settings.strictTemplates columns soFar [noise]) c s₁ =
              (.ok done, s₂) ∧
            Served R convert c.target σ₁ s₁ σ₂ s₂ ∧ Served R convert c.target σ₂ s₂ σ' s' ∧
            Intact R users (σ₁.rowsOf path) (σ'.rowsOf path) (σ'.rowsOf ordersPath) ∧
            (settings.Counts c.config.driver orders →
              (σ'.rowsOf ordersPath).length = orders) := by
  obtain ⟨demo, made, hsteps⟩ := scenario_ok pools orders one
  refine ⟨demo, made, fun s s' σ σ' result h served => ?_⟩
  obtain ⟨p, s₅, hrun, served₁, served₂⟩ := served_of_runScenario h served
  rw [hsteps, steps, List.foldlM_cons] at hrun
  obtain ⟨p₁, s₂, σ₂, hfirst, served₃, hrun, served₄⟩ := served₁.bind hrun
    (exchanging_runStep _ _ _) fun _ => exchanging_runSteps _ _ _
  rw [List.foldlM_cons] at hrun
  obtain ⟨p₂, s₃, σ₃, hsecond, served₅, hrun, served₆⟩ := served₄.bind hrun
    (exchanging_runStep _ _ _) fun _ => exchanging_runSteps _ _ _
  rw [List.foldlM_cons] at hrun
  obtain ⟨p₃, s₄, hthird, hrun⟩ := ok_of_bind hrun
  cases hrun
  obtain ⟨generated, creates, path, s₁, σ₁, columns, soFar, done, ht, named, before, hnoise, noised,
    customers⟩ := customers_of_step hR drops counts one keeps rfl hfirst served₃
  obtain ⟨ordersPath, rows, ht', hrows, elsewhere, count, drew⟩ :=
    orders_of_step hR drops creates one keeps generated hsecond served₅
  have apart := users_ne_orders ht ht'
  have untouched : σ₃.rowsOf path = σ₂.rowsOf path := by
    rw [Store.rowsOf, elsewhere path apart, Store.rowsOf]
  rw [← untouched] at customers
  obtain ⟨kept, length, refers⟩ :=
    refersTo_of_step hR one keeps ht ht' customers hrows drew hthird served₆
  have last : σ'.rowsOf path = σ₃.rowsOf path := by rw [Store.rowsOf, kept, Store.rowsOf]
  refine ⟨path, ordersPath, ht, ht', s₁, s₂, σ₁, σ₂, columns, soFar, done, before, named, hnoise,
    noised, served₅.trans (served₆.trans served₂), ?_⟩
  rw [last, length]
  exact ⟨⟨customers, refers⟩, count⟩

section Existence

variable {c : Connection} {s s' : Session} {settings : GenerationSettings}

/-- An answer that lists columns. -/
def listing (names : List String) : ResultSet := { rows := names.map fun n => [.text n] }

theorem firstFields_listing (names : List String) :
    firstFields (listing names) = names.map .text := by
  simp [firstFields, listing, Function.comp_def]

theorem isSome_of_listing {names : List String} (h : row.IsOver (firstFields (listing names)))
    {n : String} (hn : n ∈ names) : (row n).isSome := by
  rw [h n, firstFields_listing]
  exact List.mem_map_of_mem hn

theorem isVaried_userColumns (pools : NamePools) :
    ∀ c ∈ (usersTable pools).columns, c.generator.isVaried = true := by
  intro c hc
  simp only [usersTable, userColumns, List.mem_cons, List.not_mem_nil, or_false] at hc
  rcases hc with rfl | rfl | rfl | rfl | rfl | rfl | rfl | rfl <;> rfl

theorem isVaried_orderColumns (range : IntRange) :
    ∀ c ∈ (ordersTable range).columns, c.generator.isVaried = true := by
  intro c hc
  simp only [ordersTable, orderColumns, List.mem_cons, List.not_mem_nil, or_false] at hc
  rcases hc with rfl | rfl | rfl | rfl | rfl | rfl | rfl <;> rfl

section Lite

variable (R convert) {p p' : Progress} {answers : List ResultSet} (he : c.config.driver = .sqlite)
  (hR : R.engine = c.config.driver) (drops : settings.dropFirst = true)
  (creates : settings.createTable = true) (starts : settings.resumeSequences = false)
include he hR

theorem exists_served_of_customerEmails {path ordersPath : Path} {customers rows : List Row}
    (ht : c.target.tableRef (.text "users") = .ok path)
    (ht' : c.target.tableRef (.text "orders") = .ok ordersPath)
    (hcustomers : σ path = some customers)
    (known : ∀ row ∈ customers, row.IsOver (firstFields (listing userColumnNames)))
    (hrows : σ ordersPath = some rows)
    (known' : ∀ row ∈ rows, row.IsOver (firstFields (listing orderColumnNames)))
    (told : s.database.results = listing orderColumnNames :: answers)
    (h : outcome (runStep settings p (.transform ⟨.text "orders", [customerEmails]⟩)) c s =
      (.ok p', s')) :
    ∃ rows', Served R convert c.target σ s (σ.set ordersPath rows') s' := by
  have hl : R.engine.taking = .limit := by rw [hR, he]; rfl
  obtain ⟨_, hbatches⟩ := parts_of_transform h
  have suits : ∀ b ∈ [customerEmails], ∀ (σ₁ : Store) (rows' : List Row),
      (∀ other, other ≠ ordersPath → σ₁ other = σ other) →
        (∀ row ∈ rows', row.IsOver (firstFields (listing orderColumnNames))) →
          b.Suits c.target σ₁ (firstFields (listing orderColumnNames)) rows' := by
    intro b hb σ₁ rows' same known'
    cases List.mem_singleton.1 hb
    have stays : σ₁ path = some customers := (same path (users_ne_orders ht ht')).trans hcustomers
    have there : addressLookup.IsThere c.target σ₁ := isThere_of_columns ht stays fun row hrow =>
      ⟨isSome_of_listing (known row hrow) (by decide),
        isSome_of_listing (known row hrow) (by decide)⟩
    exact suits_customerEmails there fun row hrow => ⟨known' row hrow,
      isSome_of_listing (known' row hrow) (by decide),
      isSome_of_listing (known' row hrow) (by decide)⟩
  obtain ⟨rows', served, -, -⟩ :=
    exists_served_of_applyTransformations R convert hR hl (by simp) (by simp [customerEmails])
      told ht' suits hrows known' hbatches
  exact ⟨rows', served⟩

include drops creates starts

theorem exists_served_of_customers (new : p.generated = [])
    (told : s.database.results = listing userColumnNames :: answers)
    (h : outcome (runStep settings p (.generate ⟨usersTable pools, users, [emails, noise]⟩)) c s =
      (.ok p', s')) (σ : Store) :
    p'.generated = [.text "users"] ∧ ∃ path rows, c.target.tableRef (.text "users") = .ok path ∧
      Served R convert c.target σ s (σ.set path rows) s' ∧ s'.database.results = answers ∧
      ∀ row ∈ rows, row.IsOver (firstFields (listing userColumnNames)) := by
  have hd : c.target.dialect = .of .sqlite := congrArg Dialect.of he
  have hl : R.engine.taking = .limit := by rw [hR, he]; rfl
  have drawable : (usersTable pools).Drawable R convert c.target c.now :=
    Table.drawable_of_sqlite (hR.trans he) hd (isVaried_userColumns pools)
  obtain ⟨generated, _, s₁, hrows, result, hbatches⟩ := parts_of_generate drops (by rw [new]; rfl) h
  obtain ⟨path, held, ht, served, kept, known⟩ :=
    exists_served_of_generateRows creates starts drawable hrows σ
  rw [show (usersTable pools).columns.map Column.name = _ from map_name_userColumns pools,
    ← firstFields_listing] at known
  have suits : ∀ b ∈ [emails, noise], ∀ (σ₁ : Store) (rows : List Row),
      (∀ other, other ≠ path → σ₁ other = (σ.set path held) other) →
        (∀ row ∈ rows, row.IsOver (firstFields (listing userColumnNames))) →
          b.Suits c.target σ₁ (firstFields (listing userColumnNames)) rows := by
    intro b hb σ₁ rows _ known
    simp only [List.mem_cons, List.not_mem_nil, or_false] at hb
    rcases hb with rfl | rfl
    · exact suits_emails fun row hrow =>
        ⟨known row hrow, isSome_of_listing (known row hrow) (by decide)⟩
    · exact suits_noise fun row hrow =>
        ⟨known row hrow, fun n hn => isSome_of_listing (known row hrow) (by revert n; decide)⟩
  obtain ⟨rows, served', remaining, known'⟩ :=
    exists_served_of_applyTransformations R convert hR hl (by simp) (by simp [emails, noise])
      (kept.trans told) ht suits Store.set_same known hbatches
  rw [Store.set_set] at served'
  exact ⟨by rw [generated, new]; rfl, path, rows, ht, served.trans served', remaining, known'⟩

theorem exists_served_of_orders {range : IntRange} (generated : p.generated = [.text "users"])
    (h : outcome (runStep settings p (.generate ⟨ordersTable range, orders, []⟩)) c s =
      (.ok p', s')) (σ : Store) :
    ∃ path rows, c.target.tableRef (.text "orders") = .ok path ∧
      Served R convert c.target σ s (σ.set path rows) s' ∧
      s'.database.results = s.database.results ∧
      ∀ row ∈ rows, row.IsOver (firstFields (listing orderColumnNames)) := by
  have hd : c.target.dialect = .of .sqlite := congrArg Dialect.of he
  have drawable : (ordersTable range).Drawable R convert c.target c.now :=
    Table.drawable_of_sqlite (hR.trans he) hd (isVaried_orderColumns range)
  obtain ⟨-, _, s₁, hrows, last⟩ := parts_of_generate drops (by rw [generated]; rfl) h
  obtain rfl : s' = s₁ := last
  obtain ⟨path, rows, ht, served, kept, known⟩ :=
    exists_served_of_generateRows creates starts drawable hrows σ
  rw [show (ordersTable range).columns.map Column.name = _ from map_name_orderColumns range,
    ← firstFields_listing] at known
  exact ⟨path, rows, ht, served, kept, known⟩

/-- On SQLite every run of the demo that ends well is served by some database, if it was told the
columns of its tables. -/
theorem exists_served_of_scenario {demo : Scenario}
    (made : scenario pools (.int users) (.int orders) = .ok demo) (one : 1 ≤ users)
    (leaves : settings.optimize = false)
    (told : s.database.results = [listing userColumnNames, listing orderColumnNames])
    {result : ScenarioResult} (h : outcome (runScenario settings demo) c s = (.ok result, s'))
    (σ : Store) : ∃ σ', Served R convert c.target σ s σ' s' := by
  obtain ⟨_, made', hsteps⟩ := scenario_ok pools orders one
  cases made.symm.trans made'
  obtain ⟨p, s₃, hrun, same, hafter⟩ := parts_of_runScenario h
  have unmaintained : result.optimizedTables = [] := by simp [same, leaves]
  rw [unmaintained] at hafter
  cases hafter
  rw [hsteps, steps, List.foldlM_cons] at hrun
  obtain ⟨p₁, s₁, hfirst, hrun⟩ := ok_of_bind hrun
  rw [List.foldlM_cons] at hrun
  obtain ⟨p₂, s₂, hsecond, hrun⟩ := ok_of_bind hrun
  rw [List.foldlM_cons] at hrun
  obtain ⟨p₃, s₄, hthird, hrun⟩ := ok_of_bind hrun
  cases hrun
  obtain ⟨generated, path, customers, ht, served₁, remaining, known⟩ :=
    exists_served_of_customers R convert he hR drops creates starts rfl told hfirst σ
  obtain ⟨ordersPath, rows, ht', served₂, kept, known'⟩ :=
    exists_served_of_orders R convert he hR drops creates starts generated hsecond
      (σ.set path customers)
  have stays : ((σ.set path customers).set ordersPath rows) path = some customers := by
    rw [Store.set_other (users_ne_orders ht ht'), Store.set_same]
  obtain ⟨rows', served₃⟩ := exists_served_of_customerEmails R convert he hR ht ht' stays known
    Store.set_same known' (kept.trans remaining) hthird
  exact ⟨_, served₁.trans (served₂.trans served₃)⟩

end Lite

end Existence

section Small

def smallPools : NamePools where
  firstNames := ["ada", "grace"]
  lastNames := ["byron", "hopper"]
  cities := ["rome"]

def smallSettings : GenerationSettings :=
  { dropFirst := true, resumeSequences := false, optimize := false }

/-- The two descriptions of tables that the batches ask for. -/
def smallSession : Session where
  database := { results := [listing userColumnNames, listing orderColumnNames] }
  isOpen := true

def smallDemo : Except Error Scenario :=
  scenario smallPools (.int (2 : ℕ)) (.int (3 : ℕ))

theorem exists_run_of_smallDemo {demo : Scenario} (made : smallDemo = .ok demo) :
    ∃ result s',
      outcome (runScenario smallSettings demo) liteConnection smallSession = (.ok result, s') := by
  have runs : (smallDemo.toOption.bind fun demo =>
      (outcome (runScenario smallSettings demo) liteConnection smallSession).1.toOption).isSome =
        true := by
    decide +kernel
  rw [made] at runs
  exact ok_of_isSome runs

/-- Two customers and three orders of them on SQLite. -/
theorem intact_of_smallDemo :
    1 ≤ 2 ∧ ∃ demo result s' σ' path ordersPath named,
      scenario smallPools (.int (2 : ℕ)) (.int (3 : ℕ)) = .ok demo ∧
      outcome (runScenario smallSettings demo) liteConnection smallSession = (.ok result, s') ∧
      Served (.plain .sqlite) (fun _ v => v) liteConnection.target (fun _ => none) smallSession
        σ' s' ∧
      liteConnection.target.tableRef (.text "users") = .ok path ∧
      liteConnection.target.tableRef (.text "orders") = .ok ordersPath ∧
      Intact (.plain .sqlite) 2 named (σ'.rowsOf path) (σ'.rowsOf ordersPath) ∧
      (σ'.rowsOf ordersPath).length = 3 := by
  have keeps : KeepsNumbers (.plain .sqlite) (fun _ v => v) .sqlite 2 :=
    ⟨fun a b same => by simpa [Rules.plain] using same, fun _ _ _ => rfl⟩
  have one : 1 ≤ 2 := by decide
  have drops : smallSettings.dropFirst = true := rfl
  obtain ⟨demo, made, all⟩ := intact_of_scenario smallPools 3 one (R := .plain .sqlite)
    (c := liteConnection) rfl drops nofun keeps
  obtain ⟨result, s', h⟩ := exists_run_of_smallDemo made
  obtain ⟨σ', served⟩ := exists_served_of_scenario (.plain .sqlite) (fun _ v => v)
    (c := liteConnection) rfl rfl drops rfl rfl made one rfl rfl h fun _ => none
  obtain ⟨path, ordersPath, ht, ht', _, _, _, _, _, _, _, -, -, -, -, -, intact, count⟩ :=
    all _ _ _ _ _ h served
  exact ⟨one, demo, result, s', σ', path, ordersPath, _, made, h, served, ht, ht', intact,
    count nofun⟩

/-- On Trino, one insert for `10 ^ 16 + 1` customers makes one customer less. -/
theorem short_of_manyCustomers : beyondLevels = 10 ^ 16 + 1 ∧ ∃ i,
    trinoConnection.target.insertRows 0 (usersTable smallPools) beyondLevels 0 =
        .ok (.insert i) ∧
      ∀ w : Scene, (i.rows w).length = 10 ^ 16 := by
  obtain ⟨_, one⟩ := except_ok_of_isSome
    (x := trinoConnection.target.insertRows 0 (usersTable smallPools) 1 0) (by decide +kernel)
  obtain ⟨source, made⟩ := exists_source_beyondLevels
  obtain ⟨st, h⟩ := insertRows_ok_of_ok one made
  obtain ⟨i, e, rfl, he, rows⟩ := length_rows_of_insertRows h
  obtain rfl : .trino = e := Dialect.of.inj he
  exact ⟨rfl, i, h, fun w => (rows w).trans height_beyondLevels⟩

end Small

end SyntheticRows.Demo
