import SyntheticRows.Proofs.Run.ReplacementProtocol

/-!
# Sweeping up

What replacements of any tables leave in the catalogue, failing wherever they fail, and what a sweep
for one table drops of it. A sweep goes by the names alone, so besides the orphans of the table it
takes what else has such a name, and also names of that shape that end with a line feed.
-/
namespace SyntheticRows.Run
open Sql

variable {R : Rules} {t : Target} {σ σ₁ σ₂ : Store}

/-- The tables that a failed replacement names, each with the table that was to be replaced. -/
def leftBy : Except Error Unit → List (Value × String)
  | .error (.replacementFailed table _ orphans _) => orphans.map (table, ·)
  | _ => []

/-- Replacements one after the other, of any tables and each with a database that refuses what it
likes, under fresh names; and all the tables that they named when they failed. -/
inductive Series (R : Rules) (t : Target) : Store → Store → List (Value × String) → Prop
  | nil (σ : Store) : Series R t σ σ []
  /-- What cannot be compiled or sent leaves nothing. -/
  | idle {σ σ₁ σ₂ c s s' columns p res history left} : c.target = t → ¬Starts c s columns p →
    outcome (replaceTable columns p) c s = (res, s') → Sends c s s' history →
    Folded (Takes R) σ history σ₁ → Series R t σ₁ σ₂ left → Series R t σ σ₂ left
  | replace {σ σ₁ σ₂ c s s' columns p res history left} : c.target = t → Starts c s columns p →
    0 ≤ c.now →
    (∀ role path, t.tableRef (madeName p c s role) = .ok path → σ path = none) →
    outcome (replaceTable columns p) c s = (res, s') → Sends c s s' history →
    Folded (Takes R) σ history σ₁ → Series R t σ₁ σ₂ left →
    Series R t σ σ₂ (leftBy res ++ left)

/-- The tables that were added are those that were named. -/
structure Accounts (t : Target) (σ σ₁ : Store) (left : List (Value × String)) : Prop where
  present : ∀ path, (σ₁ path).isSome ↔
    (σ path).isSome ∨ ∃ x ∈ left, t.tableRef (.text x.2) = .ok path
  fresh : ∀ x ∈ left, ∃ path, t.tableRef (.text x.2) = .ok path ∧ σ path = none
  shaped : ∀ x ∈ left, ∃ table, x.1 = .text table ∧ Shadow.HasShape table x.2

namespace Accounts

theorem nothing : Accounts t σ σ [] := ⟨by simp, by simp, by simp⟩

theorem append {left more : List (Value × String)} (h : Accounts t σ σ₁ left)
    (h' : Accounts t σ₁ σ₂ more) : Accounts t σ σ₂ (left ++ more) where
  present path := by
    rw [h'.present, h.present]
    simp only [List.mem_append, or_and_right, exists_or, or_assoc]
  fresh x hx := by
    rcases List.mem_append.1 hx with hx | hx
    · exact h.fresh x hx
    · obtain ⟨path, hp, absent⟩ := h'.fresh x hx
      refine ⟨path, hp, ?_⟩
      by_contra there
      have : (σ₁ path).isSome := (h.present path).2 (.inl (Option.isSome_iff_ne_none.2 there))
      rw [absent] at this
      cases this
  shaped x hx := by
    rcases List.mem_append.1 hx with hx | hx
    · exact h.shaped x hx
    · exact h'.shaped x hx

/-- One table is added and named, and no other is lost. -/
theorem single {path : Path} {v : Value} {table name : String} (hv : v = .text table)
    (hp : t.tableRef (.text name) = .ok path) (shape : Shadow.HasShape table name)
    (added : σ.added σ₁ = {path}) (kept : ∀ other, (σ other).isSome → (σ₁ other).isSome) :
    Accounts t σ σ₁ [(v, name)] where
  present other := by
    have listed : other ∈ σ.added σ₁ ↔ other = path := by rw [added, Set.mem_singleton_iff]
    simp only [List.mem_singleton, exists_eq_left, hp, Except.ok.injEq]
    constructor
    · intro there
      by_cases before : (σ other).isSome = true
      · exact .inl before
      · exact .inr (listed.1 ⟨by simpa using before, there⟩).symm
    · rintro (before | rfl)
      · exact kept other before
      · exact (listed.2 rfl).2
  fresh x hx := by
    rw [List.mem_singleton] at hx
    subst hx
    have listed : path ∈ σ.added σ₁ := by rw [added, Set.mem_singleton_iff]
    exact ⟨path, hp, listed.1⟩
  shaped x hx := by
    rw [List.mem_singleton] at hx
    subst hx
    exact ⟨table, hv, shape⟩

theorem unchanged (h : ∀ path, (σ₁ path).isSome ↔ (σ path).isSome) : Accounts t σ σ₁ [] :=
  ⟨by simp [h], by simp, by simp⟩

end Accounts

section Replacement

variable {c : Connection} {s s' : Session} {columns : List Value} {p : ReplacementPass}
  {res : Except Error Unit} {history other : History}

/-- What was sent, and the words on it, are determined by the sessions. -/
theorem Sends.unique (h : Sends c s s' history) (h' : Sends c s s' other) : history = other := by
  have events := h.events.symm.trans h'.events
  have sent : history.map Prod.fst = other.map Prod.fst := by
    have := List.append_cancel_left events
    have := congrArg (List.filterMap Event.statement?) this
    simpa [List.filterMap_map, Function.comp_def, Event.statement?] using this
  have texts : history.texts c = other.texts c := by
    have := congrArg (List.map fun st : Statement => st.render c.target.writer) sent
    simpa [History.texts, Function.comp_def] using this
  have words : history.map Prod.snd = other.map Prod.snd := by rw [h.words, h'.words, texts]
  exact (List.zip_of_prod sent words).trans (List.zip_of_prod rfl rfl).symm

theorem eq_of_idle (hs : ¬Starts c s columns p)
    (h : outcome (replaceTable columns p) c s = (res, s')) (sent : Sends c s s' history)
    (hx : Folded (Takes R) σ history σ₁) : σ₁ = σ := by
  have none := (sends_nothing_of_not_starts hs h).1.unique sent
  subst none
  exact Folded.nil_iff.1 hx

theorem Ends.standing {table : Value} {shadow old : String} {r : Rebuild} {path : Path}
    (h : Ends table shadow old r path history res) (hx : Folded (Takes R) σ history σ₁) :
    (∃ reason, res = .error (.statementFailed reason) ∧ σ₁ = σ) ∨
      ∃ rows, σ r.table = some rows := by
  have first {rest : List Statement}
      (hx : ExecutesAll R σ (.createLike r.shadow r.table :: rest) σ₁) :
      ∃ rows, σ r.table = some rows := by
    obtain ⟨_, hcreate, _⟩ := Folded.cons_iff.1 hx
    cases hcreate with
    | createLike _ model => exact ⟨_, model⟩
  rw [← executesAll_acceptedOf] at hx
  cases h with
  | create reason => exact .inl ⟨reason, rfl, Folded.nil_iff.1 hx⟩
  | populate => exact .inr (first hx)
  | rename => exact .inr (first hx)
  | drop => exact .inr (first hx)
  | done => exact .inr (first hx)

/-- A replacement adds the tables that it names, and none if it names none. -/
theorem accounts_of_replaceTable (hs : Starts c s columns p) (hnow : 0 ≤ c.now)
    (fresh : ∀ role path, c.target.tableRef (madeName p c s role) = .ok path → σ path = none)
    (h : outcome (replaceTable columns p) c s = (res, s')) (sent : Sends c s s' history)
    (hx : Folded (Takes R) σ history σ₁) : Accounts c.target σ σ₁ (leftBy res) := by
  obtain ⟨hopen, st, hc⟩ := hs
  obtain ⟨r, old, hr⟩ := exists_rebuilds hc
  obtain ⟨_, sent', ends⟩ := hr.ends_of_replaceTable hopen h
  cases sent.unique sent'
  rcases ends.standing hx with ⟨reason, rfl, rfl⟩ | ⟨rows, hσ⟩
  · exact .nothing
  have fits := hr.fits hσ fresh
  have stage := ends.stage fits List.prefix_rfl hx
  have kept (other : Path) (before : (σ other).isSome) : (σ₁ other).isSome := by
    by_cases same : other = r.table
    · rw [same]
      exact fits.isSome_of_stage stage
    · rw [fits.other_of_stage stage before same]
      exact before
  obtain ⟨i, hi, _⟩ := Target.tableRef_last hr.table
  have named := Target.ident_text hi
  have shaped (role : ShadowRole) : Shadow.HasShape i.name
      (shadowName p.tableName role c.now (s.replacements + 1)) := by
    rw [named]
    exact Shadow.hasShape_shadowName i.name role hnow _
  cases ends with
  | create reason =>
    cases stage
    exact .nothing
  | populate reason =>
    exact .single named hr.shadow (shaped .new) (fits.added_of_shadow stage (.inl rfl)) kept
  | rename reason =>
    exact .single named hr.shadow (shaped .new) (fits.added_of_shadow stage (.inr rfl)) kept
  | drop reason =>
    exact .single named hr.old (shaped .old) (fits.added_of_old stage) kept
  | done =>
    cases stage with
    | replaced rows' =>
      refine .unchanged fun path => ⟨fun there => ?_, kept path⟩
      by_cases same : path = r.table
      · rw [same, hσ]
        rfl
      · rwa [Store.set_other same] at there

end Replacement

/-- Whatever fails in a series, the tables that were added are those that were named. -/
theorem Series.accounts {left : List (Value × String)} (h : Series R t σ σ₁ left) :
    Accounts t σ σ₁ left := by
  induction h with
  | nil σ => exact .nothing
  | idle ht hs hrun sent hx _ ih =>
    cases eq_of_idle hs hrun sent hx
    exact ih
  | replace ht hs hnow fresh hrun sent hx _ ih =>
    subst ht
    exact (accounts_of_replaceTable hs hnow fresh hrun sent hx).append ih

section Sweep

variable {c : Connection} {s s' : Session} {names : List String}

/-- A statement that drops a table. -/
def Drops (t : Target) (name : String) (st : Statement) : Prop :=
  ∃ path, t.tableRef (.text name) = .ok path ∧ st = .drop path

/-- Tables that can be named are dropped one after the other. -/
theorem drops_of_willing (names : List String) (hopen : s.isOpen = true)
    (willing : s.database.refusals = [])
    (named : ∀ name ∈ names, ∃ path, c.target.tableRef (.text name) = .ok path) :
    ∃ drops, List.Forall₂ (Drops c.target) names drops ∧
      outcome (names.forM fun name => do execute (← (← target).dropTable (.text name))) c s =
        (.ok (), { s with events := s.events ++ drops.map .executed }) := by
  induction names generalizing s with
  | nil => exact ⟨[], .nil, by simp⟩
  | cons name names ih =>
    obtain ⟨path, hp⟩ := named name List.mem_cons_self
    have compiled : c.target.dropTable (.text name) = .ok (.drop path) := by
      simp only [Target.dropTable, hp]
      rfl
    obtain ⟨drops, hd, rest⟩ := ih (s := { s with events := s.events ++ [.executed (.drop path)] })
      hopen willing fun n hn => named n (List.mem_cons_of_mem _ hn)
    refine ⟨.drop path :: drops, .cons ⟨path, hp, rfl⟩ hd, ?_⟩
    have first : outcome (do execute (← (← target).dropTable (.text name))) c s =
        (.ok (), { s with events := s.events ++ [.executed (.drop path)] }) := by
      simp only [outcome_bind, outcome_target, outcome_lift, compiled,
        execute_of_willing hopen willing]
    show outcome ((do execute (← (← target).dropTable (.text name))) >>= fun _ =>
      names.forM fun name => do execute (← (← target).dropTable (.text name))) c s = _
    rw [outcome_bind, first]
    refine rest.trans ?_
    simp

theorem outcome_texts {f : Value → Run String} (hf : ∀ name, f (.text name) = pure name)
    (names : List String) (s : Session) :
    outcome ((names.map Value.text).mapM f) c s = (.ok names, s) := by
  induction names with
  | nil => rfl
  | cons name names ih =>
    rw [List.map_cons, List.mapM_cons, hf]
    simp only [outcome_bind, outcome_pure, ih]

/-- The session can list its tables, and the database drops what it is told to. -/
structure CanSweep (c : Connection) (s : Session) (q : CatalogQuery) (names : List String) :
    Prop where
  query : c.target.tablesQuery = .ok q
  isOpen : s.isOpen = true
  willing : s.database.refusals = []
  listing : ∃ listing rest, s.database.results = listing :: rest ∧
    firstFields listing = names.map .text

/-- A sweep drops the tables that it takes for orphans, in the order in which they are listed. -/
theorem outcome_sweepOrphans {q : CatalogQuery} (h : CanSweep c s q names) (table : String)
    (named : ∀ name ∈ names, ∃ path, c.target.tableRef (.text name) = .ok path) :
    ∃ s' drops, List.Forall₂ (Drops c.target) (names.filter (Shadow.isOrphanOf table)) drops ∧
      outcome (sweepOrphans table) c s = (.ok (names.filter (Shadow.isOrphanOf table)), s') ∧
      s'.events = s.events ++ .queried q :: drops.map .executed := by
  obtain ⟨listing, rest, results, fields⟩ := h.listing
  set s₁ : Session := (s.after (.queried q) q.text).answered with hs₁
  have queried : outcome (query q) c s = (.ok listing, s₁) := by
    simp only [query, outcome_bind, outcome_send, if_pos h.isOpen, accept_of_willing h.willing,
      outcome_nextResult, Session.after, Database.answer, results, hs₁]
  have willing : s₁.database.refusals = [] := by
    simp only [hs₁, Session.answered, Session.after, accept_of_willing h.willing,
      Database.answer, results]
    exact h.willing
  obtain ⟨drops, dropped, ran⟩ := drops_of_willing (c := c) (s := s₁)
    (names.filter (Shadow.isOrphanOf table)) h.isOpen willing
    fun name hn => named name (List.mem_of_mem_filter hn)
  refine ⟨{ s₁ with events := s₁.events ++ drops.map .executed }, drops, dropped, ?_, ?_⟩
  · unfold sweepOrphans
    simp only [outcome_bind, outcome_target, outcome_lift, h.query, queried, fields]
    rw [outcome_texts fun _ => rfl]
    simp only [ran, outcome_pure]
  · simp [hs₁]

/-- Dropping takes the tables that are named and no others. -/
theorem store_of_drops {names : List String} {drops : List Statement}
    (h : List.Forall₂ (Drops t) names drops) (hx : ExecutesAll R σ drops σ₁) (path : Path) :
    ((∃ name ∈ names, t.tableRef (.text name) = .ok path) → σ₁ path = none) ∧
      ((∀ name ∈ names, t.tableRef (.text name) ≠ .ok path) → σ₁ path = σ path) := by
  induction h generalizing σ with
  | nil =>
    cases Folded.nil_iff.1 hx
    simp
  | @cons name st names drops hd _ ih =>
    obtain ⟨at', hat, rfl⟩ := hd
    obtain ⟨σ', hdrop, hrest⟩ := Folded.cons_iff.1 hx
    cases hdrop
    obtain ⟨gone, kept⟩ := ih hrest
    constructor
    · rintro ⟨other, hm, ho⟩
      by_cases later : ∃ other ∈ names, t.tableRef (.text other) = .ok path
      · exact gone later
      · rcases List.mem_cons.1 hm with rfl | hm
        · cases hat.symm.trans ho
          rw [kept fun other hm ho => later ⟨other, hm, ho⟩]
          exact Function.update_self ..
        · exact (later ⟨other, hm, ho⟩).elim
    · intro none
      have apart : path ≠ at' := by
        rintro rfl
        exact none name List.mem_cons_self hat
      rw [kept fun other hm => none other (List.mem_cons_of_mem _ hm)]
      exact Function.update_of_ne apart ..

/-- The names are those of the tables that there are. -/
structure Lists (t : Target) (σ : Store) (names : List String) : Prop where
  named : ∀ name ∈ names, ∃ path, t.tableRef (.text name) = .ok path
  present : ∀ name path, t.tableRef (.text name) = .ok path → (name ∈ names ↔ (σ path).isSome)

/-- The tables of a catalogue whose names have the shape of a table's orphans, if one line feed at
the end does not count. -/
def LooksLeft (t : Target) (σ : Store) (table name : String) : Prop :=
  (∃ path, t.tableRef (.text name) = .ok path ∧ (σ path).isSome) ∧
    (Shadow.HasShape table name ∨ ∃ shaped, Shadow.HasShape table shaped ∧ name = shaped ++ "\n")

namespace Lists

theorem nothing : Lists t (fun _ => none) [] := ⟨by simp, by simp⟩

theorem add {name : String} {path : Path} (rows : List Row) (h : Lists t σ names)
    (hp : t.tableRef (.text name) = .ok path) : Lists t (σ.set path rows) (names ++ [name]) where
  named other hm := by
    rcases List.mem_append.1 hm with hm | hm
    · exact h.named other hm
    · rw [List.mem_singleton.1 hm]
      exact ⟨path, hp⟩
  present other at' ho := by
    rw [List.mem_append, List.mem_singleton]
    by_cases same : other = name
    · subst same
      cases hp.symm.trans ho
      simp
    · have apart : at' ≠ path := by
        rintro rfl
        exact same (Value.text.inj (Target.tableRef_injective ho hp))
      rw [Store.set_other apart, ← h.present other at' ho]
      simp [same]

end Lists

theorem mem_orphans_iff {left : List (Value × String)} (h : Accounts t σ σ₁ left)
    (listed : Lists t σ₁ names) {table name : String} :
    name ∈ names.filter (Shadow.isOrphanOf table) ↔
      (.text table, name) ∈ left ∨ LooksLeft t σ table name := by
  rw [List.mem_filter]
  constructor
  · rintro ⟨hm, orphan⟩
    obtain ⟨path, hp⟩ := listed.named name hm
    rcases (h.present path).1 ((listed.present name path hp).1 hm) with before | ⟨x, hx, hxp⟩
    · exact .inr ⟨⟨path, hp, before⟩, Shadow.isOrphanOf_iff.1 orphan⟩
    · have same : x.2 = name := Value.text.inj (Target.tableRef_injective hxp hp)
      obtain ⟨owner, howner, shape⟩ := h.shaped x hx
      rw [same] at shape
      cases (Shadow.isOrphanOf_of_hasShape shape).1 orphan
      left
      rwa [← howner, ← same]
  · rintro (hx | ⟨⟨path, hp, before⟩, shape⟩)
    · obtain ⟨path, hp, _⟩ := h.fresh _ hx
      obtain ⟨owner, howner, shape⟩ := h.shaped _ hx
      cases howner
      refine ⟨(listed.present name path hp).2 ((h.present path).2 (.inr ⟨_, hx, hp⟩)), ?_⟩
      exact (Shadow.isOrphanOf_of_hasShape shape).2 rfl
    · refine ⟨(listed.present name path hp).2 ((h.present path).2 (.inl before)), ?_⟩
      exact Shadow.isOrphanOf_iff.2 shape

/-- What a sweep did: it returned and dropped these tables, and left all others. -/
def Sweeps (R : Rules) (c : Connection) (s : Session) (q : CatalogQuery) (table : String)
    (σ : Store) (dropped : List String) : Prop :=
  ∃ s' drops, outcome (sweepOrphans table) c s = (.ok dropped, s') ∧
    s'.events = s.events ++ .queried q :: drops.map .executed ∧
    List.Forall₂ (Drops c.target) dropped drops ∧
    ∀ σ', ExecutesAll R σ drops σ' → ∀ path,
      ((∃ name ∈ dropped, c.target.tableRef (.text name) = .ok path) → σ' path = none) ∧
        ((∀ name ∈ dropped, c.target.tableRef (.text name) ≠ .ok path) → σ' path = σ path)

/-- Of the names that replacements make, a sweep takes those made for its table. After any series of
replacements it takes the orphans of its table, and what was there before under a name that looks
like theirs, a line feed at the end included. -/
theorem sweeps_of_series (table : String) :
    (∀ (other : String) (role : ShadowRole) (now : Int) (tag : ℕ), 0 ≤ now →
      (Shadow.isOrphanOf table (shadowName (.text other) role now tag) = true ↔ table = other)) ∧
    ∀ (R : Rules) (c : Connection) (s : Session) (q : CatalogQuery) (σ σ₁ : Store)
      (left : List (Value × String)) (names : List String),
      Series R c.target σ σ₁ left → Lists c.target σ₁ names → CanSweep c s q names →
      ∃ dropped, dropped.Sublist names ∧
        (∀ name, name ∈ dropped ↔
          (.text table, name) ∈ left ∨ LooksLeft c.target σ table name) ∧
        Sweeps R c s q table σ₁ dropped := by
  constructor
  · intro other role now tag hnow
    exact Shadow.isOrphanOf_of_hasShape (Shadow.hasShape_shadowName other role hnow tag)
  · intro R c s q σ σ₁ left names series listed able
    obtain ⟨s', drops, dropped, ran, events⟩ := outcome_sweepOrphans able table listed.named
    refine ⟨_, List.filter_sublist, fun name => mem_orphans_iff series.accounts listed,
      ⟨s', drops, ran, events, dropped, fun σ' hx path => store_of_drops dropped hx path⟩⟩

section RefusedPopulate

/-- A session that finds a table and what a replacement of it left. -/
def sweepSession : Session where
  isOpen := true
  database :=
    { results := [{ rows := [[.text "t"], [.text "_t_new_1700000000_00000001"]] }] }

/-- The insert is refused once the shadow table is there. -/
theorem exists_series_of_refusedPopulate {table : Path}
    (ht : swapConnection.target.tableRef (.text "t") = .ok table) :
    ∃ shadow, swapConnection.target.tableRef (.text "_t_new_1700000000_00000001") = .ok shadow ∧
      Series (.plain .clickhouse) swapConnection.target (Store.set (fun _ => none) table [])
        ((Store.set (fun _ => none) table []).set shadow [])
        [(.text "t", "_t_new_1700000000_00000001")] := by
  set σ : Store := Store.set (fun _ => none) table [] with hσ
  have starts : Starts swapConnection (refusingSession "INSERT") [.text "a", .text "b"] swapPass :=
    ⟨rfl, except_ok_of_isSome (by decide +kernel)⟩
  obtain ⟨hopen, st, content⟩ := starts
  have fresh : ∀ role path, swapConnection.target.tableRef
      (madeName swapPass swapConnection (refusingSession "INSERT") role) = .ok path →
        σ path = none := by
    intro role path hp
    refine Store.set_other ?_
    rintro rfl
    have same := Value.text.inj (Target.tableRef_injective ht hp)
    cases role <;> revert same <;> decide +kernel
  have failed : failsAt .populate ["_t_new_1700000000_00000001"]
      (refusedReplacement "INSERT").1 = true := by
    decide +kernel
  rcases hk : refusedReplacement "INSERT" with ⟨res, s'⟩
  rw [hk] at failed
  obtain ⟨r, old, hr⟩ := exists_rebuilds content
  obtain ⟨history, sent, ends⟩ := hr.ends_of_replaceTable hopen hk
  cases ht.symm.trans hr.table
  have created : Executes (.plain .clickhouse) σ (.createLike r.shadow r.table)
      (σ.set r.shadow []) :=
    .createLike (fresh .new _ hr.shadow) Store.set_same
  cases ends with
  | create => cases failed
  | rename => simp [failsAt] at failed
  | drop => simp [failsAt] at failed
  | done => cases failed
  | populate reason =>
    refine ⟨r.shadow, hr.shadow, ?_⟩
    refine .replace rfl ⟨hopen, st, content⟩ (by decide) fresh hk sent ?_ (.nil _)
    exact Folded.cons_iff.2 ⟨_, created, Folded.cons_iff.2 ⟨_, rfl, Folded.nil_iff.2 rfl⟩⟩

/-- The shadow table that was left is dropped, and the table stays. -/
theorem sweeps_of_refusedPopulate : ∃ table shadow q,
    swapConnection.target.tableRef (.text "t") = .ok table ∧
      Series (.plain .clickhouse) swapConnection.target (Store.set (fun _ => none) table [])
        ((Store.set (fun _ => none) table []).set shadow [])
        [(.text "t", "_t_new_1700000000_00000001")] ∧
      Sweeps (.plain .clickhouse) swapConnection sweepSession q "t"
        ((Store.set (fun _ => none) table []).set shadow []) ["_t_new_1700000000_00000001"] := by
  obtain ⟨table, ht⟩ := except_ok_of_isSome
    (x := swapConnection.target.tableRef (.text "t")) (by decide +kernel)
  obtain ⟨q, hq⟩ := except_ok_of_isSome (x := swapConnection.target.tablesQuery)
    (by decide +kernel)
  obtain ⟨shadow, hs, series⟩ := exists_series_of_refusedPopulate ht
  have listed := (Lists.nothing.add [] ht).add [] hs
  obtain ⟨dropped, sublist, members, sweeps⟩ := (sweeps_of_series "t").2 (.plain .clickhouse)
    swapConnection sweepSession q _ _ _ _ series listed ⟨hq, rfl, rfl, _, _, rfl, rfl⟩
  have kept : "t" ∉ dropped := by
    rw [members]
    rintro (named | ⟨_, shape⟩)
    · simp at named
    · exact absurd (Shadow.isOrphanOf_iff.2 shape) (by decide +kernel)
  have left : "_t_new_1700000000_00000001" ∈ dropped :=
    (members _).2 (.inl List.mem_cons_self)
  refine ⟨table, shadow, q, ht, series, ?_⟩
  have same : dropped = ["_t_new_1700000000_00000001"] := by
    cases sublist with
    | cons _ rest => exact rest.eq_of_length_le (List.length_pos_of_mem left)
    | cons_cons => exact (kept List.mem_cons_self).elim
  rwa [same] at sweeps

end RefusedPopulate

section TrailingFeed

/-- A session that finds one table, whose name ends in a line feed. -/
def feedSession : Session where
  isOpen := true
  database := { results := [{ rows := [[.text "_a_new_1_ab\n"]] }] }

def feedSweep : Except Error (List String) × Session :=
  outcome (sweepOrphans "a") swapConnection feedSession

/-- No replacement made a table of this name, and it has not the shape of an orphan's. The sweep
drops it. -/
theorem swept_without_shape :
    feedSweep.1.toOption = some ["_a_new_1_ab\n"] ∧ feedSweep.2.statements.length = 1 ∧
      ¬Shadow.HasShape "a" "_a_new_1_ab\n" := by
  refine ⟨by decide +kernel, by decide +kernel, ?_⟩
  rintro ⟨role, digits, hex, same, timed, tagged⟩
  have spelled : "_a_new_1_ab\n".toList =
      Shadow.shape "a".toList .new ['1'] ['a', 'b', '\n'] := by decide +kernel
  have second : Shadow.IsRun Text.isDecimal ['1'] := ⟨by decide, by simp; decide⟩
  obtain ⟨_, rfl⟩ := Shadow.shape_injective second timed (by decide)
    (tagged.not_mem Shadow.separator_not_hex) (spelled.symm.trans same)
  exact tagged.not_mem Shadow.feed_not_hex (by decide)

end TrailingFeed

end Sweep

end SyntheticRows.Run
