import Mathlib.Data.List.Perm.Basic
import SyntheticRows.Proofs.Meaning.Template

/-!
# Transformations at once

What a transformation gives depends only on what it reads. So transformations that assign different
columns can be applied in any order, and in two parts if the second part reads nothing that the
first assigns.
-/
namespace SyntheticRows
open Sql
open scoped List

variable {R : Rules} {t : Target} {tables tables' : Store} {columns : List Value}
  {row row' : Row} {tr : Transformation} {c : Chance} {g : List (String × Datum)}

theorem Transformation.mem_names {values : List Value} {name : String} :
    name ∈ names values ↔ .text name ∈ values := by
  simp only [names, List.mem_filterMap]
  constructor
  · rintro ⟨v, hv, hn⟩
    cases v <;> cases hn
    exact hv
  · intro h
    exact ⟨_, h, rfl⟩

theorem Template.content_of_agree {lowercase : Bool} {text : List Char}
    (h : ∀ name ∈ reads columns text, row' name = row name) :
    content R columns row' lowercase text = content R columns row lowercase text := by
  unfold content
  congr 3
  refine List.map_congr_left fun p hp => ?_
  cases p with
  | text s => rfl
  | placeholder name =>
    by_cases hc : isColumn columns name = true
    · have read : String.ofList name ∈ reads columns text :=
        List.mem_filterMap.2 ⟨_, hp, if_pos hc⟩
      simp only [pieceText, if_pos hc, h _ read]
    · simp only [pieceText, if_neg hc]

namespace Transformation.Gives

theorem keys (h : tr.Gives R t tables columns row c g) : g.map Prod.fst = tr.assigned := by
  cases h with
  | template hc => simp [assigned, assignedColumns, names, hc]
  | mutation hc => simp [assigned, assignedColumns, names, hc]
  | lookup hc => simp [assigned, assignedColumns, names, hc]
  | swap h₁ h₂ => split <;> simp [assigned, assignedColumns, names, h₁, h₂]

theorem there (h : tr.Gives R t tables columns row c g) : ∀ n ∈ g.map Prod.fst, (row n).isSome := by
  intro n hn
  cases h with
  | template _ hs =>
    rw [List.map_singleton, List.mem_singleton] at hn
    rwa [hn]
  | mutation _ hx =>
    rw [List.map_singleton, List.mem_singleton] at hn
    rw [hn, hx, Option.isSome_some]
  | lookup _ hs =>
    rw [List.map_singleton, List.mem_singleton] at hn
    rwa [hn]
  | swap _ _ hx hy =>
    split at hn <;> simp only [List.map_cons, List.map_nil, List.mem_cons, List.not_mem_nil,
      or_false] at hn <;> rcases hn with rfl | rfl <;> simp [hx, hy]

/-- A transformation gives the same to a row in which the columns that it reads are the same. -/
theorem of_agree (h : tr.Gives R t tables columns row c g)
    (hr : ∀ n ∈ tr.reads columns, row' n = row n)
    (ha : ∀ n ∈ tr.assigned, (row' n).isSome = (row n).isSome)
    (ht : ∀ l, tr = .lookup l → ∀ source, t.tableRef l.fromTable = .ok source →
      tables' source = tables source) :
    tr.Gives R t tables' columns row' c g := by
  cases h with
  | @template tr column text c hc hs htext hreads =>
    simp only [reads, htext] at hr
    have there := ha column (by simp [assigned, assignedColumns, names, hc])
    rw [← Template.content_of_agree hr]
    exact .template hc (there ▸ hs) htext fun n hn => hr n hn ▸ hreads n hn
  | @mutation m column x c hc hx =>
    have same := hr column (mem_names.2 (by simp [hc]))
    exact .mutation hc (same ▸ hx)
  | @lookup l column target x v source key wanted c hc hs htarget hx hsource hkey hwanted hf =>
    have same := hr target (mem_names.2 (by simp [htarget]))
    have there := ha column (by simp [assigned, assignedColumns, names, hc])
    refine .lookup hc (there ▸ hs) htarget (same ▸ hx) hsource hkey hwanted ?_
    unfold Finds at hf ⊢
    rwa [ht l rfl source hsource]
  | @swap s first second x y c h₁ h₂ hx hy =>
    have same₁ := hr first (mem_names.2 (by simp [h₁]))
    have same₂ := hr second (mem_names.2 (by simp [h₂]))
    exact .swap h₁ h₂ (same₁ ▸ hx) (same₂ ▸ hy)

/-- Whatever is drawn, a transformation gives something to a row that has what it names. -/
theorem exists_of_fits (h : tr.Fits t tables columns row) (c : Chance) :
    ∃ g, tr.Gives R t tables columns row c g := by
  cases tr with
  | template tr =>
    obtain ⟨⟨column, hc, hs⟩, text, htext, hall⟩ := h
    exact ⟨_, .template hc hs htext hall⟩
  | mutation m =>
    obtain ⟨column, hc, hs⟩ := h
    obtain ⟨x, hx⟩ := Option.isSome_iff_exists.1 hs
    exact ⟨_, .mutation hc hx⟩
  | lookup l =>
    obtain ⟨⟨column, hc, hs⟩, ⟨target, htarget, hst⟩, source, key, wanted, rows, hsource, hkey,
      hwanted, hrows, there⟩ := h
    obtain ⟨x, hx⟩ := Option.isSome_iff_exists.1 hst
    by_cases hm : ∃ row ∈ rows, row.Matches R key x
    · suffices taken : ∃ v, ∃ row ∈ rows, row.Matches R key x ∧ row wanted.name = some v ∧
          (v = .null → ∀ other ∈ rows, other.Matches R key x →
            other wanted.name = some .null) by
        obtain ⟨v, found, hfound, hmatch, hv, hnull⟩ := taken
        exact ⟨_, .lookup hc hs htarget hx hsource hkey hwanted
          ⟨rows, hrows, there, .inl ⟨found, hfound, hmatch, hv, fun _ => hnull⟩⟩⟩
      by_cases hn : ∀ other ∈ rows, other.Matches R key x → other wanted.name = some .null
      · obtain ⟨found, hfound, hmatch⟩ := hm
        exact ⟨.null, found, hfound, hmatch, hn found hfound hmatch, fun _ => hn⟩
      · push Not at hn
        obtain ⟨found, hfound, hmatch, hfull⟩ := hn
        obtain ⟨v, hv⟩ := Option.isSome_iff_exists.1 (there found hfound).2
        refine ⟨v, found, hfound, hmatch, hv, ?_⟩
        rintro rfl
        exact (hfull hv).elim
    · refine ⟨_, .lookup hc hs htarget hx hsource hkey hwanted
        ⟨rows, hrows, there, .inr ⟨fun found hfound hmatch => ?_, rfl⟩⟩⟩
      exact hm ⟨found, hfound, hmatch⟩
  | swap s =>
    obtain ⟨⟨first, h₁, hs₁⟩, ⟨second, h₂, hs₂⟩⟩ := h
    obtain ⟨x, hx⟩ := Option.isSome_iff_exists.1 hs₁
    obtain ⟨y, hy⟩ := Option.isSome_iff_exists.1 hs₂
    exact ⟨_, .swap h₁ h₂ hx hy⟩
  | other kind => exact h.elim

end Transformation.Gives

/-- The tables that the transformations look up are the same. -/
def SameTables (t : Target) (trs : List Transformation) (tables tables' : Store) : Prop :=
  ∀ l, .lookup l ∈ trs → ∀ source, t.tableRef l.fromTable = .ok source →
    tables' source = tables source

theorem SameTables.symm {trs : List Transformation} (h : SameTables t trs tables tables') :
    SameTables t trs tables' tables := fun l hl source hs => (h l hl source hs).symm

theorem SameTables.isThere {trs : List Transformation} {l : Lookup}
    (h : SameTables t trs tables tables') (hl : .lookup l ∈ trs) (there : l.IsThere t tables) :
    l.IsThere t tables' := by
  obtain ⟨source, key, wanted, rows, hsource, hkey, hwanted, hrows, hall⟩ := there
  exact ⟨source, key, wanted, rows, hsource, hkey, hwanted, h l hl source hsource ▸ hrows, hall⟩

/-- Whether a transformation fits depends on which columns are there, and on its table. -/
theorem Transformation.Fits.congr {trs : List Transformation} (hf : tr.Fits t tables columns row)
    (h : SameTables t trs tables tables') (htr : tr ∈ trs)
    (hr : ∀ n, (row' n).isSome = (row n).isSome) : tr.Fits t tables' columns row' := by
  have has {v : Value} : row.Has v → row'.Has v := by
    rintro ⟨c, hc, hs⟩
    exact ⟨c, hc, hr c ▸ hs⟩
  cases tr with
  | template tr =>
    obtain ⟨hc, s, htext, hall⟩ := hf
    exact ⟨has hc, s, htext, fun n hn => hr n ▸ hall n hn⟩
  | mutation m => exact has hf
  | lookup l => exact ⟨has hf.1, has hf.2.1, h.isThere htr hf.2.2⟩
  | swap s => exact ⟨has hf.1, has hf.2⟩
  | other kind => exact hf.elim

namespace Simultaneous

variable {as bs : List (Transformation × Chance)}

theorem of_tables (h : SameTables t (as.map Prod.fst) tables tables')
    (hs : Simultaneous R t tables columns as row row') :
    Simultaneous R t tables' columns as row row' := by
  obtain ⟨gs, hg, rfl⟩ := hs
  refine ⟨gs, ?_, rfl⟩
  refine (pairing_mem hg).imp fun a g hag => ?_
  refine hag.2.of_agree (fun _ _ => rfl) (fun _ _ => rfl) fun l hl source hs => ?_
  exact h l (hl ▸ List.mem_map_of_mem hag.1) source hs

/-- The names that transformations assign. -/
theorem keys {gs : List (List (String × Datum))}
    (h : List.Forall₂ (fun a g => a.1.Gives R t tables columns row a.2 g) as gs) :
    gs.flatten.map Prod.fst = (as.map Prod.fst).flatMap Transformation.assigned := by
  induction h with
  | nil => rfl
  | cons ha _ ih => simp [ih, ha.keys]

theorem there {gs : List (List (String × Datum))}
    (h : List.Forall₂ (fun a g => a.1.Gives R t tables columns row a.2 g) as gs) :
    ∀ n ∈ gs.flatten.map Prod.fst, (row n).isSome := by
  intro n hn
  obtain ⟨v, hv, rfl⟩ := List.mem_map.1 hn
  obtain ⟨g, hg, hv⟩ := List.mem_flatten.1 hv
  obtain ⟨a, _, ha⟩ := partner_left h hg
  exact ha.there _ (List.mem_map_of_mem hv)

@[simp] theorem nil : Simultaneous R t tables columns [] row row' ↔ row' = row := by
  constructor
  · rintro ⟨gs, h, rfl⟩
    cases h
    rfl
  · rintro rfl
    exact ⟨[], .nil, rfl⟩

/-- Columns that are there stay there. -/
theorem isSome (h : Simultaneous R t tables columns as row row') (n : String) :
    (row' n).isSome = (row n).isSome := by
  obtain ⟨gs, hg, rfl⟩ := h
  exact Row.isSome_assign (there hg)

/-- Columns that nothing assigns stay as they are. -/
theorem unassigned (h : Simultaneous R t tables columns as row row') {n : String}
    (hn : n ∉ (as.map Prod.fst).flatMap Transformation.assigned) : row' n = row n := by
  obtain ⟨gs, hg, rfl⟩ := h
  exact Row.assign_of_not_mem (by rwa [keys hg])

theorem exists_of_fits (h : ∀ a ∈ as, a.1.Fits t tables columns row) :
    ∃ row', Simultaneous R t tables columns as row row' := by
  obtain ⟨gs, hg⟩ := pairing_of_forall fun a ha =>
    Transformation.Gives.exists_of_fits (R := R) (h a ha) a.2
  exact ⟨_, gs, hg, rfl⟩

/-- A second part that reads and assigns nothing of what the first assigns may come later. -/
theorem append
    (hd : ∀ b ∈ bs, ∀ n ∈ b.1.assigned, n ∉ (as.map Prod.fst).flatMap Transformation.assigned)
    (hr : ∀ b ∈ bs, ∀ n ∈ b.1.reads columns,
      n ∉ (as.map Prod.fst).flatMap Transformation.assigned) :
    Simultaneous R t tables columns (as ++ bs) row row' ↔
      ∃ mid, Simultaneous R t tables columns as row mid ∧
        Simultaneous R t tables columns bs mid row' := by
  have apart {gs gs' : List (List (String × Datum))} {mid : Row}
      (hg : List.Forall₂ (fun a g => a.1.Gives R t tables columns row a.2 g) as gs)
      (hg' : List.Forall₂ (fun a g => a.1.Gives R t tables columns mid a.2 g) bs gs') :
      row.assign (gs ++ gs').flatten = (row.assign gs.flatten).assign gs'.flatten := by
    rw [List.flatten_append]
    refine Row.assign_append fun n hn => ?_
    rw [keys hg', List.mem_flatMap] at hn
    obtain ⟨tr, htr, hn⟩ := hn
    obtain ⟨b, hb, rfl⟩ := List.mem_map.1 htr
    rw [keys hg]
    exact hd b hb n hn
  constructor
  · rintro ⟨all, hall, rfl⟩
    obtain ⟨gs, gs', hg, hg', rfl⟩ := pairing_append.1 hall
    have first : Simultaneous R t tables columns as row (row.assign gs.flatten) := ⟨gs, hg, rfl⟩
    refine ⟨_, first, gs', ?_, apart hg hg'⟩
    refine (pairing_mem hg').imp fun b g h => ?_
    exact h.2.of_agree (fun n hn => first.unassigned (hr b h.1 n hn)) (fun n _ => first.isSome n)
      fun _ _ _ _ => rfl
  · rintro ⟨mid, first, gs', hg', rfl⟩
    have hback : List.Forall₂ (fun a g => a.1.Gives R t tables columns row a.2 g) bs gs' := by
      refine (pairing_mem hg').imp fun b g h => ?_
      exact h.2.of_agree (fun n hn => (first.unassigned (hr b h.1 n hn)).symm)
        (fun n _ => (first.isSome n).symm) fun _ _ _ _ => rfl
    obtain ⟨gs, hg, rfl⟩ := first
    exact ⟨gs ++ gs', List.rel_append hg hback, (apart hg hg').symm⟩

/-- Transformations that assign different columns can be listed in any order. -/
theorem perm (hp : as.Perm bs) (hn : ((as.map Prod.fst).flatMap Transformation.assigned).Nodup)
    (h : Simultaneous R t tables columns as row row') :
    Simultaneous R t tables columns bs row row' := by
  obtain ⟨gs, hg, rfl⟩ := h
  obtain ⟨gs', hg', hgs⟩ := List.perm_comp_forall₂ hp.symm hg
  refine ⟨gs', hg', Row.assign_of_perm hgs.symm.flatten ?_⟩
  rwa [keys hg]

end Simultaneous

namespace Transforms

variable {as bs : List Transformation}

@[simp] theorem nil : Transforms R t tables columns [] row row' ↔ row' = row := by
  constructor
  · rintro ⟨cs, hcs, _, h⟩
    rw [List.map_eq_nil_iff] at hcs
    subst hcs
    exact Simultaneous.nil.1 h
  · rintro rfl
    exact ⟨[], rfl, by simp, Simultaneous.nil.2 rfl⟩

theorem of_tables (h : SameTables t as tables tables')
    (ht : Transforms R t tables columns as row row') :
    Transforms R t tables' columns as row row' := by
  obtain ⟨cs, rfl, hfor, hs⟩ := ht
  exact ⟨cs, rfl, hfor, hs.of_tables h⟩

theorem one : Transforms R t tables columns [tr] row row' ↔
    ∃ c : Chance, c.IsFor R.engine ∧ ∃ g, tr.Gives R t tables columns row c g ∧
      row' = row.assign g := by
  constructor
  · rintro ⟨cs, hcs, hfor, gs, hg, rfl⟩
    obtain ⟨⟨_, c⟩, rest, rfl, rfl, hrest⟩ := List.map_eq_cons_iff.1 hcs
    rw [List.map_eq_nil_iff] at hrest
    subst hrest
    cases hg with
    | cons hc hnil =>
      cases hnil
      exact ⟨c, hfor _ List.mem_cons_self, _, hc, by rw [List.flatten_singleton]⟩
  · rintro ⟨c, hc, g, hg, rfl⟩
    exact ⟨[(tr, c)], rfl, by simpa using hc, [g], .cons hg .nil, by rw [List.flatten_singleton]⟩

theorem append (hd : ∀ b ∈ bs, ∀ n ∈ b.assigned, n ∉ as.flatMap Transformation.assigned)
    (hr : ∀ b ∈ bs, ∀ n ∈ b.reads columns, n ∉ as.flatMap Transformation.assigned) :
    Transforms R t tables columns (as ++ bs) row row' ↔
      ∃ mid, Transforms R t tables columns as row mid ∧
        Transforms R t tables columns bs mid row' := by
  have apart {cs cs' : List (Transformation × Chance)} (hc : cs.map Prod.fst = as)
      (hc' : cs'.map Prod.fst = bs) :
      Simultaneous R t tables columns (cs ++ cs') row row' ↔
        ∃ mid, Simultaneous R t tables columns cs row mid ∧
          Simultaneous R t tables columns cs' mid row' := by
    subst hc hc'
    exact Simultaneous.append (fun b hb => hd b.1 (List.mem_map_of_mem hb))
      (fun b hb => hr b.1 (List.mem_map_of_mem hb))
  constructor
  · rintro ⟨all, hall, hfor, h⟩
    obtain ⟨cs, cs', rfl, hc, hc'⟩ := List.map_eq_append_iff.1 hall
    obtain ⟨mid, h₁, h₂⟩ := (apart hc hc').1 h
    exact ⟨mid, ⟨cs, hc, fun a ha => hfor a (List.mem_append_left _ ha), h₁⟩,
      ⟨cs', hc', fun a ha => hfor a (List.mem_append_right _ ha), h₂⟩⟩
  · rintro ⟨mid, ⟨cs, hc, hfor, h₁⟩, ⟨cs', hc', hfor', h₂⟩⟩
    refine ⟨cs ++ cs', by rw [List.map_append, hc, hc'], fun a ha => ?_,
      (apart hc hc').2 ⟨mid, h₁, h₂⟩⟩
    exact (List.mem_append.1 ha).elim (hfor a) (hfor' a)

theorem perm (hp : as.Perm bs) (hn : (as.flatMap Transformation.assigned).Nodup) :
    Transforms R t tables columns as row row' ↔ Transforms R t tables columns bs row row' := by
  have forth {as bs : List Transformation} (hp : as.Perm bs)
      (hn : (as.flatMap Transformation.assigned).Nodup)
      (h : Transforms R t tables columns as row row') :
      Transforms R t tables columns bs row row' := by
    obtain ⟨cs, rfl, hfor, h⟩ := h
    have reordered : Relation.Comp (· = List.map Prod.fst ·) (· ~ ·) bs cs := by
      rw [List.eq_map_comp_perm]
      exact hp.symm
    obtain ⟨cs', rfl, hcs⟩ := reordered
    exact ⟨cs', rfl, fun a ha => hfor a (hcs.mem_iff.1 ha), h.perm hcs.symm hn⟩
  exact ⟨forth hp hn, forth hp.symm ((hp.flatMap_right _).nodup hn)⟩

/-- Whatever is drawn for rows, there are rows that the transformations make of them. -/
theorem exists_drawn {drawn : List (Row × List (Transformation × Chance))}
    (hall : ∀ x ∈ drawn, x.2.map Prod.fst = as ∧ (∀ a ∈ x.2, a.2.IsFor R.engine) ∧
      ∀ tr ∈ as, tr.Fits t tables columns x.1) :
    ∃ rows', List.Forall₂ (fun x row' => Simultaneous R t tables columns x.2 x.1 row') drawn rows' ∧
      List.Forall₂ (Transforms R t tables columns as) (drawn.map Prod.fst) rows' := by
  obtain ⟨rows', hrows⟩ := pairing_of_forall
    (R := fun (x : Row × List (Transformation × Chance)) row' =>
      Simultaneous R t tables columns x.2 x.1 row') fun x hx => by
    obtain ⟨htrs, _, hfits⟩ := hall x hx
    exact Simultaneous.exists_of_fits fun a ha => hfits a.1 (htrs ▸ List.mem_map_of_mem ha)
  refine ⟨rows', hrows, ?_⟩
  rw [List.forall₂_map_left_iff]
  refine ((List.forall₂_and_left _ _).2 ⟨fun x hx => hall x hx, hrows⟩).imp fun x row' hx => ?_
  exact ⟨x.2, hx.1.1, hx.1.2.1, hx.2⟩

section Rows

variable {rows rows' : List Row}

theorem rows_nil :
    List.Forall₂ (Transforms R t tables columns []) rows rows' ↔ rows' = rows := by
  have same : Transforms R t tables columns [] = (· = ·) :=
    funext₂ fun _ _ => propext (nil.trans eq_comm)
  rw [same, List.forall₂_eq_eq_eq, eq_comm]

theorem rows_append
    (hd : ∀ b ∈ bs, ∀ n ∈ b.assigned, n ∉ as.flatMap Transformation.assigned)
    (hr : ∀ b ∈ bs, ∀ n ∈ b.reads columns, n ∉ as.flatMap Transformation.assigned) :
    List.Forall₂ (Transforms R t tables columns (as ++ bs)) rows rows' ↔
      ∃ mids, List.Forall₂ (Transforms R t tables columns as) rows mids ∧
        List.Forall₂ (Transforms R t tables columns bs) mids rows' := by
  have split : Transforms R t tables columns (as ++ bs) = fun row row' =>
      ∃ mid, Transforms R t tables columns as row mid ∧ Transforms R t tables columns bs mid row' :=
    funext₂ fun _ _ => propext (append hd hr)
  rw [split, pairing_comp]

theorem rows_perm (hp : as.Perm bs) (hn : (as.flatMap Transformation.assigned).Nodup) :
    List.Forall₂ (Transforms R t tables columns as) rows rows' ↔
      List.Forall₂ (Transforms R t tables columns bs) rows rows' := by
  have same : Transforms R t tables columns as = Transforms R t tables columns bs :=
    funext₂ fun _ _ => propext (perm hp hn)
  rw [same]

end Rows
end Transforms

theorem Value.memberOf_text {n : String} {values : List Value} :
    (Value.text n).memberOf values = true ↔ .text n ∈ values := by
  rw [memberOf, List.any_eq_true]
  constructor
  · rintro ⟨v, hv, hs⟩
    cases v with
    | text s =>
      simp only [same, beq_iff_eq] at hs
      exact hs ▸ hv
    | _ => simp [same] at hs
  · intro h
    exact ⟨_, h, by simp [same]⟩

namespace Batch

theorem names_nodup_of_assign {table description : Value} {assigned values r : List Value}
    (h : assign table description assigned values = .ok r) :
    (Transformation.names values).Nodup ∧
      ∀ n ∈ Transformation.names values, .text n ∉ assigned := by
  induction values generalizing assigned with
  | nil => exact ⟨List.nodup_nil, by simp [Transformation.names]⟩
  | cons v values ih =>
    unfold assign at h
    split at h
    · cases h
    split at h
    · unfold refuse at h
      obtain ⟨_, _, h⟩ := except_ok_of_bind h
      cases h
    · rename_i _ hm
      obtain ⟨distinct, fresh⟩ := ih h
      have others (n : String) (hn : n ∈ Transformation.names values) :
          .text n ≠ v ∧ .text n ∉ assigned := by
        simpa only [List.mem_cons, not_or] using fresh n hn
      cases v with
      | text s =>
        have new : .text s ∉ assigned := fun hs => hm (Value.memberOf_text.2 hs)
        have own : s ∉ Transformation.names values := fun hs => (others s hs).1 rfl
        refine ⟨List.nodup_cons.2 ⟨own, distinct⟩, fun n hn => ?_⟩
        rcases List.mem_cons.1 hn with rfl | hn
        · exact new
        · exact (others n hn).2
      | _ => exact ⟨distinct, fun n hn => (others n hn).2⟩

/-- A batch that is accepted assigns no column twice. -/
theorem assigned_nodup {table : Value} {b : Batch} (h : b.checkAssignments table = .ok ()) :
    (b.active.flatMap Transformation.assigned).Nodup := by
  obtain ⟨r, h, _⟩ := except_ok_of_bind h
  have named : Transformation.names (b.active.flatMap Transformation.assignedColumns) =
      b.active.flatMap Transformation.assigned := by
    rw [Transformation.names, List.filterMap_flatMap]
    rfl
  rw [← named]
  exact (names_nodup_of_assign h).1

end Batch
end SyntheticRows
