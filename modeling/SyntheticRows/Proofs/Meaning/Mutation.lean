import SyntheticRows.Compile.Mutation
import SyntheticRows.Proofs.Meaning.Template

/-!
# Mutations edit one character

The expression of a mutation, over any column and draws that are known for a row, yields the
column with one edit at the place drawn, or the column itself.
-/
namespace SyntheticRows
open Sql

theorem Engine.IsDraw.bounds {e : Engine} {q : ℚ} (h : e.IsDraw q) : 0 ≤ q ∧ q < 1 := by
  cases e with
  | postgresql => exact h
  | trino => exact h
  | sqlite =>
    obtain ⟨n, hn, rfl⟩ := h
    have : (n : ℚ) < 2 ^ 63 := by exact_mod_cast hn
    exact ⟨by positivity, by rwa [div_lt_one (by positivity)]⟩
  | clickhouse =>
    obtain ⟨n, hn, rfl⟩ := h
    have : (n : ℚ) < 2 ^ 32 := by exact_mod_cast hn
    exact ⟨by positivity, by rwa [div_lt_one (by positivity)]⟩

/-- Draws from 0 to below 1. -/
def Chance.InUnit (c : Chance) : Prop :=
  (0 ≤ c.gate ∧ c.gate < 1) ∧ (0 ≤ c.choice ∧ c.choice < 1) ∧ 0 ≤ c.place ∧ c.place < 1

theorem Chance.IsFor.inUnit {e : Engine} {c : Chance} (h : c.IsFor e) : c.InUnit :=
  ⟨h.1.bounds, h.2.1.bounds, h.2.2.bounds⟩

section Numbers

variable {R : Rules} {env : Env}

theorem operand_denotes (l : Literal) : Denotes R env (Expr.operand l) (some l.datum) := by
  unfold Expr.operand
  split
  · exact .paren (.literal l)
  · exact .literal l

theorem nat_denotes (n : ℕ) : Denotes R env (Expr.nat n) (some (.number n)) :=
  (Denotes.literal _).congr (by simp [Literal.datum])

theorem ofFloat_denotes {x : Double} {e : Expr} (h : Expr.ofFloat x = .ok e) :
    Denotes R env e (some (.number x.toRat)) := by
  obtain ⟨l, hl, h⟩ := except_ok_of_bind h
  cases h
  unfold Literal.ofFloat at hl
  split at hl
  · cases hl
    exact operand_denotes _
  · unfold refuse at hl
    obtain ⟨_, _, hl⟩ := except_ok_of_bind hl
    cases hl

theorem ofNumber_denotes {n : Number} {e : Expr} (h : Expr.ofNumber n = .ok e) :
    Denotes R env e (some (.number n.toRat)) := by
  cases n with
  | float x => exact ofFloat_denotes h
  | int i =>
    obtain ⟨l, hl, rfl⟩ := except_ok_of_map h
    obtain ⟨_, _, hl⟩ := except_ok_of_bind hl
    cases hl
    exact operand_denotes _

/-- A known draw compared with a known number. -/
theorem less_denotes {a b : Expr} {p q : ℚ} (ha : Denotes R env a (some (.number p)))
    (hb : Denotes R env b (some (.number q))) :
    Denotes R env (.less a b) (some (.bool (p < q))) :=
  Denotes.binary_some .less ha hb rfl

end Numbers

namespace Mutation

variable {R : Rules} {env : Env} {d : Dialect} {column : Expr}

section Texts

variable {x : Datum} {s : String}

theorem length_denotes (hcol : Denotes R env column (some x)) :
    Denotes R env (d.length column) (some (R.onText (fun s => .number s.toList.length) x)) := by
  have builtin : Builtin.ofName? (if d = .of .clickhouse then "lengthUTF8" else "length") =
      some .length := by
    split <;> rfl
  exact Denotes.call₁ builtin hcol

theorem onText_of_text? (hx : R.text? x = some s) (f : String → Datum) : R.onText f x = f s := by
  cases x <;> cases hx <;> rfl

theorem floor_toNat (n : ℕ) : ⌊(n : ℚ) + 1⌋.toNat - 1 = n := by
  have : ⌊(n : ℚ) + 1⌋ = (n : ℤ) + 1 := by
    rw [Int.floor_eq_iff]
    push_cast
    constructor <;> linarith
  omega

theorem substring_denotes {start : Expr} {n : ℕ} (hcol : Denotes R env column (some x))
    (hx : R.text? x = some s) (hs : Denotes R env start (some (.number (n + 1)))) :
    Denotes R env (d.substring column start none)
      (some (.text (String.ofList (s.toList.drop n)))) := by
  have builtin : Builtin.ofName? (if d = .of .clickhouse then "substringUTF8" else "substr") =
      some .slice := by
    split <;> rfl
  refine (Denotes.call builtin (.cons hcol (.cons hs .nil))).congr ?_
  have hn : ¬(n : ℚ) + 1 < 1 := by simp
  simp only [Rules.apply, Rules.slice, hn, if_false, onText_of_text? hx, floor_toNat]

theorem substring_count_denotes {start count : Expr} {n k : ℕ}
    (hcol : Denotes R env column (some x)) (hx : R.text? x = some s)
    (hs : Denotes R env start (some (.number (n + 1))))
    (hc : Denotes R env count (some (.number k))) :
    Denotes R env (d.substring column start (some count))
      (some (.text (String.ofList ((s.toList.drop n).take k)))) := by
  have builtin : Builtin.ofName? (if d = .of .clickhouse then "substringUTF8" else "substr") =
      some .slice := by
    split <;> rfl
  refine (Denotes.call builtin (.cons hcol (.cons hs (.cons hc .nil)))).congr ?_
  have hn : ¬((n : ℚ) + 1 < 1 ∨ (k : ℚ) < 0) := by simp
  simp only [Rules.apply, Rules.slice, hn, if_false, onText_of_text? hx, floor_toNat,
    Int.floor_natCast, Int.toNat_natCast]

theorem truncated_of_nonneg {q : ℚ} (hq : 0 ≤ q) : truncated q = ⌊q⌋ := by
  simp [truncated, hq]

theorem toWhole_floor (q : ℚ) : R.toWhole (⌊q⌋ : ℚ) = ⌊q⌋ := by
  unfold Rules.toWhole truncated
  split
  · simp
  · exact round_intCast ⌊q⌋

/-- The place that a draw picks in a text. -/
theorem position_denotes (hd : d = .of R.engine) {draw : Expr} {q : ℚ} (hq : 0 ≤ q)
    (hdraw : Denotes R env draw (some (.number q))) (hcol : Denotes R env column (some x))
    (hx : R.text? x = some s) :
    Denotes R env (d.position draw column)
      (some (.number ((⌊q * s.toList.length⌋.toNat : ℕ) + 1))) := by
  set product := q * s.toList.length with hp
  have nonneg : 0 ≤ product := by positivity
  have whole : ((⌊product⌋.toNat : ℕ) : ℚ) = ⌊product⌋ := by
    exact_mod_cast Int.toNat_of_nonneg (Int.floor_nonneg.2 nonneg)
  rw [whole]
  have length : Denotes R env (d.length column) (some (.number s.toList.length)) :=
    (length_denotes hcol).congr (by rw [onText_of_text? hx])
  have multiplied : Denotes R env (Expr.mul draw (d.length column)) (some (.number product)) :=
    Denotes.binary_some .mul hdraw length rfl
  have floored : Denotes R env (.call "floor" [Expr.mul draw (d.length column)])
      (some (.number ⌊product⌋)) :=
    (Denotes.call₁ (g := .floor) rfl multiplied)
  suffices offset : ∀ e : Expr, Denotes R env e (some (.number ⌊product⌋)) →
      Denotes R env (.paren (.add e (.nat 1))) (some (.number (⌊product⌋ + 1))) by
    cases d with
    | core => cases hd
    | of e =>
      apply offset
      cases e with
      | postgresql =>
        exact (Denotes.convert (k := .toWhole) rfl floored).congr
          (by simp [Rules.cast, toWhole_floor])
      | clickhouse =>
        refine (Denotes.call₁ (g := .truncate) rfl floored).congr ?_
        have := truncated_of_nonneg (q := (⌊product⌋ : ℚ))
          (by exact_mod_cast Int.floor_nonneg.2 nonneg)
        simp [Rules.apply, this]
      | trino =>
        exact (Denotes.cast (k := .toWhole) rfl floored).congr
          (by simp [Rules.cast, toWhole_floor])
      | sqlite =>
        have sqlite : R.engine = .sqlite := (Dialect.of.inj hd).symm
        exact (Denotes.cast (k := .toWhole) rfl multiplied).congr
          (by simp [Rules.cast, Rules.toWhole, sqlite, truncated_of_nonneg nonneg])
  intro e he
  exact .paren (Denotes.binary_some .add he (nat_denotes 1)
    (by simp [Rules.operate, Datum.arithmetic]))

theorem editExpr_denotes {offset mark e : Expr} {k : ℕ} {edit : Edit}
    (hcol : Denotes R env column (some x)) (hx : R.text? x = some s)
    (ho : Denotes R env offset (some (.number (k + 1))))
    (hm : Denotes R env mark (some (.text Mutation.mark)))
    (h : editExpr d column offset mark edit = .ok e) :
    Denotes R env e (some (.text (String.ofList (edit.applied k s.toList)))) := by
  have one : Denotes R env (.nat 1) (some (.number (1 : ℕ))) := nat_denotes 1
  have count : Denotes R env (.sub offset (.nat 1)) (some (.number k)) :=
    Denotes.binary_some .sub ho one (by simp [Rules.operate, Datum.arithmetic])
  have next : Denotes R env (.add offset (.nat 1)) (some (.number ((k + 1 : ℕ) + 1))) :=
    Denotes.binary_some .add ho one (by simp [Rules.operate, Datum.arithmetic])
  have head : Denotes R env (d.substring column (.nat 1) (some (.sub offset (.nat 1))))
      (some (.ofText? (some (String.ofList (s.toList.take k))))) :=
    (substring_count_denotes (n := 0) hcol hx (one.congr (by simp)) count).congr (by simp; rfl)
  have after : Denotes R env (d.substring column (.add offset (.nat 1)) none)
      (some (.ofText? (some (String.ofList (s.toList.drop (k + 1)))))) :=
    substring_denotes hcol hx next
  have rest : Denotes R env (d.substring column offset none)
      (some (.ofText? (some (String.ofList (s.toList.drop k))))) :=
    substring_denotes hcol hx ho
  have marked : Denotes R env mark (some (.ofText? (some Mutation.mark))) := hm
  cases edit with
  | replace =>
    refine (Template.concat_denotes (d := d)
      (.cons head (.cons marked (.cons after .nil))) h).congr ?_
    simp [Template.joined, Datum.ofText?, Edit.applied, String.ofList_append]
  | delete =>
    refine (Template.concat_denotes (d := d) (.cons head (.cons after .nil)) h).congr ?_
    simp [Template.joined, Datum.ofText?, Edit.applied, String.ofList_append]
  | insert =>
    refine (Template.concat_denotes (d := d)
      (.cons head (.cons marked (.cons rest .nil))) h).congr ?_
    simp [Template.joined, Datum.ofText?, Edit.applied, String.ofList_append]

end Texts
/-- The first branch whose condition holds, where all conditions are known. -/
theorem caseWhen_denotes {α : Type} {p : α → Bool} {f : α → Datum} {l : List α}
    {branches : List (Expr × Expr)} {last : Expr} {w : Datum}
    (h : List.Forall₂ (fun a b => Denotes R env b.1 (some (.bool (p a))) ∧
      Denotes R env b.2 (some (f a))) l branches)
    (hw : Denotes R env last (some w)) :
    Denotes R env (.caseWhen branches last) (some (((l.find? p).map f).getD w)) := by
  induction h with
  | nil => exact .otherwise hw
  | @cons a b l branches hab _ ih =>
    obtain ⟨hc, hv⟩ := hab
    by_cases ha : p a = true
    · rw [ha] at hc
      simpa [ha] using Denotes.branch_true hc hv
    · simp only [Bool.not_eq_true] at ha
      rw [ha] at hc
      simpa [ha] using Denotes.branch_skip hc (by simp) ih

theorem chooseEdit_denotes {m : Mutation} {choice e : Expr} {q : ℚ} {edits : List Expr}
    {f : Edit → Datum} (hq : Denotes R env choice (some (.number q)))
    (he : List.Forall₂ (fun edit x => Denotes R env x (some (f edit))) m.edits edits)
    (h : chooseEdit choice edits = .ok e) : Denotes R env e (some (f (m.chosen q))) := by
  obtain ⟨thresholds, ht, h⟩ := except_ok_of_bind h
  cases h
  replace ht := forall₂_of_mapM ht
  obtain ⟨same, each⟩ := List.forall₂_iff_get.1 he
  obtain ⟨tSame, tEach⟩ := List.forall₂_iff_get.1 ht
  simp only [List.length_range] at tSame
  have filled : 0 < m.edits.length := List.length_pos_iff.2 m.nonempty
  have whole : List.Forall₂ (fun (a : Edit × ℕ) b =>
      Denotes R env b.1 (some (.bool (q < threshold a.2 m.edits.length))) ∧
        Denotes R env b.2 (some (f a.1)))
      m.edits.dropLast.zipIdx
      ((thresholds.zip edits).map fun b => (Expr.less choice b.1, b.2)) := by
    refine List.forall₂_iff_get.2 ⟨?_, fun i hi hi' => ?_⟩
    · simp only [List.length_zipIdx, List.length_dropLast, List.length_map, List.length_zip]
      omega
    · simp only [List.length_zipIdx, List.length_dropLast] at hi
      have ofFloat := tEach i (by simp; omega) (by omega)
      simp only [List.get_eq_getElem, List.getElem_range, ← same] at ofFloat
      have result := each i (by omega) (by omega)
      simp only [List.get_eq_getElem] at result ⊢
      simp only [List.getElem_zipIdx, List.getElem_dropLast, List.getElem_map, List.getElem_zip,
        zero_add]
      exact ⟨less_denotes hq (ofFloat_denotes ofFloat), result⟩
  have last : Denotes R env (edits.getLast?.getD .null)
      (some (f (m.edits.getLast m.nonempty))) := by
    have present : edits ≠ [] := by
      rw [← List.length_pos_iff]
      omega
    have result := each (m.edits.length - 1) (by omega) (by omega)
    simp only [List.get_eq_getElem] at result
    rw [List.getLast?_eq_some_getLast present, Option.getD_some, List.getLast_eq_getElem,
      List.getLast_eq_getElem]
    simpa only [same] using result
  refine (caseWhen_denotes whole last).congr ?_
  unfold chosen
  cases m.edits.dropLast.zipIdx.find? fun e => decide (q < threshold e.2 m.edits.length) <;> rfl

/-- Whether a content has a character that can be edited. -/
def isFilled (R : Rules) (x : Datum) : Bool :=
  match R.text? x with
  | none => false
  | some s => s ≠ ""

theorem condition_denotes {x : Datum} {gate : Option Expr} {p : Bool}
    (hcol : Denotes R env column (some x))
    (hg : ∀ g ∈ gate, Denotes R env g (some (.bool p))) (hn : gate = none → p = true) :
    Denotes R env (condition d column gate) (some (.bool (p && isFilled R x))) := by
  have present : Denotes R env (.isNotNull column) (some (.bool !x.isNull)) := .isNotNull hcol
  have zero : Denotes R env (.nat 0) (some (.number (0 : ℕ))) := nat_denotes 0
  have nonempty : Denotes R env (.binary .greater (d.length column) (.nat 0))
      (some (match R.text? x with
        | none => .null
        | some s => .bool (s ≠ ""))) := by
    refine Denotes.binary_some .greater (length_denotes hcol) zero ?_
    cases hx : R.text? x with
    | none => cases x <;> simp [Rules.text?] at hx; rfl
    | some s =>
      rw [onText_of_text? hx]
      have : (0 : ℚ) < s.toList.length ↔ s ≠ "" := by
        rw [Nat.cast_pos, List.length_pos_iff]
        simp
      simp [Rules.operate, Datum.arithmetic, this]
  have isNull : x.isNull = (R.text? x).isNone := by cases x <;> rfl
  cases gate with
  | none =>
    refine Denotes.binary_some .and present nonempty ?_
    rw [isNull, hn rfl, isFilled]
    cases R.text? x <;> rfl
  | some g =>
    have both : Denotes R env (.binary .and g (.isNotNull column))
        (some (.bool (p && !x.isNull))) :=
      Denotes.binary_some .and (hg g rfl) present rfl
    refine Denotes.binary_some .and both nonempty ?_
    rw [isNull, isFilled]
    cases R.text? x <;> cases p <;> rfl

theorem condition_denotes_none {gate : Option Expr} (hcol : Denotes R env column none) :
    Denotes R env (condition d column gate) none := by
  have absent : Denotes R env (.isNotNull column) none := .isNotNull hcol
  cases gate with
  | none => exact .binary_none_left _ _ absent
  | some g => exact .binary_none_left _ _ (.binary_none_right _ _ absent)

theorem expression_returns {m : Mutation} {gate choice : Option Expr} {place e : Expr}
    (h : expression d m column gate choice place = .ok e) :
    ∃ mark edits edited gate', d.literal (.text Mutation.mark) = .ok mark ∧
      List.Forall₂ (fun edit x => editExpr d column (d.position place column) mark edit = .ok x)
        m.edits edits ∧
      (match choice, edits with
        | some c, _ :: _ :: _ => chooseEdit c edits
        | _, first :: _ => pure first
        | _, [] => pure column) = .ok edited ∧
      gate.mapM (fun g => do return Expr.less g (← Expr.ofNumber m.probability.val)) = .ok gate' ∧
      e = .caseWhen [(condition d column gate', edited)] column := by
  unfold expression at h
  obtain ⟨mark, hm, h⟩ := except_ok_of_bind h
  obtain ⟨edits, he, h⟩ := except_ok_of_bind h
  refine ⟨mark, edits, ?_⟩
  replace he := forall₂_of_mapM he
  have compiled {edited : Expr} (h : (do
      let gate ← gate.mapM fun g => do return Expr.less g (← Expr.ofNumber m.probability.val)
      return .caseWhen [(condition d column gate, edited)] column : Except Error Expr) = .ok e) :
      ∃ gate', gate.mapM (fun g => do
          return Expr.less g (← Expr.ofNumber m.probability.val) : Expr → Except Error Expr) =
            .ok gate' ∧
        e = .caseWhen [(condition d column gate', edited)] column := by
    obtain ⟨gate', hg, h⟩ := except_ok_of_bind h
    cases h
    exact ⟨gate', hg, rfl⟩
  match choice, edits with
  | some c, first :: second :: rest =>
    obtain ⟨edited, hc, h⟩ := except_ok_of_bind h
    obtain ⟨gate', hg, rfl⟩ := compiled h
    exact ⟨edited, gate', hm, he, hc, hg, rfl⟩
  | some c, [first] | none, first :: rest | some c, [] | none, [] =>
    obtain ⟨edited, hc, h⟩ := except_ok_of_bind h
    obtain ⟨gate', hg, rfl⟩ := compiled h
    exact ⟨edited, gate', hm, he, hc, hg, rfl⟩

/-- A single edit needs no choice. -/
theorem chosen_of_length {m : Mutation} (h : m.edits.length = 1) (choice : ℚ) :
    m.edits = [m.chosen choice] := by
  obtain ⟨edit, he⟩ := List.length_eq_one_iff.1 h
  simp [chosen, he]

theorem edited_denotes {m : Mutation} {choice : Option Expr} {q : ℚ} {edits : List Expr}
    {edited : Expr} {f : Edit → Datum}
    (he : List.Forall₂ (fun edit x => Denotes R env x (some (f edit))) m.edits edits)
    (hq : ∀ x ∈ choice, Denotes R env x (some (.number q)))
    (hn : choice = none → m.needsChoice = false)
    (h : (match choice, edits with
        | some c, _ :: _ :: _ => chooseEdit c edits
        | _, first :: _ => pure first
        | _, [] => pure column) = .ok edited) :
    Denotes R env edited (some (f (m.chosen q))) := by
  have filled : 0 < m.edits.length := List.length_pos_iff.2 m.nonempty
  have same := he.length_eq
  have single (hl : m.edits.length = 1) {first : Expr} {rest : List Expr}
      (hf : edits = first :: rest) : Denotes R env first (some (f (m.chosen q))) := by
    rw [chosen_of_length hl q, hf] at he
    cases he
    assumption
  match choice, edits with
  | some c, first :: second :: rest => exact chooseEdit_denotes (hq c rfl) he h
  | some c, [first] =>
    cases h
    exact single same rfl
  | none, first :: rest =>
    cases h
    have few := hn rfl
    simp only [needsChoice, decide_eq_false_iff_not] at few
    exact single (by omega) rfl
  | _, [] =>
    rw [List.length_nil] at same
    omega

/-- The condition of a mutation holds if its draw is below its probability and there is something to
edit. A gate that is not drawn is not needed. -/
theorem gated_denotes {m : Mutation} {gate gate' : Option Expr} {c : Chance} {x : Datum}
    (hc : c.InUnit) (hcol : Denotes R env column (some x))
    (hg : ∀ g ∈ gate, Denotes R env g (some (.number c.gate)))
    (hn : gate = none → m.needsGate = false)
    (h : gate.mapM (fun g => do return Expr.less g (← Expr.ofNumber m.probability.val)) =
      .ok gate') :
    Denotes R env (condition d column gate')
      (some (.bool (decide (c.gate < m.probability.val.toRat) && isFilled R x))) := by
  cases gate with
  | none =>
    cases h
    have certain := hn rfl
    rw [needsGate, ← Bool.not_eq_true, Probability.lt_one_iff, not_lt] at certain
    exact condition_denotes hcol nofun fun _ => decide_eq_true (hc.1.2.trans_le certain)
  | some g =>
    obtain ⟨_, compared, wrapped⟩ := except_ok_of_bind h
    cases wrapped
    obtain ⟨n, number, less⟩ := except_ok_of_bind compared
    cases less
    refine condition_denotes hcol ?_ nofun
    rintro _ ⟨⟩
    exact less_denotes (hg g rfl) (ofNumber_denotes number)

/-- The expression of a mutation yields its content, whatever column and draws it is given; what
is not drawn does not matter. -/
theorem expression_denotes {m : Mutation} {gate choice : Option Expr} {place e : Expr} {c : Chance}
    {o : Option Datum} (hd : d = .of R.engine) (hc : c.InUnit) (hcol : Denotes R env column o)
    (hg : ∀ g ∈ gate, Denotes R env g (some (.number c.gate)))
    (hn : gate = none → m.needsGate = false)
    (hch : ∀ x ∈ choice, Denotes R env x (some (.number c.choice)))
    (hcn : choice = none → m.needsChoice = false)
    (hp : Denotes R env place (some (.number c.place)))
    (h : expression d m column gate choice place = .ok e) :
    Denotes R env e (o.map (m.content R c)) := by
  obtain ⟨mark, edits, edited, gate', hm, he, hed, hg', rfl⟩ := expression_returns h
  cases o with
  | none => exact .branch_none (condition_denotes_none hcol)
  | some x =>
    have hcond := gated_denotes (d := d) hc hcol hg hn hg'
    rw [Option.map_some]
    cases hx : R.text? x with
    | none =>
      have stays : m.content R c x = x := by simp [content, hx]
      rw [stays]
      exact .branch_skip hcond (by simp [isFilled, hx]) (.otherwise hcol)
    | some s =>
      by_cases ha : c.gate < m.probability.val.toRat ∧ s ≠ ""
      · have changes : m.content R c x = .text (String.ofList
            ((m.chosen c.choice).applied ⌊c.place * s.toList.length⌋.toNat s.toList)) := by
          simp only [content, hx, if_pos ha]
        rw [changes]
        refine .branch_true (hcond.congr (by simp [isFilled, hx, ha.1, ha.2])) ?_
        have offset := position_denotes hd hc.2.2.1 hp hcol hx
        have each : List.Forall₂ (fun edit x => Denotes R env x (some (.text (String.ofList
            (edit.applied ⌊c.place * s.toList.length⌋.toNat s.toList))))) m.edits edits :=
          he.imp fun edit e h => editExpr_denotes hcol hx offset (Template.literal_denotes hm) h
        exact edited_denotes each hch hcn hed
      · have stays : m.content R c x = x := by simp only [content, hx, if_neg ha]
        rw [stays]
        refine .branch_skip hcond ?_ (.otherwise hcol)
        simpa [isFilled, hx] using ha

end Mutation
end SyntheticRows
