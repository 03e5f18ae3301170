import Mathlib.Data.List.Basic
import SyntheticRows.Proofs.Meaning.Assignment
import SyntheticRows.Run.Shadow

/-!
# Names of shadow tables

The names that a replacement makes up have a shape from which the table can be read back, by taking
the parts off from the right. What is swept up has that shape, but for one line feed at its end.
-/
namespace SyntheticRows
open Sql

/-- A part after the last separator is found from the right. -/
theorem split_last {α : Type} {sep : α} {u u' v v' : List α} (hv : sep ∉ v) (hv' : sep ∉ v')
    (h : u ++ sep :: v = u' ++ sep :: v') : u = u' ∧ v = v' := by
  induction u generalizing u' with
  | nil =>
    cases u' with
    | nil => exact ⟨rfl, (List.cons.inj h).2⟩
    | cons a u' =>
      have tail := (List.cons.inj h).2
      exact (hv (by simp [tail])).elim
  | cons a u ih =>
    cases u' with
    | nil =>
      have tail := (List.cons.inj h).2
      exact (hv' (by simp [← tail])).elim
    | cons a' u' =>
      obtain ⟨rfl, tail⟩ := List.cons.inj h
      obtain ⟨rfl, hv⟩ := ih tail
      exact ⟨rfl, hv⟩

namespace Shadow

/-- A non-empty run of characters of a class. -/
def IsRun (p : Char → Bool) (cs : List Char) : Prop := cs ≠ [] ∧ ∀ c ∈ cs, p c = true

/-- The characters of `_<table>_<role>_<digits>_<hex>`. -/
def shape (table : List Char) (role : ShadowRole) (digits hex : List Char) : List Char :=
  '_' :: table ++ '_' :: role.name.toList ++ '_' :: digits ++ '_' :: hex

/-- The name is that of a shadow or old table of `table`. -/
def HasShape (table name : String) : Prop :=
  ∃ role digits hex, name.toList = shape table.toList role digits hex ∧
    IsRun Text.isDecimal digits ∧ IsRun isHexDigit hex

theorem separator_not_decimal : Text.isDecimal '_' = false := by decide

theorem separator_not_hex : isHexDigit '_' = false := by decide

theorem feed_not_hex : isHexDigit '\n' = false := by decide

theorem IsRun.not_mem {p : Char → Bool} {cs : List Char} {c : Char} (h : IsRun p cs)
    (hc : p c = false) : c ∉ cs := by
  intro hm
  rw [h.2 c hm] at hc
  cases hc

theorem separator_not_mem_role (role : ShadowRole) : '_' ∉ role.name.toList := by
  cases role <;> decide

/-- The parts of a name, whatever stands after its last separator. -/
theorem shape_injective {table table' : List Char} {role role' : ShadowRole}
    {digits digits' hex hex' : List Char} (hd : IsRun Text.isDecimal digits)
    (hd' : IsRun Text.isDecimal digits') (hx : '_' ∉ hex) (hx' : '_' ∉ hex')
    (h : shape table role digits hex = shape table' role' digits' hex') :
    table = table' ∧ hex = hex' := by
  obtain ⟨h, tags⟩ := split_last hx hx' h
  obtain ⟨h, _⟩ := split_last (hd.not_mem separator_not_decimal)
    (hd'.not_mem separator_not_decimal) h
  obtain ⟨h, _⟩ := split_last (separator_not_mem_role role) (separator_not_mem_role role') h
  exact ⟨(List.cons.inj h).2, tags⟩

section Reading

variable {p : Char → Bool} {cs rest : List Char}

theorem run?_eq_some : run? p cs = some rest ↔
    ∃ run, IsRun p run ∧ cs = run ++ rest ∧ ∀ c ∈ rest.head?, p c = false := by
  constructor
  · intro h
    unfold run? at h
    split at h
    · cases h
    · next nonempty =>
      rw [Option.some.injEq] at h
      subst h
      refine ⟨cs.takeWhile p, ⟨by simpa using nonempty, ?_⟩, ?_, ?_⟩
      · intro c hc
        exact List.mem_takeWhile_imp hc
      · exact (List.takeWhile_append_dropWhile).symm
      · intro c hc
        have := List.head?_dropWhile_not p cs
        rw [Option.mem_def] at hc
        simpa [hc] using this
  · rintro ⟨run, ⟨nonempty, all⟩, rfl, stops⟩
    have taken : (run ++ rest).takeWhile p = run := by
      rw [List.takeWhile_append_of_pos all]
      cases rest with
      | nil => simp
      | cons c rest => simp [stops c (by simp)]
    have left : (run ++ rest).dropWhile p = rest := by
      rw [List.dropWhile_append_of_pos all]
      cases rest with
      | nil => simp
      | cons c rest => simp [stops c (by simp)]
    simp only [run?, taken, left]
    rw [if_neg (by simpa using nonempty)]

theorem after?_eq_some {start : List Char} : after? start cs = some rest ↔ cs = start ++ rest := by
  unfold after?
  constructor
  · intro h
    split at h
    · next hp =>
      obtain ⟨tail, rfl⟩ := List.isPrefixOf_iff_prefix.1 hp
      simpa using h
    · cases h
  · rintro rfl
    simp

/-- A time and a tag; a line feed can follow. -/
theorem isStamp_iff : isStamp cs = true ↔ ∃ digits hex ending, cs = digits ++ '_' :: hex ++ ending ∧
    IsRun Text.isDecimal digits ∧ IsRun isHexDigit hex ∧ (ending = [] ∨ ending = ['\n']) := by
  constructor
  · intro h
    unfold isStamp at h
    split at h
    · next rest hr =>
      obtain ⟨digits, hd, rfl, _⟩ := run?_eq_some.1 hr
      split at h
      · next ending he =>
        obtain ⟨hex, hx, rfl, _⟩ := run?_eq_some.1 he
        exact ⟨digits, hex, ending, by simp, hd, hx, by simpa using h⟩
      · cases h
    · cases h
  · rintro ⟨digits, hex, ending, rfl, hd, hx, he⟩
    have first : run? Text.isDecimal (digits ++ '_' :: hex ++ ending) =
        some ('_' :: (hex ++ ending)) := by
      refine run?_eq_some.2 ⟨digits, hd, by simp, ?_⟩
      rintro c ⟨⟩
      exact separator_not_decimal
    have second : run? isHexDigit (hex ++ ending) = some ending := by
      refine run?_eq_some.2 ⟨hex, hx, rfl, ?_⟩
      rcases he with rfl | rfl
      · rintro c ⟨⟩
      · rintro c ⟨⟩
        exact feed_not_hex
    simp only [isStamp, first, second]
    simpa using he

end Reading

/-- The parts of a name that is swept up for a table. -/
theorem isOrphanOf_parts {table name : String} : isOrphanOf table name = true ↔
    ∃ role digits hex ending, name.toList = shape table.toList role digits hex ++ ending ∧
      IsRun Text.isDecimal digits ∧ IsRun isHexDigit hex ∧ (ending = [] ∨ ending = ['\n']) := by
  unfold isOrphanOf
  constructor
  · intro h
    split at h
    · cases h
    · next rest hr =>
      rw [after?_eq_some] at hr
      obtain ⟨role, _, hrole⟩ := List.any_eq_true.1 h
      split at hrole
      · next stamp hs =>
        rw [after?_eq_some] at hs
        obtain ⟨digits, hex, ending, rfl, parts⟩ := isStamp_iff.1 hrole
        exact ⟨role, digits, hex, ending, by simp [hr, hs, shape], parts⟩
      · cases hrole
  · rintro ⟨role, digits, hex, ending, hn, parts⟩
    have start : after? ('_' :: table.toList ++ ['_']) name.toList =
        some (role.name.toList ++ ['_'] ++ (digits ++ '_' :: hex ++ ending)) :=
      after?_eq_some.2 (by simp [hn, shape])
    rw [start]
    refine List.any_eq_true.2 ⟨role, by cases role <;> simp, ?_⟩
    have middle : after? (role.name.toList ++ ['_'])
        (role.name.toList ++ ['_'] ++ (digits ++ '_' :: hex ++ ending)) =
          some (digits ++ '_' :: hex ++ ending) := after?_eq_some.2 rfl
    rw [middle]
    exact isStamp_iff.2 ⟨digits, hex, ending, rfl, parts⟩

/-- What is swept up for a table: names of its shape, after which one line feed can follow. -/
theorem isOrphanOf_iff {table name : String} : isOrphanOf table name = true ↔
    HasShape table name ∨ ∃ shaped, HasShape table shaped ∧ name = shaped ++ "\n" := by
  rw [isOrphanOf_parts]
  constructor
  · rintro ⟨role, digits, hex, ending, hn, hd, hx, rfl | rfl⟩
    · exact .inl ⟨role, digits, hex, by simpa using hn, hd, hx⟩
    · refine .inr ⟨String.ofList (shape table.toList role digits hex), ?_, ?_⟩
      · exact ⟨role, digits, hex, by simp, hd, hx⟩
      · rw [← String.toList_inj, hn]
        simp
  · rintro (⟨role, digits, hex, hn, hd, hx⟩ | ⟨shaped, ⟨role, digits, hex, hn, hd, hx⟩, rfl⟩)
    · exact ⟨role, digits, hex, [], by simpa using hn, hd, hx, .inl rfl⟩
    · exact ⟨role, digits, hex, ['\n'], by simp [hn], hd, hx, .inr rfl⟩

/-- A name of the shape belongs to one table only. -/
theorem isOrphanOf_of_hasShape {a b name : String} (h : HasShape b name) :
    isOrphanOf a name = true ↔ a = b := by
  obtain ⟨role, digits, hex, hn, hd, hx⟩ := id h
  rw [isOrphanOf_iff]
  constructor
  · rintro (⟨role', digits', hex', hn', hd', hx'⟩ |
      ⟨shaped, ⟨role', digits', hex', hs, hd', hx'⟩, he⟩)
    · have := shape_injective hd' hd (hx'.not_mem separator_not_hex)
        (hx.not_mem separator_not_hex) (hn'.symm.trans hn)
      exact String.toList_inj.1 this.1
    · have ended : name.toList = shape a.toList role' digits' (hex' ++ ['\n']) := by
        simp [he, hs, shape]
      have none : '_' ∉ hex' ++ ['\n'] := by
        simpa using hx'.not_mem separator_not_hex
      have := shape_injective hd' hd none (hx.not_mem separator_not_hex) (ended.symm.trans hn)
      exact String.toList_inj.1 this.1
  · rintro rfl
    exact .inl h

/-- The digits of a number are of a class if those of the base are. -/
theorem isRun_toDigits {p : Char → Bool} {base : ℕ} (hb : 1 < base)
    (hp : ∀ d < base, p d.digitChar = true) (n : ℕ) : IsRun p (Nat.toDigits base n) := by
  refine ⟨Nat.toDigits_ne_nil, ?_⟩
  induction n using Nat.strongRecOn with
  | ind n ih =>
    intro c hc
    rw [Nat.toDigits_eq_if hb] at hc
    split at hc
    · next small =>
      rw [List.mem_singleton] at hc
      rw [hc]
      exact hp n small
    · next large =>
      rcases List.mem_append.1 hc with hc | hc
      · exact ih (n / base) (Nat.div_lt_self (by omega) hb) c hc
      · rw [List.mem_singleton] at hc
        rw [hc]
        exact hp _ (Nat.mod_lt n (by omega))

theorem isRun_hexDigits (width n : ℕ) : IsRun isHexDigit (Text.hexDigits width n) := by
  have hexadecimal : ∀ d < 16, isHexDigit d.digitChar = true := by decide
  obtain ⟨nonempty, all⟩ := isRun_toDigits (by decide) hexadecimal n
  constructor
  · simp [Text.hexDigits, nonempty]
  · intro c hc
    rcases List.mem_append.1 hc with hc | hc
    · rw [(List.mem_replicate.1 hc).2]
      decide
    · exact all c hc

theorem hasShape_shadowName (table : String) (role : ShadowRole) {now : Int} (hnow : 0 ≤ now)
    (tag : ℕ) : HasShape table (shadowName (.text table) role now tag) := by
  obtain ⟨n, rfl⟩ := Int.eq_ofNat_of_zero_le hnow
  have decimal : ∀ d < 10, Text.isDecimal d.digitChar = true := by decide
  refine ⟨role, Nat.toDigits 10 n, Text.hexDigits 8 tag, ?_, isRun_toDigits (by decide) decimal n,
    isRun_hexDigits 8 tag⟩
  have written : (n : Int).repr.toList = Nat.toDigits 10 n := by
    show n.repr.toList = _
    rw [Nat.repr_eq_ofList_toDigits, String.toList_ofList]
  simp [shadowName, shape, Value.display, written]

end Shadow

namespace Target

variable {t : Target} {path : Path}

theorem nulFree_of_ident {s : String} {i : Ident} (h : t.ident (.text s) = .ok i) :
    '\x00' ∉ s.toList := by
  have named := Value.text.inj (ident_text h)
  rw [named]
  exact i.nulFree

/-- A table can be named if another one can, unless its own name is empty or holds a NUL. -/
theorem tableRef_of_nulFree {v : Value} (h : t.tableRef v = .ok path) {s : String} (hs : s ≠ "")
    (hn : '\x00' ∉ s.toList) : ∃ path', t.tableRef (.text s) = .ok path' := by
  obtain ⟨qualifiers, hq, h⟩ := except_ok_of_bind h
  obtain ⟨i, hi, _⟩ := except_ok_of_bind h
  obtain ⟨e, he, _⟩ := except_ok_of_bind hi
  refine ⟨qualifiers ++ [.given ⟨s, hs, hn⟩], ?_⟩
  simp only [tableRef, hq, ident, Dialect.ident, he, Ident.ofValue, hs, hn, bind, Except.bind,
    ne_eq, not_false_eq_true, dif_pos]
  rfl

/-- If the table can be put aside under one of the names made for it, it can be under the other. -/
theorem tableRef_of_shadowName {table : Value} {role : ShadowRole} {now : Int} {tag : ℕ}
    (h : t.tableRef (.text (shadowName table role now tag)) = .ok path) (role' : ShadowRole) :
    ∃ path', t.tableRef (.text (shadowName table role' now tag)) = .ok path' := by
  obtain ⟨i, hi, _⟩ := tableRef_last h
  have absent := nulFree_of_ident hi
  apply tableRef_of_nulFree h
  · intro empty
    have := congrArg String.toList empty
    simp [shadowName] at this
  · have role_absent : '\x00' ∉ role'.name.toList := by cases role' <;> decide
    simp only [shadowName, String.toList_append, List.mem_append, not_or] at absent ⊢
    simp_all

end Target
end SyntheticRows
