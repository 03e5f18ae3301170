import SyntheticRows.Compile.Generator
import SyntheticRows.Proofs.Json.Element
import SyntheticRows.Proofs.Meaning.Draw

/-!
# Picked values

What an expression gives for one row, once it is known what the random functions give there. A pick
from a list then gives one item, the one at the place that was drawn.
-/
namespace SyntheticRows
open Sql

/-- What the random functions of the engines give while a row is made. -/
structure RawDraws where
  /-- PostgreSQL's `random()`. -/
  unit : ℚ
  /-- SQLite's `random()`. -/
  word : ℤ
  /-- ClickHouse's `rand64`, for each tag. -/
  tagged : ℤ → ℕ
  /-- Trino's `random`, for each bound. -/
  below : ℤ → ℤ
  unit_range : 0 ≤ unit ∧ unit < 1
  word_range : -2 ^ 63 ≤ word ∧ word < 2 ^ 63
  tagged_range : ∀ tag, tagged tag < 2 ^ 64
  below_range : ∀ n, 0 < n → 0 ≤ below n ∧ below n < n

/-- Where an expression stands: the engine, its draws and the names that are defined. -/
structure Site where
  engine : Engine
  draws : RawDraws
  numerals : Numerals
  names : Path → Option Datum := fun _ => none

namespace Datum

/-- The item at a place of a list, counted from 1. -/
def item? : Datum → Datum → Option Datum
  | list items, number q => if 1 ≤ q then items[⌊q⌋.toNat - 1]? else none
  | _, _ => none

/-- The text of a text or a whole number. -/
def spelled? : Datum → Option String
  | text s => some s
  | number q => some (toString ⌊q⌋)
  | _ => none

/-- An operator applied to two contents; remainders are those of whole numbers. -/
def operate? (x : Datum) (op : Operator) (y : Datum) : Option Datum :=
  match op, x, y with
  | .concat, x, y => do return text ((← x.spelled?) ++ (← y.spelled?))
  | .mod, number a, number b => if b = 0 then none else some (number (⌊a⌋.tmod ⌊b⌋ : ℤ))
  | op, number a, number b => arithmetic op a b
  | _, _, _ => none

/-- A cast to whole numbers. -/
def toWhole? (x : Datum) (type : String) : Option Datum :=
  match x with
  | number q =>
    if type ∈ ["int", "bigint", "BIGINT"] then some (number (round q : ℤ)) else none
  | _ => none

/-- Whether two contents are the same number. -/
def sameNumber : Datum → Datum → Bool
  | number a, number b => a = b
  | _, _ => false

end Datum

namespace Site

/-- What a literal stands for. -/
def literal (s : Site) (l : Literal) : Datum :=
  if s.engine = .sqlite then l.stored s.numerals else l.datum

/-- A function applied to its arguments. -/
def call (s : Site) : String → List Datum → Option Datum
  | "random", [] => some (.number (if s.engine = .sqlite then s.draws.word else s.draws.unit))
  | "random", [.number n] => some (.number (s.draws.below ⌊n⌋))
  | "rand64", [.number tag] => some (.number (s.draws.tagged ⌊tag⌋))
  | "floor", [.number q] => some (.number (⌊q⌋ : ℤ))
  | "toInt64", [.number q] => some (.number (truncated q))
  | "element_at", [items, place] => items.item? place
  | "json_extract", [.text payload, .text path] => Json.extract? s.numerals payload path
  | _, _ => none

end Site

namespace Sql.Expr

mutual

/-- What an expression gives. -/
def value? (s : Site) : Expr → Option Datum
  | literal l => some (s.literal l)
  | name path => s.names path
  | paren x => value? s x
  | binary op a b => do (← value? s a).operate? op (← value? s b)
  | call f args => do s.call f (← values? s args)
  | cast x type | convert x type => do (← value? s x).toWhole? type
  | index items place => do (← value? s items).item? (← value? s place)
  | array items | brackets items => do return .list (← values? s items)
  | caseOf subject branches => do chosen? s (← value? s subject) branches
  | _ => none

def values? (s : Site) : List Expr → Option (List Datum)
  | [] => some []
  | x :: rest => do return (← value? s x) :: (← values? s rest)

/-- The result of the first branch whose number is the subject. -/
def chosen? (s : Site) (subject : Datum) : List (Expr × Expr) → Option Datum
  | [] => some .null
  | b :: rest => do (← branch? s subject b).or (chosen? s subject rest)

def branch? (s : Site) (subject : Datum) : Expr × Expr → Option (Option Datum)
  | (number, result) => do
    if subject.sameNumber (← value? s number) then return some (← value? s result)
    return none

end

end Sql.Expr

namespace RawDraws

/-- The place from 0 that is drawn among a number of items. -/
def place (d : RawDraws) (e : Engine) (n : ℕ) (tag : ℤ) : ℕ :=
  match e with
  | .postgresql => ⌊d.unit * n⌋.toNat
  | .clickhouse => d.tagged tag % n
  | .sqlite => (Datum.maskedBits d.word Engine.int64Max).toNat % n
  | .trino => (d.below n).toNat

theorem place_lt (d : RawDraws) (e : Engine) {n : ℕ} (hn : 0 < n) (tag : ℤ) :
    d.place e n tag < n := by
  cases e with
  | postgresql =>
    have whole : ⌊d.unit * n⌋ < n := by
      rw [Int.floor_lt]
      have bound := mul_lt_mul_of_pos_right d.unit_range.2 (Nat.cast_pos.2 hn : (0 : ℚ) < n)
      simpa using bound
    simp only [place]
    omega
  | clickhouse => exact Nat.mod_lt _ hn
  | sqlite => exact Nat.mod_lt _ hn
  | trino =>
    have range := d.below_range n (by exact_mod_cast hn)
    simp only [place]
    omega

/-- Every draw from the middle of its range. -/
def middle : RawDraws where
  unit := 1 / 2
  word := 0
  tagged _ := 2 ^ 63
  below n := n / 2
  unit_range := by norm_num
  word_range := by decide
  tagged_range _ := by decide
  below_range n hn := by omega

/-- Every place is drawn, up to as many as the engine's draw reaches. -/
theorem exists_place (e : Engine) {n k : ℕ} (hk : k < n) (sqlite : e = .sqlite → n ≤ 2 ^ 63)
    (clickhouse : e = .clickhouse → n ≤ 2 ^ 64) (tag : ℤ) :
    ∃ d : RawDraws, d.place e n tag = k := by
  have positive : (0 : ℚ) < n := by exact_mod_cast Nat.zero_lt_of_lt hk
  cases e with
  | postgresql =>
    have below : (k : ℚ) < n := by exact_mod_cast hk
    refine ⟨{ middle with
      unit := k / n
      unit_range := ⟨by positivity, (div_lt_one positive).2 below⟩ }, ?_⟩
    simp only [place]
    rw [div_mul_cancel₀ _ positive.ne', Int.floor_natCast, Int.toNat_natCast]
  | clickhouse =>
    have few := clickhouse rfl
    exact ⟨{ middle with tagged := fun _ => k, tagged_range := fun _ => by omega },
      Nat.mod_eq_of_lt hk⟩
  | sqlite =>
    have few := sqlite rfl
    refine ⟨{ middle with word := k, word_range := by omega }, ?_⟩
    obtain ⟨m, _, masked, same⟩ := Datum.maskedBits_int64Max k
    have whole : m = k := by exact_mod_cast same (by omega) (by omega)
    simp only [place, masked, whole, Int.toNat_natCast, Nat.mod_eq_of_lt hk]
  | trino =>
    refine ⟨{ middle with
      below := fun m => if (k : ℤ) < m then k else 0
      below_range := fun m hm => by split <;> omega }, ?_⟩
    simp only [place]
    rw [if_pos (by exact_mod_cast hk), Int.toNat_natCast]

/-- Places that are counted from a number on reach all of the numbers behind it. -/
theorem exists_place_from (e : Engine) {n : ℕ} {low i : ℤ} (range : low ≤ i ∧ i < low + n)
    (sqlite : e = .sqlite → n ≤ 2 ^ 63) (clickhouse : e = .clickhouse → n ≤ 2 ^ 64) (tag : ℤ) :
    ∃ d : RawDraws, low + d.place e n tag = i := by
  obtain ⟨k, hk⟩ := Int.eq_ofNat_of_zero_le (sub_nonneg.2 range.1)
  obtain ⟨d, there⟩ := exists_place e (show k < n by omega) sqlite clickhouse tag
  exact ⟨d, by omega⟩

end RawDraws

variable {s : Site} {e : Engine} {n : ℕ} {tag : ℤ} {x : Expr}

namespace Sql.Expr

section Parts

attribute [local simp] value? values? chosen? branch?

theorem value?_int {i : ℤ} (h : s.engine = .sqlite → -2 ^ 63 ≤ i ∧ i < 2 ^ 63) :
    (Expr.int i).value? s = some (.number i) := by
  simp only [int, value?, Site.literal]
  split
  · rename_i he
    rw [Literal.stored, s.numerals.whole i (h he).1 (h he).2]
  · rfl

theorem value?_nat (h : s.engine = .sqlite → n < 2 ^ 63) :
    (Expr.nat n).value? s = some (.number n) := by
  have whole := value?_int (s := s) (i := n) fun he => ⟨by omega, by exact_mod_cast h he⟩
  rwa [Int.cast_natCast] at whole

theorem value?_null : null.value? s = some .null := by
  simp [null, Site.literal, Literal.stored, Literal.datum]

theorem of_given (h : given n = .ok x) : x = Expr.nat n := by
  obtain ⟨l, hl, rfl⟩ := except_ok_of_map h
  obtain ⟨_, _, hl⟩ := except_ok_of_bind hl
  cases hl
  rfl

variable {a b : Expr} {f type : String} {op : Operator} {u v : Datum}

theorem value?_binary (ha : a.value? s = some u) (hb : b.value? s = some v) :
    (binary op a b).value? s = u.operate? op v := by
  simp [ha, hb]

theorem value?_call (ha : a.value? s = some u) : (call f [a]).value? s = s.call f [u] := by
  simp [ha]

theorem value?_call₂ (ha : a.value? s = some u) (hb : b.value? s = some v) :
    (call f [a, b]).value? s = s.call f [u, v] := by
  simp [ha, hb]

theorem value?_paren : (paren a).value? s = a.value? s := by
  rw [value?]

theorem value?_cast (ha : a.value? s = some u) : (cast a type).value? s = u.toWhole? type := by
  simp [ha]

theorem value?_convert (ha : a.value? s = some u) :
    (convert a type).value? s = u.toWhole? type := by
  simp [ha]

theorem value?_index (ha : a.value? s = some u) (hb : b.value? s = some v) :
    (index a b).value? s = u.item? v := by
  simp [ha, hb]

theorem values?_literals {ls : List Literal} :
    values? s (ls.map .literal) = some (ls.map s.literal) := by
  induction ls with
  | nil => rfl
  | cons l ls ih => simp [ih]

end Parts

end Sql.Expr

namespace Engine

theorem value?_maskedRandom (he : s.engine = .sqlite) : maskedRandom.value? s =
    some (.number ((Datum.maskedBits s.draws.word int64Max).toNat : ℕ)) := by
  have mask := Expr.value?_nat (s := s) (n := int64Max) fun _ => by decide
  obtain ⟨m, _, masked, _⟩ := Datum.maskedBits_int64Max s.draws.word
  have floored : ⌊((int64Max : ℕ) : ℚ)⌋ = (int64Max : ℤ) := Int.floor_natCast _
  simp only [maskedRandom, random, Expr.value?, Expr.values?, mask, Site.call, he, if_true,
    Option.bind_eq_bind, Option.bind_some, Datum.operate?, Datum.arithmetic, Int.floor_intCast,
    floored, masked, Int.toNat_natCast, Int.cast_natCast]

theorem of_floorRandom (h : floorRandom n = .ok x) :
    x = .call "floor" [.mul random (.nat n)] := by
  obtain ⟨y, given, h⟩ := except_ok_of_bind h
  cases h
  rw [Expr.of_given given]

theorem value?_floorRandom (he : s.engine = .postgresql) (h : floorRandom n = .ok x) :
    x.value? s = some (.number (s.draws.place .postgresql n tag : ℕ)) := by
  have unit : random.value? s = some (.number s.draws.unit) := by
    simp [random, Expr.value?, Expr.values?, Site.call, he]
  have count := Expr.value?_nat (s := s) (n := n) fun hs => by simp [he] at hs
  have nonneg : 0 ≤ ⌊s.draws.unit * n⌋ :=
    Int.floor_nonneg.2 (mul_nonneg s.draws.unit_range.1 (Nat.cast_nonneg n))
  obtain ⟨place, whole⟩ := Int.eq_ofNat_of_zero_le nonneg
  rw [of_floorRandom h, Expr.value?_call (Expr.value?_binary unit count)]
  simp [Site.call, RawDraws.place, whole]

theorem toWhole?_nat {type : String} (ht : type ∈ ["int", "bigint", "BIGINT"]) (k : ℕ) :
    (Datum.number k).toWhole? type = some (.number k) := by
  simp [Datum.toWhole?, ht]

theorem mod_nat {m n : ℕ} (hn : 0 < n) : (Datum.number m).operate? .mod (.number n) =
    some (.number (m % n : ℕ)) := by
  have nonzero : (n : ℚ) ≠ 0 := by exact_mod_cast hn.ne'
  simp only [Datum.operate?, nonzero, if_false, Int.floor_natCast]
  rw [← Int.ofNat_tmod, Int.cast_natCast]

/-- An integer draw gives the place that is drawn. -/
theorem value?_integer (he : s.engine = e) (hn : 0 < n) (h : e.integer n tag = .ok x) :
    x.value? s = some (.number (s.draws.place e n tag : ℕ)) := by
  cases e with
  | postgresql =>
    obtain ⟨y, draw, h⟩ := except_ok_of_bind h
    cases h
    rw [Expr.value?_convert (value?_floorRandom he draw), toWhole?_nat (by simp)]
  | clickhouse =>
    obtain ⟨y, given, h⟩ := except_ok_of_bind h
    cases h
    have other : s.engine ≠ .sqlite := by simp [he]
    have label := Expr.value?_int (s := s) (i := tag) fun hs => absurd hs other
    have bound := Expr.value?_nat (s := s) (n := n) fun hs => absurd hs other
    have drawn : (Expr.call "rand64" [.int tag]).value? s =
        some (.number (s.draws.tagged tag : ℕ)) := by
      rw [Expr.value?_call label]
      simp [Site.call]
    have rest := (Expr.value?_binary drawn bound).trans (mod_nat hn)
    rw [Expr.of_given given, Expr.value?_call rest]
    simp only [Site.call, truncated, Nat.cast_nonneg, if_true, Int.floor_natCast, Int.cast_natCast]
    rfl
  | sqlite =>
    simp only [integer] at h
    split at h
    · rename_i small
      obtain ⟨y, given, h⟩ := except_ok_of_bind h
      cases h
      rw [Expr.of_given given]
      have bound := Expr.value?_nat (s := s) (n := n) fun _ => by
        have most : (int64Max : ℤ) < 2 ^ 63 := by decide
        omega
      rw [Expr.value?_paren]
      refine (Expr.value?_binary (value?_maskedRandom he) bound).trans ?_
      exact mod_nat hn
    · exact absurd h refuse_ne_ok
  | trino =>
    obtain ⟨y, given, h⟩ := except_ok_of_bind h
    cases h
    rw [Expr.of_given given]
    have bound := Expr.value?_nat (s := s) (n := n) fun hs => by simp [he] at hs
    have range := s.draws.below_range n (by exact_mod_cast hn)
    obtain ⟨place, whole⟩ := Int.eq_ofNat_of_zero_le range.1
    have drawn : (Expr.call "random" [.nat n]).value? s = some (.number (place : ℕ)) := by
      rw [Expr.value?_call bound]
      simp [Site.call, whole]
    refine (Expr.value?_cast drawn).trans ?_
    simp [RawDraws.place, whole, Datum.toWhole?]

end Engine

namespace Dialect

variable {vs : List Value} {ls : List Literal} {l : Literal} {name : String}

/-- The position that is drawn in an array counts from 1. -/
theorem value?_arrayPosition (he : s.engine = e) (hs : e ≠ .sqlite) (hn : 0 < n)
    (h : arrayPosition e n tag = .ok x) :
    x.value? s = some (.number (s.draws.place e n tag + 1 : ℕ)) := by
  have first := Expr.value?_nat (s := s) (n := 1) fun _ => by decide
  have sum (k : ℕ) : (Datum.number (1 : ℕ)).operate? .add (.number k) =
      some (.number (k + 1 : ℕ)) := by
    simp [Datum.operate?, Datum.arithmetic, add_comm]
  have shifted {y : Expr} (hy : y.value? s = some (.number (s.draws.place e n tag : ℕ))) :
      (Expr.add (.nat 1) y).value? s = some (.number (s.draws.place e n tag + 1 : ℕ)) :=
    (Expr.value?_binary first hy).trans (sum _)
  cases e with
  | sqlite => exact absurd rfl hs
  | postgresql =>
    obtain ⟨y, draw, h⟩ := except_ok_of_bind h
    cases h
    refine shifted ?_
    rw [Expr.value?_convert (Engine.value?_floorRandom he draw), Engine.toWhole?_nat (by simp)]
  | clickhouse | trino =>
    obtain ⟨y, draw, h⟩ := except_ok_of_bind h
    cases h
    exact shifted (Engine.value?_integer he hn draw)

theorem item?_nat {items : List Datum} (k : ℕ) :
    (Datum.list items).item? (.number (k + 1 : ℕ)) = items[k]? := by
  have from1 : (1 : ℚ) ≤ (k + 1 : ℕ) := by exact_mod_cast Nat.le_add_left 1 k
  rw [Datum.item?, if_pos from1, Int.floor_natCast, Int.toNat_natCast, Nat.add_sub_cancel]

/-- A pick from an array gives the item at the place that is drawn. -/
theorem value?_pick (he : s.engine = e) (hs : e ≠ .sqlite) (hn : 0 < n)
    (h : (of e).pick (ls.map .literal) n tag = .ok x) :
    x.value? s = (ls.map s.literal)[s.draws.place e n tag]? := by
  have items : Expr.values? s (ls.map .literal) = some (ls.map s.literal) := Expr.values?_literals
  have array : (Expr.array (ls.map .literal)).value? s = some (.list (ls.map s.literal)) := by
    simp [Expr.value?, items]
  have brackets : (Expr.brackets (ls.map .literal)).value? s =
      some (.list (ls.map s.literal)) := by
    simp [Expr.value?, items]
  obtain ⟨_, engine, h⟩ := except_ok_of_bind h
  cases engine
  cases e with
  | sqlite => exact absurd rfl hs
  | postgresql =>
    obtain ⟨y, position, h⟩ := except_ok_of_bind h
    cases h
    rw [Expr.value?_index (Expr.value?_paren.trans array) (value?_arrayPosition he hs hn position),
      item?_nat]
  | clickhouse =>
    obtain ⟨y, position, h⟩ := except_ok_of_bind h
    cases h
    rw [Expr.value?_index brackets (value?_arrayPosition he hs hn position), item?_nat]
  | trino =>
    obtain ⟨y, position, h⟩ := except_ok_of_bind h
    cases h
    rw [Expr.value?_call₂ array (value?_arrayPosition he hs hn position)]
    simp only [Site.call]
    exact item?_nat _

/-- A case expression over the places of a list gives the item at the place that is asked for. -/
theorem chosen?_caseOfItems {xs : List Expr} {data : List Datum} {k start : ℕ} {d : Datum}
    (hx : Expr.values? s xs = some data) (hk : data[k]? = some d)
    (bound : start + xs.length ≤ 2 ^ 63) : Expr.chosen? s (.number (start + k : ℕ))
      ((xs.zipIdx start).map fun i => (.nat i.2, i.1)) = some d := by
  induction xs generalizing data k start with
  | nil =>
    cases hx
    simp at hk
  | cons x xs ih =>
    rw [List.length_cons] at bound
    simp only [Expr.values?, Option.bind_eq_bind, Option.bind_eq_some_iff, Option.pure_def,
      Option.some.injEq] at hx
    obtain ⟨d', hd', rest, hrest, rfl⟩ := hx
    have number := Expr.value?_nat (s := s) (n := start) fun _ => by omega
    have head : Expr.branch? s (.number (start + k : ℕ)) (.nat start, x) =
        some (if k = 0 then some d' else none) := by
      by_cases first : k = 0 <;> simp [Expr.branch?, number, hd', Datum.sameNumber, first]
    rw [List.zipIdx_cons, List.map_cons, Expr.chosen?, head]
    cases k with
    | zero => simpa using hk
    | succ k =>
      have later : Expr.chosen? s (.number (start + 1 + k : ℕ))
          ((xs.zipIdx (start + 1)).map fun i => (.nat i.2, i.1)) = some d :=
        ih hrest (by simpa using hk) (by omega)
      rw [Nat.add_assoc, Nat.add_comm 1 k] at later
      simpa using later

/-- A case expression over an integer draw gives the item at the place that is drawn. -/
theorem value?_caseOf (he : s.engine = .sqlite) {items : List Expr} {data : List Datum}
    (hn : 0 < items.length) (hx : Expr.values? s items = some data)
    (h : Engine.integer .sqlite items.length tag = .ok x) {d : Datum}
    (hd : data[s.draws.place .sqlite items.length tag]? = some d) :
    (Expr.caseOf x (Generator.caseOfItems items)).value? s = some d := by
  have small : items.length ≤ 2 ^ 63 := by
    have most : (Engine.int64Max : ℤ) < 2 ^ 63 := by decide
    simp only [Engine.integer] at h
    split at h
    · omega
    · exact absurd h refuse_ne_ok
  have found : Expr.chosen? s (.number (0 + s.draws.place .sqlite items.length tag : ℕ))
      (Generator.caseOfItems items) = some d := chosen?_caseOfItems hx hd (by omega)
  rw [Nat.zero_add] at found
  rw [Expr.value?, Engine.value?_integer he hn h]
  exact found

/-- SQLite's pick from a list that stands in JSON gives the element at the place that is drawn. -/
theorem value?_lookupPick_sqlite (he : s.engine = .sqlite) (hn : 0 < n)
    {texts : List String} {data : List Datum}
    (named : s.names [.bare name, .bare "arr"] =
      some (.text ("[" ++ Text.joined "," texts ++ "]")))
    (reads : List.Forall₂ (Json.Reads s.numerals) texts data)
    (h : (of .sqlite).lookupPick name n tag = .ok x) {d : Datum}
    (hd : data[s.draws.place .sqlite n tag]? = some d) : x.value? s = some d := by
  obtain ⟨_, engine, h⟩ := except_ok_of_bind h
  cases engine
  obtain ⟨y, draw, h⟩ := except_ok_of_bind h
  cases h
  have word (w : String) (nulFree) : (Expr.word w nulFree).value? s = some (.text w) := by
    simp [Expr.word, Expr.value?, Site.literal, he, Literal.stored]
  have spelled (k : ℕ) : (Datum.number k).spelled? = some (toString k) := by
    rw [Datum.spelled?, Int.floor_natCast]
    rfl
  have content : (Expr.name [.bare name, .bare "arr"]).value? s =
      some (.text ("[" ++ Text.joined "," texts ++ "]")) := by rwa [Expr.value?]
  have start : (Expr.binary .concat (.word "$[") y).value? s =
      some (.text ("$[" ++ toString (s.draws.place .sqlite n tag))) := by
    rw [Expr.value?_binary (word _ _) (Engine.value?_integer he hn draw), Datum.operate?, spelled]
    rfl
  have path : (Expr.chain .concat (.word "$[") [y, .word "]"]).value? s =
      some (.text ("$[" ++ toString (s.draws.place .sqlite n tag) ++ "]")) := by
    exact Expr.value?_binary start (word _ _)
  rw [Expr.value?_call₂ content path]
  exact Json.extract?_list reads hd

/-- The name under which an array is found. -/
def arrayPath (e : Engine) (name : String) : Path :=
  match e with
  | .clickhouse => [.bare name]
  | _ => [.bare name, .bare "arr"]

/-- A pick from an array that is defined gives the item at the place that is drawn. -/
theorem value?_lookupPick (he : s.engine = e) (hs : e ≠ .sqlite) (hn : 0 < n)
    {items : List Datum} (named : s.names (arrayPath e name) = some (.list items))
    (h : (of e).lookupPick name n tag = .ok x) :
    x.value? s = items[s.draws.place e n tag]? := by
  have content : (Expr.name (arrayPath e name)).value? s = some (.list items) := by
    rwa [Expr.value?]
  obtain ⟨_, engine, h⟩ := except_ok_of_bind h
  cases engine
  cases e with
  | sqlite => exact absurd rfl hs
  | postgresql | clickhouse =>
    obtain ⟨y, position, h⟩ := except_ok_of_bind h
    cases h
    refine (Expr.value?_index content (value?_arrayPosition he hs hn position)).trans ?_
    exact item?_nat _
  | trino =>
    obtain ⟨y, position, h⟩ := except_ok_of_bind h
    cases h
    refine (Expr.value?_call₂ content (value?_arrayPosition he hs hn position)).trans ?_
    exact item?_nat _

end Dialect

end SyntheticRows
