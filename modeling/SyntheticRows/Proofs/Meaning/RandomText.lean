import SyntheticRows.Proofs.Decimal.Nearest
import SyntheticRows.Proofs.Lookup.Drawable
import SyntheticRows.Run.Shadow

/-!
# Random texts

A random text is put together from digests or identifiers of 32 hexadecimal digits each, on SQLite
from random bytes of two digits each, and cut to its length. Whatever these are, it has the length
that was asked for, and is made of no more of them than that takes.
-/
namespace SyntheticRows
open Sql

namespace Double

/-- A quotient that a double holds is rounded up as it is. -/
theorem ceilQuotient?_of_held {num den : ℕ} (hd : 0 < den) (ordinary : Ordinary (num / den))
    (held : Held (num / den)) :
    ceilQuotient? num den = some (((num + (den - 1)) / den : ℕ) : ℤ) := by
  obtain ⟨finite, rounded⟩ := rounds_ofRatio hd ordinary
  have rational := rounded.eq_of_held held
  have unsigned : ceilQuotient? num den = (ofRatio false num den).ceil? := rfl
  rw [unsigned, ceil?_finite finite, rational, ceil_div _ hd]

end Double

section Counting

variable {n j : ℕ}

/-- Powers of two divide without rounding. -/
theorem pieceCount_eq (hn : 0 < n) (bound : n ≤ 2 ^ 53) (small : j ≤ 53) :
    Generator.pieceCount n (2 ^ j) = .ok ((n + (2 ^ j - 1)) / 2 ^ j) := by
  have power : (0 : ℚ) < 2 ^ j := by positivity
  have least : (1 : ℚ) ≤ n := by exact_mod_cast hn
  have most : (n : ℚ) ≤ 2 ^ 53 := by exact_mod_cast bound
  have wide : (2 : ℚ) ^ j ≤ 2 ^ 53 := pow_le_pow_right₀ (by norm_num) small
  have ordinary : Double.Ordinary (n / (2 ^ j : ℕ)) := by
    push_cast
    constructor
    · rw [le_div_iff₀ power]
      calc (2 : ℚ) ^ (-200 : ℤ) * 2 ^ j ≤ 2 ^ (-200 : ℤ) * 2 ^ 53 := by gcongr
        _ ≤ 1 := by norm_num
        _ ≤ n := least
    · rw [div_lt_iff₀ power]
      have one : (1 : ℚ) ≤ 2 ^ j := one_le_pow₀ (by norm_num)
      calc (n : ℚ) ≤ 2 ^ 53 := most
        _ < 2 ^ (200 : ℤ) * 1 := by norm_num
        _ ≤ 2 ^ (200 : ℤ) * 2 ^ j := by gcongr
  have held : Double.Held (n / (2 ^ j : ℕ)) := by
    have scaled := (Double.Held.natCast bound).scale (-j)
    rwa [zpow_neg, zpow_natCast, ← div_eq_mul_inv, ← Nat.cast_ofNat (R := ℚ), ← Nat.cast_pow]
      at scaled
  have quotient := Double.ceilQuotient?_of_held (Nat.pow_pos (by decide)) ordinary held
  simp only [Generator.pieceCount, quotient]
  rfl

theorem isLeast_pieces {d : ℕ} (hd : 0 < d) (n : ℕ) :
    IsLeast {k | n ≤ d * k} ((n + (d - 1)) / d) := by
  have split := Nat.div_add_mod (n + (d - 1)) d
  have small := Nat.mod_lt (n + (d - 1)) hd
  constructor
  · show n ≤ d * ((n + (d - 1)) / d)
    omega
  · intro k (hk : n ≤ d * k)
    refine Nat.lt_succ_iff.1 (Nat.div_lt_of_lt_mul ?_)
    rw [Nat.mul_succ]
    omega

end Counting

/-- What a part of an expression stands for: a text, a number, bytes, or anything else by the text
that it can be made into. -/
inductive Content where
  | text (s : List Char)
  | number (n : ℤ)
  | bytes (b : List (Fin 256))
  | other (s : List Char)

/-- Lower-case hexadecimal digits. -/
def IsHex (s : List Char) : Prop := ∀ c ∈ s, Shadow.isHexDigit c = true

/-- An identifier in groups of 8, 4, 4, 4 and 12 digits. -/
def IsIdentifier (s : List Char) : Prop :=
  ∃ a b c d e : List Char, s = a ++ '-' :: b ++ '-' :: c ++ '-' :: d ++ '-' :: e ∧
    a.length = 8 ∧ b.length = 4 ∧ c.length = 4 ∧ d.length = 4 ∧ e.length = 12 ∧
    IsHex (a ++ b ++ c ++ d ++ e)

/-- What comes out of the random functions at the places of an expression. -/
structure Outcomes where
  digest : List Char → List Char
  digest_length : ∀ s, (digest s).length = 32
  digest_hex : ∀ s, IsHex (digest s)
  /-- Random numbers by their texts. -/
  random : List ℕ → List Char
  identifier : List ℕ → List Char
  identifier_form : ∀ place, IsIdentifier (identifier place)
  bytes : List ℕ → ℕ → List (Fin 256)
  bytes_length : ∀ place k, (bytes place k).length = k

/-- All digits and bytes are zero. -/
def Outcomes.zeros : Outcomes where
  digest _ := List.replicate 32 '0'
  digest_length _ := List.length_replicate
  digest_hex _ c hc := by
    rw [List.eq_of_mem_replicate hc]
    rfl
  random _ := ['0']
  identifier _ := "00000000-0000-0000-0000-000000000000".toList
  identifier_form _ := by
    let group (n : ℕ) := List.replicate n '0'
    refine ⟨group 8, group 4, group 4, group 4, group 12, rfl, rfl, rfl, rfl, rfl, rfl, ?_⟩
    intro c hc
    have zero : c = '0' := by simpa [group] using hc
    rw [zero]
    rfl
  bytes _ k := List.replicate k 0
  bytes_length _ _ := List.length_replicate

/-- Upper-case digits, two for each byte. -/
def hexOf (b : List (Fin 256)) : List Char :=
  let digit (n : ℕ) : Char := "0123456789ABCDEF".toList.getD n '0'
  b.flatMap fun x => [digit (x.val / 16), digit (x.val % 16)]

/-- A part of a text, counted from 1. -/
def slice? (s : List Char) (start count : ℤ) : Option (List Char) :=
  if 1 ≤ start ∧ 0 ≤ count then some ((s.drop (start - 1).toNat).take count.toNat) else none

/-- One character replaced by a text. -/
def replaced (c : Char) (r s : List Char) : List Char :=
  s.flatMap fun d => if d = c then r else [d]

/-- What a function of the engine gives at a place. ClickHouse cuts by bytes, which are characters
in texts of ASCII only. -/
def Outcomes.result (o : Outcomes) (place : List ℕ) (e : Engine) (function : String)
    (arguments : List Content) : Option Content :=
  match e, function, arguments with
  | .postgresql, "random", [] => some (.other (o.random place))
  | .postgresql, "md5", [.text s] => some (.text (o.digest s))
  | .clickhouse, "generateUUIDv4", [.number _] => some (.other (o.identifier place))
  | .clickhouse, "toString", [.other s] => some (.text s)
  | .clickhouse, "replaceAll", [.text s, .text [c], .text r] => some (.text (replaced c r s))
  | .clickhouse, "substring", [.text s, .number start, .number count] =>
    if s.all (·.toNat < 128) then .text <$> slice? s start count else none
  | .sqlite, "randomblob", [.number k] => some (.bytes (o.bytes place (max 1 k).toNat))
  | .sqlite, "hex", [.bytes b] => some (.text (hexOf b))
  | .sqlite, "lower", [.text s] => some (.text (s.map Char.toLower))
  | .trino, "uuid", [] => some (.other (o.identifier place))
  | .trino, "replace", [.text s, .text [c], .text r] => some (.text (replaced c r s))
  | .postgresql, "substr", [.text s, .number start, .number count]
  | .sqlite, "substr", [.text s, .number start, .number count]
  | .trino, "substr", [.text s, .number start, .number count] => .text <$> slice? s start count
  | _, _, _ => none

namespace Sql.Expr

mutual

/-- What an expression stands for at a place, if the functions in it are known. -/
def content? (o : Outcomes) (e : Engine) (place : List ℕ) : Expr → Option Content
  | literal (.text s _) => some (.text s.toList)
  | literal (.int i) => some (.number i)
  | paren x => content? o e place x
  | binary .concat a b =>
    match content? o e (0 :: place) a, content? o e (1 :: place) b with
    | some (.text s), some (.text t) => some (.text (s ++ t))
    | _, _ => none
  | cast x type | convert x type =>
    match content? o e place x with
    | some (.other s) => if type = "text" ∨ type = "VARCHAR" then some (.text s) else none
    | _ => none
  | call f arguments => (contents? o e place 0 arguments).bind (o.result place e f)
  | _ => none

def contents? (o : Outcomes) (e : Engine) (place : List ℕ) (i : ℕ) :
    List Expr → Option (List Content)
  | [] => some []
  | x :: rest =>
    match content? o e (i :: place) x, contents? o e place (i + 1) rest with
    | some c, some cs => some (c :: cs)
    | _, _ => none

end

mutual

/-- The calls in an expression, each with its arguments. -/
def calls : Expr → List (String × List Expr)
  | literal _ | decimal _ | verbatim _ | name _ | lookup _ => []
  | paren x | cast x _ | convert x _ | isNotNull x | lambda _ x | atUtc x => calls x
  | binary _ a b | index a b => calls a ++ calls b
  | call f items => (f, items) :: callsOfAll items
  | array items | brackets items => callsOfAll items
  | caseWhen branches otherwise => callsOfBranches branches ++ calls otherwise
  | caseOf subject branches => calls subject ++ callsOfBranches branches

def callsOfAll : List Expr → List (String × List Expr)
  | [] => []
  | x :: rest => calls x ++ callsOfAll rest

def callsOfBranches : List (Expr × Expr) → List (String × List Expr)
  | [] => []
  | (condition, result) :: rest => calls condition ++ calls result ++ callsOfBranches rest

end

end Sql.Expr

/-- How many pieces a call adds to a random text: a digest or an identifier, or on SQLite the bytes
asked for. -/
def Engine.piecesOf (e : Engine) (function : String) (arguments : List Expr) : ℕ :=
  match e, function, arguments with
  | .postgresql, "md5", _ => 1
  | .clickhouse, "generateUUIDv4", _ => 1
  | .trino, "uuid", _ => 1
  | .sqlite, "randomblob", [.literal (.int k)] => k.toNat
  | _, _, _ => 0

/-- How many digits a piece has. -/
def Engine.pieceLength : Engine → ℕ
  | .sqlite => 2
  | .postgresql | .clickhouse | .trino => 32

def Sql.Expr.pieces (x : Expr) (e : Engine) : ℕ :=
  (x.calls.map fun c => e.piecesOf c.1 c.2).sum

/-- Whatever its functions give, an expression is a text of a number of digits. -/
structure Sql.Expr.Spells (x : Expr) (e : Engine) (length pieces : ℕ) : Prop where
  text : ∀ o place, ∃ s, x.content? o e place = some (.text s) ∧ s.length = length ∧ IsHex s
  pieces : x.pieces e = pieces

section Digits

variable {s t : List Char}

theorem IsHex.append (hs : IsHex s) (ht : IsHex t) : IsHex (s ++ t) := fun c hc =>
  (List.mem_append.1 hc).elim (hs c) (ht c)

theorem IsHex.of_append (h : IsHex (s ++ t)) : IsHex s ∧ IsHex t :=
  ⟨fun c hc => h c (List.mem_append_left _ hc), fun c hc => h c (List.mem_append_right _ hc)⟩

theorem IsHex.ascii (h : IsHex s) : s.all (·.toNat < 128) = true := by
  rw [List.all_eq_true]
  intro c hc
  have digit := h c hc
  simp only [Shadow.isHexDigit, isDigit, Bool.or_eq_true, Bool.and_eq_true, decide_eq_true_eq,
    Char.le_def, UInt32.le_iff_toNat_le] at digit
  have nine : ('9' : Char).val.toNat = 57 := rfl
  have last : ('f' : Char).val.toNat = 102 := rfl
  rw [decide_eq_true_eq, Char.toNat]
  omega

theorem replaced_hex (h : IsHex s) : replaced '-' [] s = s := by
  induction s with
  | nil => rfl
  | cons c s ih =>
    obtain ⟨first, rest⟩ := IsHex.of_append (s := [c]) h
    have hc : c ≠ '-' := by
      rintro rfl
      exact absurd (first '-' List.mem_cons_self) (by decide)
    rw [replaced, List.flatMap_cons, if_neg hc]
    exact congrArg (c :: ·) (ih rest)

/-- An identifier without its dashes has 32 digits. -/
theorem undashed_identifier (h : IsIdentifier s) :
    (replaced '-' [] s).length = 32 ∧ IsHex (replaced '-' [] s) := by
  obtain ⟨a, b, c, d, e, rfl, la, lb, lc, ld, le, hex⟩ := h
  obtain ⟨hex, he⟩ := hex.of_append
  obtain ⟨hex, hd⟩ := hex.of_append
  obtain ⟨hex, hc⟩ := hex.of_append
  obtain ⟨ha, hb⟩ := hex.of_append
  have parts (s t : List Char) : replaced '-' [] (s ++ '-' :: t) =
      replaced '-' [] s ++ replaced '-' [] t := by
    simp [replaced]
  have joined : replaced '-' [] (a ++ '-' :: b ++ '-' :: c ++ '-' :: d ++ '-' :: e) =
      a ++ b ++ c ++ d ++ e := by
    rw [parts, parts, parts, parts, replaced_hex ha, replaced_hex hb, replaced_hex hc,
      replaced_hex hd, replaced_hex he]
  rw [joined]
  refine ⟨?_, (((ha.append hb).append hc).append hd).append he⟩
  simp only [List.length_append]
  omega

theorem length_hexOf (b : List (Fin 256)) : (hexOf b).length = 2 * b.length := by
  simp [hexOf, List.length_flatMap, mul_comm]

theorem isHex_lower_hexOf (b : List (Fin 256)) : IsHex ((hexOf b).map Char.toLower) := by
  have digit : ∀ n < 16,
      Shadow.isHexDigit ("0123456789ABCDEF".toList.getD n '0').toLower = true := by decide
  intro c hc
  obtain ⟨d, hd, rfl⟩ := List.mem_map.1 hc
  obtain ⟨x, _, hx⟩ := List.mem_flatMap.1 hd
  simp only [List.mem_cons, List.not_mem_nil, or_false] at hx
  rcases hx with rfl | rfl
  · exact digit _ (by omega)
  · exact digit _ (by omega)

theorem slice?_one {n : ℕ} : slice? s 1 n = some (s.take n) := by
  simp [slice?]

end Digits

namespace Sql.Expr.Spells

attribute [local simp] content? contents? calls callsOfAll

variable {e : Engine} {x y : Expr} {m n k l : ℕ}

theorem concat (hx : x.Spells e m k) (hy : y.Spells e n l) :
    (binary .concat x y).Spells e (m + n) (k + l) where
  text o place := by
    obtain ⟨s, hs, ls, hex⟩ := hx.text o (0 :: place)
    obtain ⟨t, ht, lt, hex'⟩ := hy.text o (1 :: place)
    exact ⟨s ++ t, by simp [hs, ht], by simp [ls, lt], hex.append hex'⟩
  pieces := by
    have hx := hx.pieces
    have hy := hy.pieces
    simp only [Expr.pieces] at hx hy
    simp [Expr.pieces, hx, hy]

/-- Pieces put together, from the left. -/
theorem chain {ys : List Expr} (hx : x.Spells e m k) (hys : ∀ y ∈ ys, y.Spells e n l) :
    (chain .concat x ys).Spells e (m + n * ys.length) (k + l * ys.length) := by
  induction ys generalizing x m k with
  | nil => exact hx
  | cons y ys ih =>
    have step := ih (hx.concat (hys y List.mem_cons_self)) fun z hz =>
      hys z (List.mem_cons_of_mem _ hz)
    rw [List.length_cons, Nat.mul_succ, Nat.mul_succ, Nat.add_comm (n * _), Nat.add_comm (l * _),
      ← Nat.add_assoc, ← Nat.add_assoc]
    exact step

/-- The function that cuts a text, which on ClickHouse is told apart by its name. -/
theorem cut {f : String} (h : x.Spells e m k) (hn : n ≤ m)
    (hf : f = if e = .clickhouse then "substring" else "substr") :
    (call f [x, .nat 1, .nat n]).Spells e n k where
  text o place := by
    obtain ⟨s, hs, ls, hex⟩ := h.text o (0 :: place)
    refine ⟨s.take n, ?_, by rw [List.length_take]; omega, fun c hc => ?_⟩
    swap
    · exact hex c (List.mem_of_mem_take hc)
    subst hf
    have part := slice?_one (s := s) (n := n)
    cases e <;> simp [hs, nat, int, Outcomes.result, hex.ascii, part]
  pieces := by
    have own (arguments : List Expr) : e.piecesOf f arguments = 0 := by
      subst hf
      cases e <;> rfl
    have hp := h.pieces
    simp only [Expr.pieces] at hp
    simp [Expr.pieces, nat, int, own, hp]

theorem digest : (call "md5" [convert Engine.random "text"]).Spells .postgresql 32 1 where
  text o place := ⟨o.digest (o.random (0 :: place)), by simp [Engine.random, Outcomes.result],
    o.digest_length _, o.digest_hex _⟩
  pieces := rfl

theorem tagged (tag : ℤ) : (Generator.undashed "replaceAll"
    (call "toString" [call "generateUUIDv4" [int tag]])).Spells .clickhouse 32 1 where
  text o place := by
    have form := undashed_identifier (o.identifier_form (0 :: 0 :: place))
    exact ⟨_, by simp [Generator.undashed, word, int, Outcomes.result], form⟩
  pieces := rfl

theorem untagged :
    (Generator.undashed "replace" (cast (call "uuid" []) "VARCHAR")).Spells .trino 32 1 where
  text o place := by
    have form := undashed_identifier (o.identifier_form (0 :: place))
    exact ⟨_, by simp [Generator.undashed, word, Outcomes.result], form⟩
  pieces := rfl

theorem blob (hk : 1 ≤ k) :
    (call "lower" [call "hex" [call "randomblob" [.nat k]]]).Spells .sqlite (2 * k) k where
  text o place := by
    refine ⟨_, by simp [nat, int, Outcomes.result]; rfl, ?_, isHex_lower_hexOf _⟩
    rw [List.length_map, length_hexOf, o.bytes_length]
    omega
  pieces := by simp [Expr.pieces, nat, int, Engine.piecesOf]

theorem empty (e : Engine) : (word "").Spells e 0 0 where
  text o place := ⟨[], by simp [word], rfl, nofun⟩
  pieces := rfl

/-- Pieces put together and cut; there are as many as the length needs. -/
theorem cutPieces {f : String} {ys : List Expr} (hn : 0 < n) (count : ys.length = (n + 31) / 32)
    (hys : ∀ y ∈ ys, y.Spells e 32 1) (hf : f = if e = .clickhouse then "substring" else "substr") :
    (Generator.cutPieces f n ys).Spells e n ys.length := by
  match ys with
  | [] =>
    rw [List.length_nil] at count
    omega
  | y :: rest =>
    have all := (hys y List.mem_cons_self).chain fun z hz => hys z (List.mem_cons_of_mem _ hz)
    rw [List.length_cons] at count ⊢
    rw [Nat.add_comm rest.length, ← Nat.one_mul rest.length]
    exact all.cut (by omega) hf

end Sql.Expr.Spells

namespace Generator

variable {e : Engine} {n : ℕ}

/-- Pieces that always compile compile together, as many as the length needs. -/
theorem run_pieces {P : Expr → Prop} {piece : ℕ → Tagged Expr}
    (hp : ∀ i tags, ∃ y tags', (piece i).run tags = .ok (y, tags') ∧ P y) (hn : 0 < n)
    (bound : n ≤ 2 ^ 53) (tags : Tags) :
    ∃ ys tags', (piecesOf n piece).run tags = .ok (ys, tags') ∧ ys.length = (n + 31) / 32 ∧
      ∀ y ∈ ys, P y := by
  have each (l : List ℕ) (tags : Tags) : ∃ ys tags', (l.mapM piece).run tags = .ok (ys, tags') ∧
      ys.length = l.length ∧ ∀ y ∈ ys, P y := by
    induction l generalizing tags with
    | nil => exact ⟨[], tags, rfl, rfl, nofun⟩
    | cons i l ih =>
      obtain ⟨y, between, first, hy⟩ := hp i tags
      obtain ⟨ys, tags', rest, count, hys⟩ := ih between
      refine ⟨y :: ys, tags', ?_, by rw [List.length_cons, count, List.length_cons],
        List.forall_mem_cons.2 ⟨hy, hys⟩⟩
      rw [List.mapM_cons, StateT.run_bind, first, except_ok_bind, StateT.run_bind, rest]
      rfl
  have counted : pieceCount n 32 = .ok ((n + 31) / 32) :=
    pieceCount_eq (j := 5) hn bound (by decide)
  have sized : checkSize ((n + 31) / 32 : ℕ) = .ok () := by
    rw [checkSize, if_pos]
    rw [twoPow_eq]
    omega
  obtain ⟨ys, tags', pieced, count, hys⟩ := each (List.range ((n + 31) / 32)) tags
  refine ⟨ys, tags', ?_, by rw [count, List.length_range], hys⟩
  rw [piecesOf, run_lift_bind, counted, except_ok_bind, run_lift_bind, sized, except_ok_bind]
  exact pieced

/-- What is put together from pieces that always compile. -/
theorem run_cutPieces {f : String} {piece : ℕ → Tagged Expr}
    (hp : ∀ i tags, ∃ y tags', (piece i).run tags = .ok (y, tags') ∧ y.Spells e 32 1) (hn : 0 < n)
    (bound : n ≤ 2 ^ 53) (hf : f = if e = .clickhouse then "substring" else "substr")
    (tags : Tags) :
    ∃ x, Prod.fst <$> (piecesOf n piece >>= fun ys => pure (cutPieces f n ys)).run tags = .ok x ∧
      x.Spells e n ((n + 31) / 32) := by
  obtain ⟨ys, tags', pieced, count, hys⟩ := run_pieces hp hn bound tags
  refine ⟨cutPieces f n ys, ?_, count ▸ .cutPieces hn count hys hf⟩
  rw [StateT.run_bind, pieced]
  rfl

/-- A random text is a text of digits of its length, of as many pieces as that takes. -/
theorem randomText_spells (e : Engine) (bound : n ≤ 2 ^ 53) (now : ℤ) (row : Expr) (salt : ℤ) :
    ∃ x, expression (.of e) now row salt (.randomText n) = .ok x ∧
      x.Spells e n ((n + (e.pieceLength - 1)) / e.pieceLength) := by
  rcases Nat.eq_zero_or_pos n with rfl | hn
  · exact ⟨.word "", rfl, by cases e <;> exact .empty _⟩
  have compiled : expression (.of e) now row salt (.randomText n) =
      Prod.fst <$> (randomTextExpr (.of e) n).run (.ofSalt salt) := by
    rw [expression, compile, if_neg hn.ne']
  rw [compiled]
  cases e with
  | postgresql =>
    exact run_cutPieces (fun _ tags => ⟨_, tags, rfl, .digest⟩) hn bound rfl _
  | clickhouse =>
    exact run_cutPieces (fun _ tags => ⟨_, _, rfl, .tagged _⟩) hn bound rfl _
  | trino =>
    exact run_cutPieces (fun _ tags => ⟨_, tags, rfl, .untagged⟩) hn bound rfl _
  | sqlite =>
    have counted : pieceCount n 2 = .ok ((n + 1) / 2) := pieceCount_eq (j := 1) hn bound (by decide)
    have least : max 1 ((n + 1) / 2) = (n + 1) / 2 := by omega
    let text (k : ℕ) : Expr := .call "lower" [.call "hex" [.call "randomblob" [.nat k]]]
    have written : randomTextExpr (.of .sqlite) n = liftM (pieceCount n 2) >>= fun k =>
      pure (cutPieces "substr" n [text (max 1 k)]) := rfl
    refine ⟨cutPieces "substr" n [text ((n + 1) / 2)], ?_,
      (Expr.Spells.blob (by omega)).cut (by omega) rfl⟩
    rw [written, run_lift_bind, counted, except_ok_bind, least]
    rfl

/-- A random text of up to 2 ^ 53 characters compiles on each engine. Whatever its functions give,
it is made of exactly as many digits, from the least number of pieces that have as many. -/
theorem length_randomText (e : Engine) (bound : n ≤ 2 ^ 53) (now : ℤ) (row : Expr) (salt : ℤ) :
    ∃ x, expression (.of e) now row salt (.randomText n) = .ok x ∧
      (∀ o place, ∃ s, x.content? o e place = some (.text s) ∧ s.length = n ∧ IsHex s) ∧
      IsLeast {k | n ≤ e.pieceLength * k} (x.pieces e) := by
  obtain ⟨x, hx, spelled⟩ := randomText_spells e bound now row salt
  have positive : 0 < e.pieceLength := by cases e <;> decide
  refine ⟨x, hx, spelled.text, ?_⟩
  rw [spelled.pieces]
  exact isLeast_pieces positive n

/-- Just above two identifiers, ClickHouse takes three; here all their digits are zero. -/
theorem length_randomText_split :
    65 ≤ 2 ^ 53 ∧ ∃ x, expression (.of .clickhouse) 0 .null 3 (.randomText 65) = .ok x ∧
      (∃ s, x.content? .zeros .clickhouse [] = some (.text s) ∧ s.length = 65) ∧
      IsLeast {k | 65 ≤ 32 * k} (x.pieces .clickhouse) := by
  obtain ⟨x, hx, spelled, least⟩ := length_randomText .clickhouse (n := 65) (by decide) 0 .null 3
  obtain ⟨s, hs, length, _⟩ := spelled .zeros []
  exact ⟨by decide, x, hx, ⟨s, hs, length⟩, least⟩

end Generator
end SyntheticRows
