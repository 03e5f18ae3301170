import SyntheticRows.Compile.Batch
import SyntheticRows.Proofs.Meaning.Mutation
import SyntheticRows.Proofs.Pairing

/-!
# Draws

Which unit draws a transformation takes for a row, in their order, and that the expressions of
draws yield exactly the unit draws of their engine. A mutation that reads its draws from numbered
places, or from a list of its own, yields its content for what was drawn.
-/
namespace SyntheticRows
open Sql

/-- SQLite's mask leaves the numbers below its modulus, and gives nothing else. -/
theorem Datum.maskedBits_int64Max (i : ℤ) :
    ∃ n : ℕ, n < 2 ^ 63 ∧ maskedBits i Engine.int64Max = n ∧
      (0 ≤ i → i < 2 ^ 63 → (n : ℤ) = i) := by
  have mask : (BitVec.ofInt 64 Engine.int64Max).toNat = 2 ^ 63 - 1 := by decide
  have low : (BitVec.ofInt 64 i &&& BitVec.ofInt 64 Engine.int64Max).toNat =
      (BitVec.ofInt 64 i).toNat % 2 ^ 63 := by
    rw [BitVec.toNat_and, mask, Nat.and_two_pow_sub_one_eq_mod]
  refine ⟨(BitVec.ofInt 64 i).toNat % 2 ^ 63, Nat.mod_lt _ (by positivity), ?_, fun h₀ h₁ => ?_⟩
  · rw [maskedBits, BitVec.toInt_eq_toNat_of_lt, low]
    rw [low]
    omega
  · rw [BitVec.toNat_ofInt]
    omega

namespace Engine

variable {R : Rules} {env : Env} {e : Engine} {v : Datum}

theorem isDraw_zero (e : Engine) : e.IsDraw 0 := by
  cases e with
  | postgresql => exact ⟨le_rfl, zero_lt_one⟩
  | trino => exact ⟨le_rfl, zero_lt_one⟩
  | sqlite => exact ⟨0, by positivity, by simp⟩
  | clickhouse => exact ⟨0, by positivity, by simp⟩

theorem maskedRandom_yields (he : R.engine = .sqlite) :
    Yields R env maskedRandom v ↔ ∃ n : ℕ, n < 2 ^ 63 ∧ v = .number n := by
  have operated (i : ℤ) : R.operate .bitAnd (.number i) (.number (int64Max : ℕ)) =
      some (.number (Datum.maskedBits i int64Max)) := by
    simp only [Rules.operate, Datum.arithmetic, Int.floor_intCast]
    rw [← Int.cast_natCast (R := ℚ) int64Max, Int.floor_intCast]
  simp only [maskedRandom, random, Yields.paren_iff, Yields.binary_iff, Yields.random_iff, he,
    nat_denotes int64Max _, Option.some.injEq, IsRandom]
  constructor
  · rintro ⟨_, _, ⟨_, ⟨i, _, _, rfl⟩, rfl⟩, rfl, h⟩
    rw [operated, Option.some.injEq] at h
    obtain ⟨n, hn, hmasked, _⟩ := Datum.maskedBits_int64Max i
    exact ⟨n, hn, by rw [← h, hmasked, Int.cast_natCast]⟩
  · rintro ⟨n, hn, rfl⟩
    refine ⟨_, _, ⟨_, ⟨(n : ℤ), by omega, by exact_mod_cast hn, rfl⟩, rfl⟩, rfl, ?_⟩
    obtain ⟨k, _, hmasked, same⟩ := Datum.maskedBits_int64Max n
    rw [operated, hmasked, same (by omega) (by exact_mod_cast hn), Int.cast_natCast]

/-- The expression of a unit draw yields the unit draws of the engine. -/
theorem unit_yields (he : R.engine = e) (hn : e ≠ .clickhouse) (tag : Int) :
    Yields R env (e.unit tag) v ↔ ∃ q, e.IsDraw q ∧ v = .number q := by
  cases e with
  | clickhouse => exact (hn rfl).elim
  | postgresql => simp only [unit, random, Yields.random_iff, he, IsRandom, IsDraw]
  | trino => simp only [unit, random, Yields.random_iff, he, IsRandom, IsDraw]
  | sqlite =>
    have divided (n : ℕ) : R.operate .div (.number n) (.number (9223372036854775808 : ℕ)) =
        some (.number ((n : ℚ) / 2 ^ 63)) := by
      simp only [Rules.operate, Datum.arithmetic]
      rw [if_neg (by norm_num)]
      norm_num
    simp only [unit, Yields.paren_iff, Yields.binary_iff, maskedRandom_yields he,
      Yields.decimal_iff, IsDraw]
    constructor
    · rintro ⟨_, _, ⟨n, hn, rfl⟩, rfl, h⟩
      rw [divided, Option.some.injEq] at h
      exact ⟨_, ⟨n, hn, rfl⟩, h.symm⟩
    · rintro ⟨_, ⟨n, hn, rfl⟩, rfl⟩
      exact ⟨_, _, ⟨n, hn, rfl⟩, rfl, divided n⟩

/-- On ClickHouse a unit draw is that of its tag. -/
theorem unit_denotes (tag : Int) :
    Denotes R env (Engine.clickhouse.unit tag) (some (.number (env.rand tag / 2 ^ 32))) := by
  have divided : R.operate .div (.number (env.rand tag)) (.number (4294967296 : ℕ)) =
      some (.number (env.rand tag / 2 ^ 32)) := by
    simp only [Rules.operate, Datum.arithmetic]
    rw [if_neg (by norm_num)]
    norm_num
  have drawn : Denotes R env (.call "rand" [.int tag]) (some (.number (env.rand tag))) := by
    intro v
    rw [Yields.rand_iff, Option.some.injEq, eq_comm]
  have whole : Denotes R env (.decimal 4294967296) (some (.number (4294967296 : ℕ))) := by
    intro v
    rw [Yields.decimal_iff, Option.some.injEq, eq_comm]
  exact .paren (Denotes.binary_some .div drawn whole divided)

theorem units_yield (he : R.engine = e) (hn : e ≠ .clickhouse) (tags : List Int)
    {ws : List Datum} :
    YieldsAll R env (tags.map e.unit) ws ↔
      ∃ qs : List ℚ, qs.length = tags.length ∧ (∀ q ∈ qs, e.IsDraw q) ∧
        ws = qs.map .number := by
  rw [Yields.all_iff, List.forall₂_map_left_iff]
  constructor
  · intro h
    induction h with
    | nil => exact ⟨[], rfl, by simp, rfl⟩
    | cons hv _ ih =>
      obtain ⟨q, hq, rfl⟩ := (unit_yields he hn _).1 hv
      obtain ⟨qs, hl, hqs, rfl⟩ := ih
      refine ⟨q :: qs, by simp [hl], fun p hp => ?_, rfl⟩
      rcases List.mem_cons.1 hp with rfl | hp
      · exact hq
      · exact hqs p hp
  · rintro ⟨qs, hl, hqs, rfl⟩
    rw [List.forall₂_map_right_iff]
    refine List.forall₂_iff_zip.2 ⟨hl.symm, fun hp => ?_⟩
    exact (unit_yields he hn _).2 ⟨_, hqs _ (List.of_mem_zip hp).2, rfl⟩

end Engine

theorem Chance.zero_isFor (e : Engine) : Chance.IsFor e ⟨0, 0, 0⟩ :=
  ⟨e.isDraw_zero, e.isDraw_zero, e.isDraw_zero⟩

/-- The draws that a mutation takes for a row. -/
def Mutation.drawn (m : Mutation) (c : Chance) : List ℚ :=
  (if m.needsGate then [c.gate] else []) ++
    ((if m.needsChoice then [c.choice] else []) ++ [c.place])

namespace Transformation

/-- The draws that a transformation takes for a row. -/
def drawn : Transformation → Chance → List ℚ
  | mutation m, c => m.drawn c
  | swap s, c => if (Number.int 1).le s.probability.val then [] else [c.gate]
  | _, _ => []

def drawCount : Transformation → ℕ
  | mutation m => m.drawCount
  | swap s => if (Number.int 1).le s.probability.val then 0 else 1
  | _ => 0

theorem length_drawn (tr : Transformation) (c : Chance) : (tr.drawn c).length = tr.drawCount := by
  cases tr with
  | mutation m =>
    simp only [drawn, drawCount, Mutation.drawn, Mutation.drawCount, List.length_append]
    split <;> split <;> rfl
  | swap s =>
    simp only [drawn, drawCount]
    split <;> rfl
  | _ => rfl

theorem isDraw_of_mem_drawn {tr : Transformation} {c : Chance} {e : Engine} (hc : c.IsFor e)
    {q : ℚ} (hq : q ∈ tr.drawn c) : e.IsDraw q := by
  obtain ⟨hg, hch, hp⟩ := hc
  cases tr with
  | mutation m =>
    simp only [drawn, Mutation.drawn, List.mem_append, List.mem_ite_nil_right,
      List.mem_singleton] at hq
    rcases hq with ⟨_, rfl⟩ | ⟨_, rfl⟩ | rfl
    · exact hg
    · exact hch
    · exact hp
  | swap s =>
    simp only [drawn, List.mem_ite_nil_left, List.mem_singleton] at hq
    rw [hq.2]
    exact hg
  | _ => cases hq

/-- Any draws of the right number are those of some chance. -/
theorem exists_drawn {tr : Transformation} {e : Engine} {qs : List ℚ}
    (hl : qs.length = tr.drawCount) (hqs : ∀ q ∈ qs, e.IsDraw q) :
    ∃ c : Chance, c.IsFor e ∧ tr.drawn c = qs := by
  have zero := e.isDraw_zero
  cases tr with
  | mutation m =>
    simp only [drawCount, Mutation.drawCount] at hl
    simp only [drawn, Mutation.drawn]
    cases hg : m.needsGate <;> cases hc : m.needsChoice <;>
      simp only [hg, hc, if_true, Bool.false_eq_true, if_false] at hl ⊢
    · obtain ⟨p, rfl⟩ := List.length_eq_one_iff.1 hl
      exact ⟨⟨0, 0, p⟩, ⟨zero, zero, hqs _ (by simp)⟩, rfl⟩
    · obtain ⟨c, p, rfl⟩ := List.length_eq_two.1 hl
      exact ⟨⟨0, c, p⟩, ⟨zero, hqs _ (by simp), hqs _ (by simp)⟩, rfl⟩
    · obtain ⟨g, p, rfl⟩ := List.length_eq_two.1 hl
      exact ⟨⟨g, 0, p⟩, ⟨hqs _ (by simp), zero, hqs _ (by simp)⟩, rfl⟩
    · obtain ⟨g, c, p, rfl⟩ := List.length_eq_three.1 hl
      exact ⟨⟨g, c, p⟩, ⟨hqs _ (by simp), hqs _ (by simp), hqs _ (by simp)⟩, rfl⟩
  | swap s =>
    simp only [drawCount] at hl
    simp only [drawn]
    split at hl
    · rw [List.length_eq_zero_iff] at hl
      exact ⟨⟨0, 0, 0⟩, ⟨zero, zero, zero⟩, by simp [*]⟩
    · obtain ⟨g, rfl⟩ := List.length_eq_one_iff.1 hl
      exact ⟨⟨g, 0, 0⟩, ⟨hqs _ (by simp), zero, zero⟩, by simp [*]⟩
  | _ =>
    have none : qs = [] := List.length_eq_zero_iff.1 hl
    exact ⟨⟨0, 0, 0⟩, ⟨zero, zero, zero⟩, by simp [drawn, none]⟩

/-- On ClickHouse the draws of the transformation with an index are those of its tags. -/
def Tagged (rand : Int → ℕ) (index : ℕ) (tr : Transformation) (c : Chance) : Prop :=
  tr.drawn c = (List.range tr.drawCount).map fun (k : ℕ) =>
    (rand ((Target.transformationSalt + index : ℕ) * 1000 + ((k + 1 : ℕ) : Int)) : ℚ) / 2 ^ 32

theorem exists_tagged {rand : Int → ℕ} (hr : ∀ tag, rand tag < 2 ^ 32) (index : ℕ)
    (tr : Transformation) : ∃ c : Chance, c.IsFor .clickhouse ∧ tr.Tagged rand index c := by
  refine exists_drawn (by simp) fun q hq => ?_
  obtain ⟨k, _, rfl⟩ := List.mem_map.1 hq
  exact ⟨_, hr _, rfl⟩

theorem drawCount_le (tr : Transformation) : tr.drawCount ≤ 3 := by
  cases tr with
  | mutation m =>
    simp only [drawCount, Mutation.drawCount]
    split <;> split <;> omega
  | swap s =>
    simp only [drawCount]
    split <;> omega
  | _ => exact Nat.zero_le 3

/-- Transformations with different indices have different tags, so anything can be drawn for each
of them. -/
theorem exists_rand (f : ℕ → Transformation × Chance) (hf : ∀ i, (f i).2.IsFor .clickhouse) :
    ∃ rand : Int → ℕ, (∀ tag, rand tag < 2 ^ 32) ∧ ∀ i, (f i).1.Tagged rand i (f i).2 := by
  have whole (q : ℚ) (hq : Engine.clickhouse.IsDraw q) :
      ∃ n : ℕ, n < 2 ^ 32 ∧ q = n / 2 ^ 32 := hq
  choose number hlow hnumber using whole
  have drawn (i k : ℕ) : Engine.clickhouse.IsDraw (((f i).1.drawn (f i).2)[k]?.getD 0) := by
    cases hk : ((f i).1.drawn (f i).2)[k]? with
    | none => exact Engine.isDraw_zero _
    | some q => exact isDraw_of_mem_drawn (hf i) (List.mem_of_getElem? hk)
  refine ⟨fun tag => number _ (drawn (tag / 1000 - Target.transformationSalt).toNat
    (tag % 1000 - 1).toNat), fun tag => hlow _ _, fun i => ?_⟩
  refine List.ext_getElem (by simp [length_drawn]) fun k hk _ => ?_
  have few : k < 3 := (length_drawn (f i).1 (f i).2 ▸ hk).trans_le (drawCount_le _)
  have index : ((((Target.transformationSalt + i : ℕ) : Int) * 1000 + ((k + 1 : ℕ) : Int)) / 1000 -
      Target.transformationSalt).toNat = i := by omega
  have place : ((((Target.transformationSalt + i : ℕ) : Int) * 1000 + ((k + 1 : ℕ) : Int)) % 1000 -
      1).toNat = k := by omega
  simp only [List.getElem_map, List.getElem_range, ← hnumber, index, place]
  rw [List.getElem?_eq_getElem hk, Option.getD_some]

/-- The chances of several transformations, each drawn under its index. -/
def TaggedAll (rand : Int → ℕ) :
    List (Transformation × ℕ) → List (Transformation × Chance) → Prop :=
  List.Forall₂ fun a x => x.1 = a.1 ∧ x.2.IsFor .clickhouse ∧ x.1.Tagged rand a.2 x.2

section TaggedAll

variable {rand : Int → ℕ} {l : List (Transformation × ℕ)} {cs : List (Transformation × Chance)}

theorem TaggedAll.map_fst (h : TaggedAll rand l cs) : cs.map Prod.fst = l.map Prod.fst := by
  rw [← List.forall₂_eq_eq_eq, List.forall₂_map_left_iff, List.forall₂_map_right_iff]
  exact h.flip.imp fun _ _ hx => hx.1

theorem TaggedAll.isFor (h : TaggedAll rand l cs) : ∀ a ∈ cs, a.2.IsFor .clickhouse := by
  intro a ha
  obtain ⟨_, _, _, hfor, _⟩ := partner_left h ha
  exact hfor

theorem exists_taggedAll (hr : ∀ tag, rand tag < 2 ^ 32) (l : List (Transformation × ℕ)) :
    ∃ cs, TaggedAll rand l cs :=
  pairing_of_forall fun a _ =>
    have ⟨c, hc, tagged⟩ := exists_tagged hr a.2 a.1
    ⟨(a.1, c), rfl, hc, tagged⟩

/-- Under different indices anything can be drawn for each transformation. -/
theorem exists_rand_of_nodup (hn : (l.map Prod.snd).Nodup)
    (hcs : cs.map Prod.fst = l.map Prod.fst) (hfor : ∀ a ∈ cs, a.2.IsFor .clickhouse) :
    ∃ rand : Int → ℕ, (∀ tag, rand tag < 2 ^ 32) ∧ TaggedAll rand l cs := by
  have paired : List.Forall₂ (fun a x => x.1 = a.1) l cs := by
    rw [← List.forall₂_eq_eq_eq, List.forall₂_map_left_iff, List.forall₂_map_right_iff] at hcs
    exact hcs.flip
  have lengths := paired.length_eq
  have indices : (l.zip cs).map (·.1.2) = l.map Prod.snd := by
    conv_rhs => rw [← List.map_fst_zip lengths.le, List.map_map]
    rfl
  have chosen (i : ℕ) : ∃ y : Transformation × Chance, y.2.IsFor .clickhouse ∧
      ∀ p ∈ l.zip cs, p.1.2 = i → p.2 = y := by
    by_cases hi : ∃ p ∈ l.zip cs, p.1.2 = i
    · obtain ⟨p, hp, rfl⟩ := hi
      refine ⟨p.2, hfor _ (List.of_mem_zip hp).2, fun p' hp' hi => ?_⟩
      rw [List.inj_on_of_nodup_map (indices ▸ hn) hp' hp hi]
    · exact ⟨(.other none, ⟨0, 0, 0⟩), Chance.zero_isFor _, fun p hp hpi =>
        (hi ⟨p, hp, hpi⟩).elim⟩
  choose f hf hchosen using chosen
  obtain ⟨rand, hr, tagged⟩ := exists_rand f hf
  refine ⟨rand, hr, List.forall₂_iff_zip.2 ⟨lengths, fun {a x} hp => ?_⟩⟩
  have drawn : x = f a.2 := hchosen _ _ hp rfl
  exact ⟨(List.forall₂_iff_zip.1 paired).2 hp, hfor x (List.of_mem_zip hp).2,
    drawn ▸ tagged a.2⟩

end TaggedAll

/-- Any draws of the right number are those of some chances. -/
theorem exists_chances {e : Engine} {l : List Transformation} {qs : List ℚ}
    (hl : qs.length = (l.map drawCount).sum) (hqs : ∀ q ∈ qs, e.IsDraw q) :
    ∃ cs : List (Transformation × Chance), cs.map Prod.fst = l ∧ (∀ a ∈ cs, a.2.IsFor e) ∧
      cs.flatMap (fun a => a.1.drawn a.2) = qs := by
  induction l generalizing qs with
  | nil => exact ⟨[], rfl, by simp, (List.length_eq_zero_iff.1 hl).symm⟩
  | cons tr l ih =>
    rw [List.map_cons, List.sum_cons] at hl
    have few : (qs.take tr.drawCount).length = tr.drawCount := by
      rw [List.length_take]
      omega
    have others : (qs.drop tr.drawCount).length = (l.map drawCount).sum := by
      rw [List.length_drop]
      omega
    obtain ⟨c, hc, first⟩ := exists_drawn few fun q hq => hqs q (List.mem_of_mem_take hq)
    obtain ⟨cs, hcs, hfor, rest⟩ := ih others fun q hq => hqs q (List.mem_of_mem_drop hq)
    refine ⟨(tr, c) :: cs, by rw [List.map_cons, hcs], fun a ha => ?_, ?_⟩
    · rcases List.mem_cons.1 ha with rfl | ha
      · exact hc
      · exact hfor a ha
    · rw [List.flatMap_cons, first, rest, List.take_append_drop]

end Transformation

namespace Mutation

variable {R : Rules} {env : Env} {d : Dialect} {m : Mutation} {column x : Expr} {c : Chance}
  {o : Option Datum}

theorem withDraws_denotes {draw : ℕ → Expr} {first : ℕ} (hd : d = .of R.engine)
    (hc : c.InUnit) (hcol : Denotes R env column o)
    (hdraw : ∀ i q, (m.drawn c)[i]? = some q → Denotes R env (draw (first + i)) (some (.number q)))
    (h : m.withDraws d column draw first = .ok x) : Denotes R env x (o.map (m.content R c)) := by
  unfold withDraws at h
  simp only [drawn] at hdraw
  refine expression_denotes hd hc hcol (fun g hg => ?_) (fun hg => ?_) (fun e he => ?_)
    (fun he => ?_) ?_ h
  · cases hgate : m.needsGate <;> simp only [hgate, if_true, Bool.false_eq_true, if_false] at hg
    · cases hg
    · cases hg
      exact hdraw 0 _ (by simp [hgate])
  · cases hgate : m.needsGate <;> simp [hgate] at hg ⊢
  · cases hchoice : m.needsChoice <;>
      simp only [hchoice, if_true, Bool.false_eq_true, if_false] at he
    · cases he
    · cases he
      cases hgate : m.needsGate
      · exact hdraw 0 _ (by simp [hgate, hchoice])
      · exact hdraw 1 _ (by simp [hgate, hchoice])
  · cases hchoice : m.needsChoice <;> simp [hchoice] at he ⊢
  · cases hgate : m.needsGate <;> cases hchoice : m.needsChoice
    · exact hdraw 0 _ (by simp [hgate, hchoice])
    · exact hdraw 1 _ (by simp [hgate, hchoice])
    · exact hdraw 1 _ (by simp [hgate, hchoice])
    · exact hdraw 2 _ (by simp [hgate, hchoice])

/-- The mutation reads its draws from one list of them, taken once. -/
theorem boundExpr_yields {e : Engine} {salt : Int} (h : m.boundExpr e column salt = .ok x) :
    ∃ body, m.withDraws (.of e) column boundDraw 1 = .ok body ∧
      ∀ R env v, Yields R env x v ↔ ∃ ws,
        YieldsAll R env ((List.range m.drawCount).map fun (i : ℕ) =>
          e.unit (salt * 1000 + ((i + 1 : ℕ) : Int))) ws ∧
        Yields R (env.bind "_r" (.list ws)) body v := by
  obtain ⟨body, hb, h⟩ := except_ok_of_bind h
  refine ⟨body, hb, fun R env v => ?_⟩
  set units := (List.range m.drawCount).map fun (i : ℕ) =>
    e.unit (salt * 1000 + ((i + 1 : ℕ) : Int))
  have first (n : ℕ) : Yields R env (.nat 1) (.number ((n : ℕ) + 1)) ↔ n = 0 := by
    rw [nat_denotes 1 _]
    simp
  -- Both engines map the function over a list that holds one list of draws.
  have applied {f : String} (hf : f = "element_at" ∨ f = "arrayElement") {outer inner mapped : Expr}
      (ho : ∀ w, Yields R env outer w ↔ ∃ vs, YieldsAll R env [inner] vs ∧ w = .list vs)
      (hi : ∀ w, Yields R env inner w ↔ ∃ vs, YieldsAll R env units vs ∧ w = .list vs)
      (hm : ∀ w, Yields R env mapped w ↔ ∃ items vs, Yields R env outer (.list items) ∧
        YieldsEach R env "_r" body items vs ∧ w = .list vs) :
      Yields R env (.call f [mapped, .nat 1]) v ↔
        ∃ ws, YieldsAll R env units ws ∧ Yields R (env.bind "_r" (.list ws)) body v := by
    simp only [Yields.element_iff hf, hm, ho, Yields.cons_iff, Yields.nil_iff, hi, first]
    constructor
    · rintro ⟨_, _, ⟨_, _, ⟨_, ⟨_, _, ⟨ws, hws, rfl⟩, rfl, rfl⟩, ⟨⟩⟩, heach, ⟨⟩⟩, rfl, hv⟩
      obtain ⟨u, hu, rfl⟩ := Yields.each_singleton_iff.1 heach
      cases hv
      exact ⟨ws, hws, hu⟩
    · rintro ⟨ws, hws, hv⟩
      exact ⟨_, _, ⟨_, _, ⟨_, ⟨_, _, ⟨ws, hws, rfl⟩, rfl, rfl⟩, rfl⟩,
        Yields.each_singleton_iff.2 ⟨v, hv, rfl⟩, rfl⟩, rfl, rfl⟩
  cases e with
  | clickhouse =>
    cases h
    exact applied (.inr rfl) (fun _ => Yields.brackets_iff) (fun _ => Yields.brackets_iff)
      fun _ => Yields.arrayMap_iff
  | _ =>
    cases h
    exact applied (.inl rfl) (fun _ => Yields.array_iff) (fun _ => Yields.array_iff)
      fun _ => Yields.transform_iff

/-- A draw out of the list that is bound. -/
theorem boundDraw_denotes {qs : List ℚ} {i : ℕ} {q : ℚ} (hq : qs[i]? = some q) :
    Denotes R (env.bind "_r" (.list (qs.map .number))) (boundDraw (1 + i))
      (some (.number q)) := by
  intro v
  have place (n : ℕ) : Yields R (env.bind "_r" (.list (qs.map .number))) (.nat (1 + i))
      (.number ((n : ℕ) + 1)) ↔ n = i := by
    rw [nat_denotes _ _, Option.some.injEq, Datum.number.injEq, add_comm 1 i]
    push_cast
    rw [add_left_inj, Nat.cast_inj, eq_comm]
  simp only [boundDraw, Expr.bare, Yields.index_iff, Yields.name_iff, place]
  simp [Env.bind, hq]

/-- The mutation over a list of draws of its own yields its content for what they are. -/
theorem body_denotes {e : Engine} {body : Expr} (he : R.engine = e) (hc : c.InUnit)
    (hcol : ∀ w, Denotes R (env.bind "_r" w) column o)
    (h : m.withDraws (.of e) column boundDraw 1 = .ok body) :
    Denotes R (env.bind "_r" (.list ((m.drawn c).map .number))) body (o.map (m.content R c)) :=
  withDraws_denotes (he ▸ rfl) hc (hcol _) (fun _ _ hq => boundDraw_denotes hq) h

/-- On ClickHouse the mutation yields its content for the draws of its tags. -/
theorem boundExpr_denotes {index : ℕ} (he : R.engine = .clickhouse) (hc : c.IsFor .clickhouse)
    (ht : Transformation.Tagged env.rand index (.mutation m) c)
    (hcol : ∀ w, Denotes R (env.bind "_r" w) column o)
    (h : m.boundExpr .clickhouse column (Target.transformationSalt + index : ℕ) = .ok x) :
    Denotes R env x (o.map (m.content R c)) := by
  obtain ⟨body, hbody, each⟩ := boundExpr_yields h
  have units : List.Forall₂ (fun x v => Denotes R env x (some v))
      ((List.range m.drawCount).map fun (k : ℕ) => Engine.clickhouse.unit
        ((Target.transformationSalt + index : ℕ) * 1000 + ((k + 1 : ℕ) : Int)))
      ((m.drawn c).map .number) := by
    have tagged : m.drawn c = _ := ht
    rw [tagged, List.map_map, List.forall₂_map_left_iff, List.forall₂_map_right_iff]
    exact List.forall₂_same.2 fun k _ => Engine.unit_denotes _
  intro v
  simp only [each, Denotes.all units, exists_eq_left]
  exact body_denotes he hc.inUnit hcol hbody v

end Mutation
end SyntheticRows
