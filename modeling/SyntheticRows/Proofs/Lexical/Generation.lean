import SyntheticRows.Proofs.Compile.Agreement
import SyntheticRows.Proofs.Lexical.Renaming
import SyntheticRows.Proofs.Lexical.Shape
import SyntheticRows.Proofs.Lookup.Drawable
import SyntheticRows.Proofs.Run.ShadowName

/-!
# Shapes of generated expressions

The expressions that fill columns can be read to their ends, and those of two lists of values have
one shape if the lists differ in texts only. ClickHouse is left out: it escapes with backslashes.
-/
namespace SyntheticRows
open Sql

section Parts

variable {e : Engine} (he : e ≠ .clickhouse)
include he

namespace SameShape

theorem int (i : ℤ) : SameShape e (.int i) (.int i) := literal he (.int i)

theorem nat (n : ℕ) : SameShape e (.nat n) (.nat n) := literal he (.int n)

theorem null : SameShape e .null .null := literal he .null

theorem word (s : String) (h : '\x00' ∉ s.toList) : SameShape e (.word s h) (.word s h) :=
  literal he (.text s h)

theorem operand (l : Literal) : SameShape e (.operand l) (.operand l) := by
  unfold Expr.operand
  split
  · exact paren (literal he l)
  · exact literal he l

omit he in
theorem random : SameShape e Engine.random Engine.random :=
  call (by cases e <;> rfl) .nil

theorem maskedRandom : SameShape e Engine.maskedRandom Engine.maskedRandom :=
  paren (binary _ random (nat he _))

theorem unit (tag : ℤ) : SameShape e (e.unit tag) (e.unit tag) := by
  cases e with
  | clickhouse => exact absurd rfl he
  | postgresql | trino => exact random
  | sqlite => exact paren (binary _ (maskedRandom he) (decimal _))

end SameShape

open SameShape

theorem agree_given (i : ℤ) : Agree (SameShape e) (Expr.given i) (Expr.given i) := by
  refine .same fun x h => ?_
  obtain ⟨l, _, rfl⟩ := except_ok_of_map h
  exact literal he l

theorem agree_ofInt (i : ℤ) : Agree (SameShape e) (Expr.ofInt i) (Expr.ofInt i) := by
  refine .same fun x h => ?_
  obtain ⟨l, _, rfl⟩ := except_ok_of_map h
  exact operand he l

theorem agree_ofFloat (x : Double) : Agree (SameShape e) (Expr.ofFloat x) (Expr.ofFloat x) :=
  .bindSame fun l _ => .ok (operand he l)

theorem agree_ofNumber (n : Number) : Agree (SameShape e) (Expr.ofNumber n) (Expr.ofNumber n) := by
  cases n with
  | int i => exact agree_ofInt he i
  | float x => exact agree_ofFloat he x

theorem agree_floorRandom (n : ℤ) :
    Agree (SameShape e) (Engine.floorRandom n) (Engine.floorRandom n) :=
  (agree_given he n).bind fun _ _ h =>
    .ok (call (by cases e <;> rfl) (.cons (binary _ random h) .nil))

theorem agree_integer (n tag : ℤ) : Agree (SameShape e) (e.integer n tag) (e.integer n tag) := by
  cases e with
  | clickhouse => exact absurd rfl he
  | postgresql => exact (agree_floorRandom he n).bind fun _ _ h => .ok (convert h rfl)
  | trino => exact (agree_given he n).bind fun _ _ h => .ok (cast (call rfl (.cons h .nil)) rfl)
  | sqlite =>
    by_cases reached : n ≤ Engine.int64Max
    · simp only [Engine.integer, if_pos reached]
      exact (agree_given he n).bind fun _ _ h => .ok (paren (binary _ (maskedRandom he) h))
    · simp only [Engine.integer, if_neg reached]
      exact .same fun _ h => (refuse_ne_ok h).elim

theorem agree_arrayPosition (n tag : ℤ) :
    Agree (SameShape e) (Dialect.arrayPosition e n tag) (Dialect.arrayPosition e n tag) := by
  cases e with
  | clickhouse => exact absurd rfl he
  | postgresql =>
    exact (agree_floorRandom he n).bind fun _ _ h => .ok (binary _ (nat he 1) (convert h rfl))
  | sqlite | trino =>
    exact (agree_integer he n tag).bind fun _ _ h => .ok (binary _ (nat he 1) h)

/-- The literals of two values. -/
theorem agree_literal {v w : Value} (h : SameButText v w) :
    Agree (SameShape e) ((Dialect.of e).literal v) ((Dialect.of e).literal w) := by
  rw [Dialect.literal_eq, Dialect.literal_eq]
  cases h with
  | text hs ht =>
    simp only [Literal.ofValue, Literal.ofText, dif_pos hs.nulFree, dif_pos ht.nulFree, Except.map]
    exact .ok (text hs.nulFree ht.nulFree)
  | same v =>
    refine .same fun x h => ?_
    obtain ⟨l, _, rfl⟩ := except_ok_of_map h
    exact literal he l

section Generators

variable {now : ℤ} {row : Expr} {vs ws : List Value}

theorem agree_sequence (s : Sequence) (hr : SameShape e row row) :
    Agree (SameShape e) (Generator.sequenceExpr s row) (Generator.sequenceExpr s row) :=
  (agree_ofInt he _).bind fun _ _ step => (agree_ofInt he _).bind fun _ _ start =>
    .ok (paren (binary _ (binary _ start step) (binary _ hr step)))

theorem agrees_intRange (r : IntRange) : Tagged.Agrees (SameShape e)
    (Generator.intRangeExpr (.of e) r) (Generator.intRangeExpr (.of e) r) := by
  refine .bind (.lift (agree_ofInt he _)) fun _ _ low => ?_
  split
  · exact .pure low
  · exact .bindTag fun tag => .bind (.lift (agree_integer he _ tag)) fun _ _ draw =>
      .pure (paren (binary _ low draw))

theorem agree_floatBounds (r : FloatRange) :
    Agree (fun p q => SameShape e p.1 q.1 ∧ SameShape e p.2 q.2) (Generator.floatBounds r)
      (Generator.floatBounds r) :=
  .bindSame fun x _ => (agree_ofFloat he x).bind fun _ _ low => .bindSame fun _ _ =>
    .bindSame fun y _ => (agree_ofFloat he y).bind fun _ _ width => .ok ⟨low, width⟩

theorem agrees_unit (tag : ℤ) : Tagged.Agrees (SameShape e) (liftM ((Dialect.of e).unit tag))
    (liftM ((Dialect.of e).unit tag)) :=
  .lift (.ok (unit he tag))

theorem agrees_floatRange (r : FloatRange) : Tagged.Agrees (SameShape e)
    (Generator.floatRangeExpr (.of e) r) (Generator.floatRangeExpr (.of e) r) := by
  refine .bind (.lift (agree_floatBounds he r)) fun _ _ bounds => .bindTag fun tag => ?_
  refine .bind (agrees_unit he tag) fun _ _ draw => .bind (.lift (agree_given he _)) ?_
  intro _ _ places
  have value := binary .add bounds.1 (binary .mul draw bounds.2)
  cases e with
  | clickhouse => exact absurd rfl he
  | postgresql => exact .pure (call rfl (.cons (convert (paren value) rfl) (.cons places .nil)))
  | sqlite | trino => exact .pure (call rfl (.cons value (.cons places .nil)))

/-- Pieces that are each read to their end, cut to a length. -/
theorem cutPieces {function : String} {xs ys : List Expr} (length : ℕ)
    (hf : e.opens (function ++ "(") = true) (h : List.Forall₂ (SameShape e) xs ys) :
    SameShape e (Generator.cutPieces function length xs)
      (Generator.cutPieces function length ys) := by
  cases h with
  | nil => exact call hf (.cons (null he) (.cons (nat he 1) (.cons (nat he length) .nil)))
  | cons first rest =>
    exact call hf (.cons (chain _ first rest) (.cons (nat he 1) (.cons (nat he length) .nil)))

omit he in
theorem agrees_pieces (length : ℕ) {piece : ℕ → Tagged Expr}
    (h : ∀ i, Tagged.Agrees (SameShape e) (piece i) (piece i)) :
    Tagged.Agrees (List.Forall₂ (SameShape e)) (Generator.piecesOf length piece)
      (Generator.piecesOf length piece) := by
  refine .bindSame fun _ => .bindSame fun _ => ?_
  refine .mapM (P := (· = ·)) (List.forall₂_same.2 fun _ _ => rfl) fun i _ same => ?_
  subst same
  exact h i

theorem agrees_randomText (length : ℕ) : Tagged.Agrees (SameShape e)
    (Generator.randomTextExpr (.of e) length) (Generator.randomTextExpr (.of e) length) := by
  cases e with
  | clickhouse => exact absurd rfl he
  | postgresql =>
    have piece := call (f := "md5") (e := .postgresql) rfl
      (.cons (convert (t := "text") random rfl) .nil)
    exact .engine (.bind (agrees_pieces length fun _ => .pure piece) fun _ _ pieces =>
      .pure (cutPieces he length rfl pieces))
  | sqlite =>
    refine .engine (.bindSame fun bytes => ?_)
    have blob := call (f := "randomblob") (e := .sqlite) rfl (.cons (nat he (max 1 bytes)) .nil)
    have digits := call (f := "lower") rfl (.cons (call (f := "hex") rfl (.cons blob .nil)) .nil)
    exact .pure (cutPieces he length rfl (.cons digits .nil))
  | trino =>
    have piece := call (f := "replace") (e := .trino) rfl
      (.cons (cast (t := "VARCHAR") (call (f := "uuid") rfl .nil) rfl)
        (.cons (word he "-" (by decide)) (.cons (word he "" (by decide)) .nil)))
    exact .engine (.bind (agrees_pieces length fun _ => .pure piece) fun _ _ pieces =>
      .pure (cutPieces he length rfl pieces))

theorem agrees_uuid : Tagged.Agrees (SameShape e) (Generator.uuidExpr (.of e))
    (Generator.uuidExpr (.of e)) := by
  cases e with
  | clickhouse => exact absurd rfl he
  | postgresql | trino => exact .engine (.pure (call rfl .nil))
  | sqlite =>
    refine .engine (.pure ?_)
    have blob (n : ℕ) := call (f := "hex") (e := .sqlite) rfl
      (.cons (call (f := "randomblob") rfl (.cons (nat he n) .nil)) .nil)
    have tail := call (f := "substr") (e := .sqlite) rfl
      (.cons (blob 2) (.cons (nat he 2) .nil))
    have place := binary .add (nat he 1) (binary .mod (maskedRandom he) (nat he 4))
    have letter := call (f := "substr") (e := .sqlite) rfl
      (.cons (word he "89ab" (by decide)) (.cons place (.cons (nat he 1) .nil)))
    have dash := word he "-" (by decide)
    refine call rfl (.cons (chain _ (blob 4) ?_) .nil)
    exact .cons dash (.cons (blob 2) (.cons (word he "-4" (by decide)) (.cons tail (.cons dash
      (.cons letter (.cons tail (.cons dash (.cons (blob 6) .nil))))))))

/-- A point in time from seconds that can be read. -/
theorem agree_fromEpoch {x y : Expr} (h : SameShape e x y) :
    Agree (SameShape e) ((Dialect.of e).fromEpoch x) ((Dialect.of e).fromEpoch y) := by
  cases e with
  | clickhouse => exact absurd rfl he
  | postgresql => exact .ok (paren (atUtc (call rfl (.cons h .nil))))
  | sqlite => exact .ok (call rfl (.cons h (.cons (word he "unixepoch" (by decide)) .nil)))
  | trino =>
    exact .ok (cast (call rfl (.cons h (.cons (word he "UTC" (by decide)) .nil))) rfl)

theorem agrees_span (s : Span) : Tagged.Agrees (SameShape e) (Generator.spanExpr (.of e) now s)
    (Generator.spanExpr (.of e) now s) := by
  rw [Generator.spanExpr_eq]
  refine .bindSame fun start => .bindSame fun stop => ?_
  have inside : Tagged.Agrees (SameShape e)
      (if stop = start then liftM ((Dialect.of e).fromEpoch (.int start))
        else nextTag >>= fun tag =>
          liftM ((Dialect.of e).integer (stop - start + 1) tag) >>= fun draw =>
            liftM ((Dialect.of e).fromEpoch (.paren (.add (.int start) draw))))
      (if stop = start then liftM ((Dialect.of e).fromEpoch (.int start))
        else nextTag >>= fun tag =>
          liftM ((Dialect.of e).integer (stop - start + 1) tag) >>= fun draw =>
            liftM ((Dialect.of e).fromEpoch (.paren (.add (.int start) draw)))) := by
    split
    · exact .lift (agree_fromEpoch he (int he start))
    · exact .bindTag fun tag => .bind (.lift (agree_integer he _ tag)) fun _ _ draw =>
        .lift (agree_fromEpoch he (paren (binary _ (int he start) draw)))
  unfold Generator.spanBetween
  by_cases future : stop < start
  · simp only [future, if_true]
    exact .bindSame fun _ => inside
  · simp only [future, if_false]
    exact inside

/-- A pick from items that are written out. -/
theorem agree_pick {xs ys : List Expr} (hs : e ≠ .sqlite) (h : List.Forall₂ (SameShape e) xs ys)
    (n tag : ℤ) : Agree (SameShape e) ((Dialect.of e).pick xs n tag)
      ((Dialect.of e).pick ys n tag) := by
  cases e with
  | clickhouse => exact absurd rfl he
  | sqlite => exact absurd rfl hs
  | postgresql =>
    exact (agree_arrayPosition he n tag).bind fun _ _ position =>
      .ok (index hs (paren (array hs h)) position)
  | trino =>
    exact (agree_arrayPosition he n tag).bind fun _ _ position =>
      .ok (call rfl (.cons (array hs h) (.cons position .nil)))

theorem branches_caseOfItems {xs ys : List Expr} (h : List.Forall₂ (SameShape e) xs ys) :
    List.Forall₂ (Branches e) (Generator.caseOfItems xs) (Generator.caseOfItems ys) := by
  refine pairing_map ((pairing_zipIdx h 0).imp fun x y same => ?_)
  rw [← same.2]
  exact ⟨nat he x.2, same.1⟩

theorem agrees_choice (h : List.Forall₂ SameButText vs ws) :
    Tagged.Agrees (SameShape e) (Generator.choiceExpr (.of e) vs)
      (Generator.choiceExpr (.of e) ws) := by
  have literals : Tagged.Agrees (List.Forall₂ (SameShape e))
      (vs.mapM fun v => liftM ((Dialect.of e).literal v))
      (ws.mapM fun v => liftM ((Dialect.of e).literal v)) :=
    .mapM h fun _ _ h => .lift (agree_literal he h)
  have same := h.length_eq
  cases h with
  | nil => exact .pure (null he)
  | cons first rest =>
    cases rest with
    | nil => exact .lift (agree_literal he first)
    | cons second rest =>
      refine .bind literals fun xs ys items => .bindTag fun tag => ?_
      rw [same]
      split
      · next sqlite =>
        exact .bind (.lift (agree_integer he _ tag)) fun _ _ draw =>
          .pure (caseOf draw (branches_caseOfItems he items))
      · next other =>
        exact .lift (agree_pick he (fun hs => other (hs ▸ rfl)) items _ tag)

/-- A pick from a list under a name. -/
theorem agree_lookupPick {name name' : String} (hn : IsName e name) (hn' : IsName e name')
    (n tag : ℤ) : Agree (SameShape e) ((Dialect.of e).lookupPick name n tag)
      ((Dialect.of e).lookupPick name' n tag) := by
  have array : IsName e "arr" := ⟨by cases e <;> rfl, by rintro _ ⟨⟩; rfl⟩
  have content := field hn hn' array
  cases e with
  | clickhouse => exact absurd rfl he
  | postgresql =>
    exact (agree_arrayPosition he n tag).bind fun _ _ position =>
      .ok (index (by decide) content position)
  | trino =>
    exact (agree_arrayPosition he n tag).bind fun _ _ position =>
      .ok (call rfl (.cons content (.cons position .nil)))
  | sqlite =>
    refine (agree_integer he n tag).bind fun _ _ draw => ?_
    have path := chain .concat (word he "$[" (by decide))
      (.cons draw (.cons (word he "]" (by decide)) .nil))
    exact .ok (call rfl (.cons content (.cons path .nil)))


omit he in
/-- A letter or a digit goes on with a word. -/
theorem inWord_of_isAlphanum {c : Char} (h : c.isAlphanum = true) : e.inWord c = true := by
  have low : c.toNat < 128 ∧ c ≠ '$' := by
    refine ⟨?_, by rintro rfl; cases h⟩
    simp only [Char.isAlphanum, Char.isAlpha, Char.isUpper, Char.isLower, Char.isDigit,
      Bool.or_eq_true, Bool.and_eq_true, decide_eq_true_eq, UInt32.le_iff_toNat_le] at h
    have same : c.toNat = c.val.toNat := rfl
    simp at h
    omega
  simp [Engine.inWord, isWordChar, h, low.1, low.2]

omit he in
theorem isAlphanum_of_isHexDigit {c : Char} (h : Shadow.isHexDigit c = true) :
    c.isAlphanum = true := by
  simp only [Shadow.isHexDigit, isDigit, Bool.or_eq_true, Bool.and_eq_true, decide_eq_true_eq] at h
  simp only [Char.isAlphanum, Char.isAlpha, Char.isUpper, Char.isLower, Char.isDigit,
    Bool.or_eq_true, Bool.and_eq_true, decide_eq_true_eq]
  rcases h with digit | letter
  · exact .inr digit
  · exact .inl (.inr ⟨letter.1, letter.2.trans (by decide)⟩)

omit he in
/-- Digits in hexadecimal and what stands before them make up one word. -/
theorem isName_lookup {digits : List Char} (h : ∀ c ∈ digits, Shadow.isHexDigit c = true) :
    IsName e ("_lookup_" ++ String.ofList (digits.take 12)) := by
  have front : "_lookup_".toList.all e.inWord = true := by cases e <;> rfl
  refine .bare (fun c there => ?_) (by simp) (by simp)
  rw [String.toList_append, List.mem_append, String.toList_ofList (l := digits.take 12)] at there
  rcases there with fixed | digit
  · exact List.all_eq_true.1 front c fixed
  · exact inWord_of_isAlphanum (isAlphanum_of_isHexDigit (h c (List.mem_of_mem_take digit)))

omit he in
theorem isName_digestName (payload : String) : IsName e (digestName payload) := by
  refine isName_lookup ?_
  simp only [Text.Sha1.hexDigest, String.toList_ofList, List.mem_flatMap]
  rintro c ⟨w, _, there⟩
  exact (Shadow.isRun_hexDigits 8 w.toNat).2 c there

omit he in
/-- Values that differ in texts only have JSON forms together. -/
theorem SameButText.encodes {v w : Value} (h : SameButText v w) : e.encodes v = e.encodes w := by
  cases h with
  | text _ _ => rfl
  | same _ => rfl

omit he in
theorem encodes_iff (h : List.Forall₂ SameButText vs ws) :
    (∀ v ∈ vs, e.encodes v = true) ↔ ∀ w ∈ ws, e.encodes w = true := by
  induction h with
  | nil => rfl
  | cons first _ ih => simp only [List.forall_mem_cons, first.encodes (e := e), ih]

omit he in
/-- Lists that differ in texts only have names together. -/
theorem agree_lookupName (h : List.Forall₂ SameButText vs ws) :
    Agree (fun n n' => IsName e n ∧ IsName e n') (lookupName vs) (lookupName ws) := by
  have loose : Engine.trino ≠ .sqlite := by decide
  have payloads : Agree (fun _ _ => True) (lookupPayload vs) (lookupPayload ws) := by
    refine .of_iff ?_ fun _ _ _ _ => trivial
    rw [payload_ok_iff loose, payload_ok_iff loose]
    exact encodes_iff h
  rw [lookupName_eq, lookupName_eq]
  exact payloads.map fun _ _ _ => ⟨isName_digestName _, isName_digestName _⟩

theorem agrees_choiceByLookup (h : List.Forall₂ SameButText vs ws) :
    Tagged.Agrees (SameShape e) (Generator.choiceByLookupExpr (.of e) vs)
      (Generator.choiceByLookupExpr (.of e) ws) := by
  have same := h.length_eq
  unfold Generator.choiceByLookupExpr
  have empty : vs.isEmpty = ws.isEmpty := by
    rw [Bool.eq_iff_iff, List.isEmpty_iff_length_eq_zero, List.isEmpty_iff_length_eq_zero, same]
  rw [← empty, same]
  split
  · exact .pure (null he)
  · refine .bind (.lift (agree_lookupName (e := e) h)) fun _ _ names => .bindTag fun tag => ?_
    exact .lift (agree_lookupPick he names.1 names.2 _ tag)

/-- A generator and the same one with its values replaced by values that differ in texts only. -/
theorem agrees_compile {f : String → String} (g : Generator) (hr : SameShape e row row)
    (h : ∀ v ∈ g.values, SameButText v (v.renamed f)) :
    Tagged.Agrees (SameShape e) (g.compile (.of e) now row)
      ((g.renamed f).compile (.of e) now row) := by
  have list {vs : List Value} (h : ∀ v ∈ vs, SameButText v (v.renamed f)) :
      List.Forall₂ SameButText vs (vs.map (Value.renamed f)) := by
    rw [List.forall₂_map_right_iff, List.forall₂_same]
    exact h
  cases g with
  | sequence s => exact .lift (agree_sequence he s hr)
  | intRange r => exact agrees_intRange he r
  | floatRange r => exact agrees_floatRange he r
  | randomText length =>
    by_cases empty : length = 0
    · subst empty
      exact .lift (agree_literal he (.same _))
    · simp only [Generator.renamed, Generator.compile, if_neg empty]
      exact agrees_randomText he length
  | choice values => exact agrees_choice he (list h)
  | choiceByLookup values => exact agrees_choiceByLookup he (list h)
  | constant v => exact .lift (agree_literal he (h v (List.mem_singleton_self v)))
  | span s => exact agrees_span he s
  | uuid => exact agrees_uuid he
  | other kind => exact fun _ => .error

end Generators

section Columns

variable {f : String → String} {c c' : Column} {x y row : Expr} {now : ℤ}

omit he in
theorem closes_physicalType (e : Engine) (type : ColumnType) :
    e.closes (" AS " ++ e.physicalType type ++ ")") = true := by
  cases e <;> cases type <;> rfl

theorem physicalType_eq (c : Column) : c.physicalType e = e.physicalType c.type := by
  simp [Column.physicalType, he]

theorem agree_cast (type : c'.type = c.type) (h : SameShape e x y) :
    Agree (SameShape e) (Column.cast (.of e) x c) (Column.cast (.of e) y c') := by
  have typed : SameShape e (.cast x (c.physicalType e)) (.cast y (c'.physicalType e)) := by
    rw [physicalType_eq he, physicalType_eq he, type]
    exact SameShape.cast h (closes_physicalType e c.type)
  cases e with
  | clickhouse => exact absurd rfl he
  | postgresql | trino =>
    simp only [Column.cast, Dialect.engine]
    exact .ok typed
  | sqlite =>
    cases hc : c.type with
    | datetime | date =>
      rw [hc] at type
      simp only [Column.cast, Dialect.engine, hc, type]
      exact .ok (call rfl (.cons h .nil))
    | _ =>
      rw [hc] at type
      simp only [Column.cast, Dialect.engine, hc, type]
      exact .ok typed

theorem agree_nullWrap {p q : Expr} (hp : SameShape e p q) (h : SameShape e x y) (tag : ℤ) :
    Agree (SameShape e) ((Dialect.of e).nullWrap x p tag) ((Dialect.of e).nullWrap y q tag) := by
  have drawn : SameShape e (.less (e.unit tag) p) (.less (e.unit tag) q) :=
    binary _ (unit he tag) hp
  have whole : SameShape e (.caseWhen [(.less (e.unit tag) p, .null)] x)
      (.caseWhen [(.less (e.unit tag) q, .null)] y) :=
    caseWhen (.cons ⟨drawn, null he⟩ .nil) h
  cases e with
  | clickhouse => exact absurd rfl he
  | postgresql | sqlite | trino => exact .ok whole

/-- The typed expressions of a column and its renamed one. -/
theorem agrees_column (h : c.Renamed f c') (hr : SameShape e row row)
    (hv : ∀ v ∈ c.generator.values, SameButText v (v.renamed f)) :
    Tagged.Agrees (SameShape e) (c.compile (.of e) now row) (c'.compile (.of e) now row) := by
  have probability : c'.effectiveNullProbability = c.effectiveNullProbability := by
    rw [Column.effectiveNullProbability, Column.effectiveNullProbability, h.nullable,
      h.nullProbability]
  simp only [Column.compile, probability, h.generator]
  split
  · exact .pure (null he)
  · refine .bind (agrees_compile he c.generator hr hv) fun _ _ value => ?_
    refine .bind (.lift (agree_cast he h.type value)) fun _ _ typed => ?_
    split
    · exact .pure typed
    · exact .bindTag fun tag => .bind (.lift (agree_ofNumber he _)) fun _ _ limit =>
        .lift (agree_nullWrap he limit typed tag)

theorem agree_expression (h : Column.Renamed f c c') (hr : SameShape e row row)
    (hv : ∀ v ∈ c.generator.values, SameButText v (v.renamed f)) (salt : ℤ) :
    Agree (SameShape e) (c.expression (.of e) now row salt) (c'.expression (.of e) now row salt) :=
  (agrees_column he h hr hv _).map fun _ _ both => both.1

end Columns
end Parts
end SyntheticRows
