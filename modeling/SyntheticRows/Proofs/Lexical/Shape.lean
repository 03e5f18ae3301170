import SyntheticRows.Proofs.Json.Items
import SyntheticRows.Proofs.Lexical.NumberToken
import SyntheticRows.Proofs.Pairing
import SyntheticRows.Sql.Statement

/-!
# Texts of one shape

Two texts have one shape if they are read to their ends as tokens of the same kinds. What is put
together of parts of one shape in the same way has one shape.
-/
namespace SyntheticRows
open Sql

/-- Both texts can be read, and their tokens are of the same kinds. -/
def SameTokens (e : Engine) (s t : String) : Prop :=
  ∃ ks, e.tokens s = some ks ∧ e.tokens t = some ks

namespace Engine

/-- A text that can end another one. -/
def closes (e : Engine) (g : String) : Bool := startsApart g && (e.tokens g).isSome

/-- A text that can stand between two others. -/
def separates (e : Engine) (g : String) : Bool := g ≠ "" && startsApart g && e.opens g

end Engine

section Texts

variable {e : Engine} {s t s' t' g : String} {ss ts : List String}

theorem SameTokens.refl (h : (e.tokens s).isSome = true) : SameTokens e s s := by
  obtain ⟨ks, hks⟩ := Option.isSome_iff_exists.1 h
  exact ⟨ks, hks, hks⟩

theorem SameTokens.opened (hg : e.opens g = true) (h : SameTokens e s t) :
    SameTokens e (g ++ s) (g ++ t) := by
  obtain ⟨front, append⟩ := tokens_of_opens hg
  obtain ⟨ks, hs, ht⟩ := h
  exact ⟨front ++ ks, by rw [append, hs]; rfl, by rw [append, ht]; rfl⟩

theorem SameTokens.append (h : SameTokens e s t) (h' : SameTokens e s' t')
    (hs : startsApart s' = true) (ht : startsApart t' = true) :
    SameTokens e (s ++ s') (t ++ t') := by
  obtain ⟨ks, first, second⟩ := h
  obtain ⟨ks', first', second'⟩ := h'
  exact ⟨ks ++ ks', by rw [tokens_append first hs, first']; rfl,
    by rw [tokens_append second ht, second']; rfl⟩

theorem SameTokens.closed (h : SameTokens e s t) (hg : e.closes g = true) :
    SameTokens e (s ++ g) (t ++ g) := by
  rw [Engine.closes, Bool.and_eq_true] at hg
  exact h.append (.refl hg.2) hg.1 hg.1

theorem startsApart_append (filled : g ≠ "") (h : startsApart g = true) :
    startsApart (g ++ s) = true := by
  have some : g.toList ≠ [] := by simpa using filled
  obtain ⟨c, cs, hg⟩ := List.exists_cons_of_ne_nil some
  simpa [startsApart, String.toList_append, hg] using h

theorem SameTokens.between (h : SameTokens e s t) (hg : e.separates g = true)
    (h' : SameTokens e s' t') : SameTokens e (s ++ g ++ s') (t ++ g ++ t') := by
  simp only [Engine.separates, Bool.and_eq_true, decide_eq_true_eq] at hg
  obtain ⟨⟨filled, apart⟩, opens⟩ := hg
  rw [String.append_assoc, String.append_assoc]
  exact h.append (h'.opened opens) (startsApart_append filled apart)
    (startsApart_append filled apart)

theorem SameTokens.joined (hg : e.separates g = true) (h : List.Forall₂ (SameTokens e) ss ts) :
    SameTokens e (Text.joined g ss) (Text.joined g ts) := by
  have step (first second : String) (rest : List String) :
      Text.joined g (first :: second :: rest) =
        first ++ g ++ Text.joined g (second :: rest) := by
    simp [Text.joined, String.append_assoc]
  induction h with
  | nil => exact ⟨[], rfl, rfl⟩
  | cons first rest ih =>
    cases rest with
    | nil => simpa [Text.joined] using first
    | cons second rest =>
      rw [step, step]
      exact first.between hg ih

end Texts

section Names

/-- One word that is not behind a number, so that a point can stand on either side of it. -/
structure IsName (e : Engine) (s : String) : Prop where
  word : e.tokens s = some [.word]
  first : ∀ c ∈ s.toList.head?, c.isDigit = false

variable {e : Engine} {s t : String}

theorem IsName.bare (h : ∀ c ∈ s.toList, e.inWord c = true)
    (first : ∀ c ∈ s.toList.head?, c.isDigit = false ∧ c ≠ '$') (filled : s ≠ "") : IsName e s :=
  ⟨tokens_bare h first filled, fun c hc => (first c hc).1⟩

/-- A point behind a name is a token of its own. -/
theorem IsName.dotted (h : IsName e s) (first : ∀ c ∈ t.toList.head?, c.isDigit = false)
    (filled : t ≠ "") :
    e.tokens (s ++ "." ++ t) = (e.tokens t).map ([.word, .symbol ['.']] ++ ·) := by
  obtain ⟨complete, word⟩ := tokens_eq_some_iff.1 h.word
  have starts : e.start '.' = ([], .point) := by cases e <;> rfl
  have ends : e.step (e.scan .between s.toList).2 '.' =
      ((e.scan .between s.toList).2.pending, .point) := by
    have outside : e.inWord '.' = false := rfl
    cases state : (e.scan .between s.toList).2 with
    | between => exact starts
    | escapeLetter | word =>
      simp [Engine.step, outside, isQuote, Engine.leave, starts, LexState.pending]
    | number part =>
      -- A number would be the last of the tokens.
      rw [state, LexState.pending] at word
      have last := congrArg List.getLast? word
      simp at last
    | behind q kind =>
      have other : '.' ≠ q.quote := by
        intro quote
        rw [state, LexState.isComplete, ← quote] at complete
        cases complete
      simp [other, Engine.leave, starts, LexState.pending]
    | point | operator _ | inside _ _ | escaped _ _ | lost =>
      simp [state, LexState.isComplete] at complete
  obtain ⟨c, cs, whole⟩ := List.exists_cons_of_ne_nil (l := t.toList) (by simpa using filled)
  have digit : c.isDigit = false := first c (by simp [whole])
  have next : e.step .point c = (.symbol ['.'] :: (e.start c).1, (e.start c).2) := by
    simp [Engine.step, digit, Engine.leave, LexState.pending]
  have point : ".".toList = ['.'] := rfl
  rw [Engine.tokens, Engine.tokens, String.toList_append, String.toList_append, point,
    List.append_assoc, scan_append, List.singleton_append, scan_cons, ends, whole, scan_cons, next,
    scan_cons, step_between]
  have cut (more : List TokenKind) : (e.scan .between s.toList).1 ++
      ((e.scan .between s.toList).2.pending ++ more) = .word :: more := by
    rw [← List.append_assoc, word]
    rfl
  split
  · simp [cut]
  · rfl

/-- The kinds of the tokens of names separated by points. -/
def dottedKinds (n : ℕ) : List TokenKind := (List.replicate n .word).intersperse (.symbol ['.'])

theorem tokens_path {p : Path} (h : ∀ n ∈ p, IsName e (n.render e)) :
    e.tokens (Path.render e p) = some (dottedKinds p.length) := by
  induction p with
  | nil => rfl
  | cons n p ih =>
    have rest := ih fun m hm => h m (by simp [hm])
    cases p with
    | nil => simpa [Path.render, Text.joined, dottedKinds] using (h n (by simp)).word
    | cons m p =>
      have whole : Path.render e (n :: m :: p) = n.render e ++ "." ++ Path.render e (m :: p) := by
        simp [Path.render, Text.joined, String.append_assoc]
      have next := h m (by simp)
      have filled : (m.render e).toList ≠ [] := by
        intro empty
        have none := next.word
        rw [String.toList_eq_nil_iff.1 empty] at none
        cases none
      have front : (Path.render e (m :: p)).toList.head? = (m.render e).toList.head? := by
        rw [Path.render, List.map_cons, Text.toList_joined_cons,
          List.head?_append_of_ne_nil _ filled]
      have some : Path.render e (m :: p) ≠ "" := by
        intro empty
        rw [empty] at front
        exact filled (List.head?_eq_none_iff.1 front.symm)
      rw [whole, (h n (by simp)).dotted (front ▸ next.first) some, rest]
      rfl

/-- Paths of one length have one shape. -/
theorem SameTokens.path {p p' : Path} (same : p.length = p'.length)
    (h : ∀ n ∈ p, IsName e (n.render e)) (h' : ∀ n ∈ p', IsName e (n.render e)) :
    SameTokens e (Path.render e p) (Path.render e p') :=
  ⟨_, tokens_path h, by rw [same]; exact tokens_path h'⟩

theorem isName_given (he : e ≠ .clickhouse) (i : Ident) : IsName e (Name.render e (.given i)) := by
  refine ⟨tokens_quote he i, ?_⟩
  have enclosed (cs : List Char) :
      ∀ c ∈ (String.ofList (Ident.enclosed '"' cs)).toList.head?, c.isDigit = false := by
    rw [String.toList_ofList]
    rintro _ ⟨⟩
    rfl
  have bare (allowed : e = .postgresql ∨ e = .sqlite) :
      ∀ c ∈ (i.quote e).toList.head?, c.isDigit = false := by
    cases needed : Ident.needsQuotes e.reserved i.name with
    | true =>
      rw [Ident.quote_of_needsQuotes allowed needed, (Ident.quoting_of_bareAllowed allowed).1]
      exact enclosed _
    | false =>
      rw [Ident.quote_of_not_needsQuotes allowed needed]
      obtain ⟨_, body, plain, whole⟩ := Ident.needsQuotes_eq_false_iff.1 needed
      have head : i.name.toList.head? = body.head? := by
        obtain ⟨c, cs, rfl⟩ := List.exists_cons_of_ne_nil plain.nonempty
        rcases whole with whole | whole <;> simp [whole]
      rw [head]
      exact fun c hc => (plain.first c hc).1
  cases e with
  | clickhouse => exact absurd rfl he
  | trino => exact enclosed _
  | postgresql => exact bare (.inl rfl)
  | sqlite => exact bare (.inr rfl)

end Names

section Literals

variable {e : Engine}

theorem SameTokens.text (e : Engine) (s t : String) :
    SameTokens e (Literal.quoteText e s) (Literal.quoteText e t) :=
  ⟨_, tokens_quoteText e s, tokens_quoteText e t⟩

/-- Every literal can be read. -/
theorem SameTokens.literal (he : e ≠ .clickhouse) (l : Literal) :
    SameTokens e (l.render e) (l.render e) := by
  have moment (function keyword text : String) (hk : e.opens (keyword ++ " ") = true) :
      SameTokens e (Literal.renderMoment e function keyword text)
        (Literal.renderMoment e function keyword text) := by
    cases e with
    | clickhouse => exact absurd rfl he
    | sqlite => exact .text _ _ _
    | postgresql | trino => exact (SameTokens.text _ _ _).opened hk
  cases l with
  | null => cases e <;> exact .refl rfl
  | bool b => cases e <;> cases b <;> exact .refl rfl
  | int i =>
    obtain ⟨ks, hks⟩ := tokens_int e i
    exact ⟨ks, hks, hks⟩
  | float x finite =>
    obtain ⟨ks, hks⟩ := tokens_float e finite
    exact ⟨ks, hks, hks⟩
  | datetime t => exact moment _ _ _ (by cases e <;> rfl)
  | date d => exact moment _ _ _ (by cases e <;> rfl)
  | text s _ => exact .text _ _ _

end Literals

section Expressions

variable {e : Engine} {a b x y a' b' : Expr} {xs ys : List Expr} {bs bs' : List (Expr × Expr)}

/-- Two expressions whose texts have one shape. -/
def SameShape (e : Engine) (x y : Expr) : Prop := SameTokens e (x.render e) (y.render e)

namespace SameShape

theorem literal (he : e ≠ .clickhouse) (l : Literal) : SameShape e (.literal l) (.literal l) :=
  SameTokens.literal he l

theorem text {s t : String} (hs : '\x00' ∉ s.toList) (ht : '\x00' ∉ t.toList) :
    SameShape e (.literal (.text s hs)) (.literal (.text t ht)) := SameTokens.text e s t

theorem decimal (n : ℕ) : SameShape e (.decimal n) (.decimal n) := by
  have number : IsNumber e .fraction (natDigits n ++ '.' :: ['0']) :=
    .fraction (allDigits_natDigits n) (natDigits_ne_nil n) (allDigits_zeros 1)
  have written : (Expr.decimal n).render e = String.ofList (natDigits n ++ '.' :: ['0']) := by
    have digits : toString n = String.ofList (natDigits n) := Nat.repr_eq_ofList_toDigits
    simp [Expr.render, digits, String.ofList_append]
  rw [SameShape, written]
  exact .refl (Option.isSome_iff_exists.2 ⟨_, number.tokens rfl⟩)

theorem name {p p' : Path} (same : p.length = p'.length) (h : ∀ n ∈ p, IsName e (n.render e))
    (h' : ∀ n ∈ p', IsName e (n.render e)) : SameShape e (.name p) (.name p') :=
  SameTokens.path same h h'

/-- A field of a relation, both by names that the program makes up. -/
theorem field {n n' column : String} (h : IsName e n) (h' : IsName e n') (hc : IsName e column) :
    SameShape e (.name [.bare n, .bare column]) (.name [.bare n', .bare column]) := by
  refine name rfl ?_ ?_
  · simpa using ⟨h, hc⟩
  · simpa using ⟨h', hc⟩

theorem paren (h : SameShape e x y) : SameShape e (.paren x) (.paren y) :=
  (SameTokens.opened (g := "(") (by cases e <;> rfl) h).closed (by cases e <;> rfl)

theorem binary (op : Operator) (ha : SameShape e a a') (hb : SameShape e b b') :
    SameShape e (.binary op a b) (.binary op a' b') := by
  have written (x y : Expr) :
      (Expr.binary op x y).render e = x.render e ++ (" " ++ op.symbol ++ " ") ++ y.render e := by
    simp [Expr.render, String.append_assoc]
  rw [SameShape, written, written]
  exact ha.between (by cases e <;> cases op <;> rfl) hb

/-- A chain of parts that each have one shape. -/
theorem chain (op : Operator) (ha : SameShape e a a') (h : List.Forall₂ (SameShape e) xs ys) :
    SameShape e (Expr.chain op a xs) (Expr.chain op a' ys) := by
  induction h generalizing a a' with
  | nil => exact ha
  | cons hx _ ih => exact ih (binary op ha hx)

theorem cast {t : String} (h : SameShape e x y) (ht : e.closes (" AS " ++ t ++ ")") = true) :
    SameShape e (.cast x t) (.cast y t) := by
  have written (x : Expr) :
      (Expr.cast x t).render e = "CAST(" ++ x.render e ++ (" AS " ++ t ++ ")") := by
    simp [Expr.render, String.append_assoc]
  rw [SameShape, written, written]
  exact (h.opened (by cases e <;> rfl)).closed ht

theorem convert {t : String} (h : SameShape e x y) (ht : e.closes ("::" ++ t) = true) :
    SameShape e (.convert x t) (.convert y t) := by
  have written (x : Expr) : (Expr.convert x t).render e = x.render e ++ ("::" ++ t) := by
    simp [Expr.render, String.append_assoc]
  rw [SameShape, written, written]
  exact h.closed ht

theorem atUtc (h : SameShape e x y) : SameShape e (.atUtc x) (.atUtc y) :=
  SameTokens.closed h (by cases e <;> rfl)

theorem renderAll_eq (xs : List Expr) : Expr.renderAll e xs = xs.map (Expr.render e) := by
  induction xs with
  | nil => rfl
  | cons x xs ih => simp [Expr.renderAll, ih]

theorem all (h : List.Forall₂ (SameShape e) xs ys) :
    SameTokens e (Text.joined ", " (Expr.renderAll e xs))
      (Text.joined ", " (Expr.renderAll e ys)) := by
  rw [renderAll_eq, renderAll_eq]
  exact .joined (by cases e <;> rfl) (pairing_map h)

theorem call {f : String} (hf : e.opens (f ++ "(") = true)
    (h : List.Forall₂ (SameShape e) xs ys) : SameShape e (.call f xs) (.call f ys) :=
  ((all h).opened hf).closed (by cases e <;> rfl)

section Brackets

variable (he : e ≠ .sqlite)
include he

theorem array (h : List.Forall₂ (SameShape e) xs ys) : SameShape e (.array xs) (.array ys) := by
  cases e with
  | sqlite => exact absurd rfl he
  | _ => exact ((all h).opened rfl).closed rfl

theorem index (ha : SameShape e a a') (hb : SameShape e b b') :
    SameShape e (.index a b) (.index a' b') := by
  cases e with
  | sqlite => exact absurd rfl he
  | _ => exact (ha.between rfl hb).closed rfl

end Brackets

/-- Two branches of a case expression whose two sides have the same shapes. -/
def Branches (e : Engine) (p q : Expr × Expr) : Prop := SameShape e p.1 q.1 ∧ SameShape e p.2 q.2

theorem Branches.render {p q : Expr × Expr} (h : Branches e p q) :
    SameTokens e (Expr.renderBranch e p) (Expr.renderBranch e q) := by
  obtain ⟨_, _⟩ := p
  obtain ⟨_, _⟩ := q
  refine (SameTokens.opened (g := "WHEN ") ?_ h.1).between ?_ h.2 <;> cases e <;> rfl

theorem branches (h : List.Forall₂ (Branches e) bs bs') :
    SameTokens e (Text.joined " " (Expr.renderBranches e bs))
      (Text.joined " " (Expr.renderBranches e bs')) := by
  have written (bs : List (Expr × Expr)) :
      Expr.renderBranches e bs = bs.map (Expr.renderBranch e) := by
    induction bs with
    | nil => rfl
    | cons b bs ih => simp [Expr.renderBranches, ih]
  rw [written, written]
  exact .joined (by cases e <;> rfl) (pairing_map (h.imp fun _ _ => Branches.render))

theorem caseWhen (h : List.Forall₂ (Branches e) bs bs') (ho : SameShape e x y) :
    SameShape e (.caseWhen bs x) (.caseWhen bs' y) :=
  (((branches h).opened (by cases e <;> rfl)).between (by cases e <;> rfl) ho).closed
    (by cases e <;> rfl)

theorem caseOf (hs : SameShape e x y) (h : List.Forall₂ (Branches e) bs bs') :
    SameShape e (.caseOf x bs) (.caseOf y bs') :=
  ((hs.opened (by cases e <;> rfl)).between (by cases e <;> rfl) (branches h)).closed
    (by cases e <;> rfl)

end SameShape
end Expressions

section Statements

variable {e : Engine}

theorem SameTokens.column {c c' : ColumnDefinition} (he : e ≠ .clickhouse) (type : c.type = c'.type)
    (notNull : c.notNull = c'.notNull)
    (hc : e.closes (" " ++ c.type ++ (if c.notNull then " NOT NULL" else "")) = true) :
    SameTokens e (c.render e) (c'.render e) := by
  have written (c : ColumnDefinition) : c.render e =
      c.name.quote e ++ (" " ++ c.type ++ (if c.notNull then " NOT NULL" else "")) := by
    simp [ColumnDefinition.render, String.append_assoc]
  have names : SameTokens e (c.name.quote e) (c'.name.quote e) :=
    ⟨_, tokens_quote he _, tokens_quote he _⟩
  rw [written, written, ← type, ← notNull]
  exact names.closed hc

theorem SameTokens.createTable {table table' : Path} {columns columns' : List ColumnDefinition}
    {storage : Storage} (ht : SameTokens e (Path.render e table) (Path.render e table'))
    (hc : List.Forall₂ (fun c c' => SameTokens e (c.render e) (c'.render e)) columns columns')
    (hs : e.closes (storage.render e) = true) :
    SameTokens e ((Statement.createTable table columns storage).render e)
      ((Statement.createTable table' columns' storage).render e) := by
  have list : SameTokens e (Text.joined ", " (columns.map (ColumnDefinition.render e)))
      (Text.joined ", " (columns'.map (ColumnDefinition.render e))) :=
    .joined (by cases e <;> rfl) (pairing_map hc)
  have front := (ht.opened (g := "CREATE TABLE IF NOT EXISTS ") (by cases e <;> rfl)).between
    (g := " (") (by cases e <;> rfl) list
  exact (front.closed (by cases e <;> rfl)).closed hs

theorem SameTokens.int (e : Engine) (i : ℤ) : SameTokens e (toString i) (toString i) := by
  obtain ⟨ks, hks⟩ := tokens_int e i
  exact ⟨ks, hks, hks⟩

theorem SameTokens.counter (limit : ℤ) :
    SameTokens e ((Definition.counter limit).render e) ((Definition.counter limit).render e) := by
  have opens : e.opens "seq(n) AS (SELECT 1 UNION ALL SELECT n + 1 FROM seq WHERE n < " = true := by
    cases e <;> rfl
  exact ((SameTokens.int e limit).opened opens).closed (by cases e <;> rfl)

theorem SameTokens.arrayRow {name name' : String} {xs ys : List Expr} (he : e ≠ .sqlite)
    (hn : SameTokens e name name') (h : List.Forall₂ (SameShape e) xs ys) :
    SameTokens e ((Definition.arrayRow name xs).render e)
      ((Definition.arrayRow name' ys).render e) :=
  (hn.between (by cases e <;> rfl) (SameShape.array he h)).closed (by cases e <;> rfl)

theorem SameTokens.jsonRow {name name' : String} {x y : Expr} (hn : SameTokens e name name')
    (h : SameShape e x y) :
    SameTokens e ((Definition.jsonRow name x).render e) ((Definition.jsonRow name' y).render e) :=
  (hn.between (by cases e <;> rfl) h).closed (by cases e <;> rfl)

/-- Two inserts whose parts have the same shapes. -/
structure Sql.Insert.SameParts (e : Engine) (i j : Insert) : Prop where
  table : SameTokens e (Path.render e i.table) (Path.render e j.table)
  columns : List.Forall₂ (SameTokens e) (i.columns.map (Ident.quote e))
    (j.columns.map (Ident.quote e))
  definitions : List.Forall₂ (SameTokens e) (i.definitions.map (Definition.render e))
    (j.definitions.map (Definition.render e))
  sources : List.Forall₂ (SameTokens e) (i.sources.map Source.render) (j.sources.map Source.render)
  values : List.Forall₂ (SameShape e) i.values j.values
  condition : List.Forall₂ (SameShape e) i.condition.toList j.condition.toList

namespace Sql.Insert.SameParts

variable {i j : Insert}

/-- The query of an insert. -/
theorem select (h : i.SameParts e j) :
    SameTokens e
      ("SELECT " ++ Text.joined ", " (i.values.map (Expr.render e)) ++ " FROM " ++
        renderSources i.sources ++ whereClause e i.condition)
      ("SELECT " ++ Text.joined ", " (j.values.map (Expr.render e)) ++ " FROM " ++
        renderSources j.sources ++ whereClause e j.condition) := by
  have values := SameShape.all h.values
  rw [SameShape.renderAll_eq, SameShape.renderAll_eq] at values
  have sources : SameTokens e (renderSources i.sources) (renderSources j.sources) :=
    .joined (by cases e <;> rfl) h.sources
  have front := (values.opened (g := "SELECT ") (by cases e <;> rfl)).between
    (g := " FROM ") (by cases e <;> rfl) sources
  have condition := h.condition
  cases hi : i.condition with
  | none =>
    rw [hi] at condition
    cases hj : j.condition with
    | none => exact front.closed (by cases e <;> rfl)
    | some y => simp [hj] at condition
  | some x =>
    rw [hi] at condition
    cases hj : j.condition with
    | none => simp [hj] at condition
    | some y =>
      have both : SameShape e x y := by simpa [hj] using condition
      have whole := front.between (g := " WHERE ") (by cases e <;> rfl) both
      simpa [whereClause, String.append_assoc] using whole

/-- What an insert goes into. -/
theorem target (h : i.SameParts e j) :
    SameTokens e ("INSERT INTO " ++ Path.render e i.table ++ " (" ++ identList e i.columns)
      ("INSERT INTO " ++ Path.render e j.table ++ " (" ++ identList e j.columns) :=
  (h.table.opened (by cases e <;> rfl)).between (by cases e <;> rfl)
    (.joined (by cases e <;> rfl) h.columns)

/-- The definitions before an insert or its query. -/
theorem definitionList (h : i.SameParts e j) {keyword : String} (hk : e.opens keyword = true) :
    SameTokens e (keyword ++ Text.joined ", " (i.definitions.map (Definition.render e)))
      (keyword ++ Text.joined ", " (j.definitions.map (Definition.render e))) :=
  (SameTokens.joined (by cases e <;> rfl) h.definitions).opened hk

theorem render (h : i.SameParts e j) : SameTokens e (i.render e) (j.render e) := by
  have same : i.definitions.isEmpty = j.definitions.isEmpty := by
    have lengths := h.definitions.length_eq
    simp only [List.length_map] at lengths
    rw [Bool.eq_iff_iff, List.isEmpty_iff_length_eq_zero, List.isEmpty_iff_length_eq_zero, lengths]
  unfold Insert.render
  rw [← same]
  by_cases none : i.definitions.isEmpty = true
  · have whole := h.target.between (g := ") ") (by cases e <;> rfl) h.select
    simp only [none, if_true]
    cases e <;> simpa [String.append_assoc] using whole
  · have keyword : e.opens (if e = .sqlite then "WITH RECURSIVE " else "WITH ") = true := by
      cases e <;> rfl
    have definitions := h.definitionList keyword
    have before := (definitions.between (g := " ") (by cases e <;> rfl) h.target).between
      (g := ") ") (by cases e <;> rfl) h.select
    have inside := h.target.between (g := ") ") (by cases e <;> rfl)
      (definitions.between (g := " ") (by cases e <;> rfl) h.select)
    simp only [none]
    cases e with
    | postgresql | sqlite => simpa [String.append_assoc] using before
    | clickhouse | trino => simpa [String.append_assoc] using inside

end Sql.Insert.SameParts
end Statements
end SyntheticRows
