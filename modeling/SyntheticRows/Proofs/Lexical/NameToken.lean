import SyntheticRows.Proofs.Lexical.Quoting
import SyntheticRows.Sql.Function

/-!
# Name tokens

How each engine reads a name in a statement. A name that is always quoted is read back where
backslashes are ordinary characters. One that is quoted only if needed is read back unless a
percent sign was doubled in it, or it was written bare together with a line feed at its end.
-/
namespace SyntheticRows
open Sql

/-- The characters of bare words; engines take those outside ASCII for letters. -/
def isWordChar (c : Char) : Bool := c.isAlphanum || c = '_' || c = '$' || 128 ≤ c.toNat

namespace Engine

def nameQuoting : Engine → Quoting
  | .clickhouse => { quote := '\x60', escapes := true, meaning := clickhouseMeaning }
  | .postgresql | .sqlite | .trino => { quote := '"' }

/-- The quoted name at the front, and what follows it. -/
def readQuotedName (e : Engine) : List Char → Option (List Char × List Char)
  | [] => none
  | c :: rest => if c = e.nameQuoting.quote then e.nameQuoting.content rest else none

/-- The words that an engine keeps for itself. -/
def reserved : Engine → List String
  | .postgresql => Ident.reservedInPostgres
  | .sqlite => Ident.reservedInSqlite
  | .clickhouse | .trino => []

/-- The bare name at the front, in lower case, and what follows it. A word that starts like a
number or a parameter, or that is reserved, is no name. -/
def readBareName (e : Engine) (cs : List Char) : Option (List Char × List Char) :=
  let word := cs.takeWhile isWordChar
  let folded := word.map Char.toLower
  match word with
  | [] => none
  | c :: _ =>
    if c.isDigit || c = '$' || e.reserved.contains (String.ofList folded) then none
    else some (folded, cs.dropWhile isWordChar)

def readName (e : Engine) (cs : List Char) : Option (List Char × List Char) :=
  (e.readQuotedName cs).or (e.readBareName cs)

/-- The text is one name token, blanks aside, and the token stands for the name. -/
def Names (e : Engine) (text name : String) : Prop :=
  ∃ rest, e.readName text.toList = some (name.toList, rest) ∧ rest.all Char.isWhitespace = true

theorem readName_enclosed {e : Engine} {cs : List Char} {q : Char} (hq : q = e.nameQuoting.quote)
    (he : e.nameQuoting.escapes = false) :
    e.readName (Ident.enclosed q cs) = some (cs, []) := by
  subst hq
  have inside : e.nameQuoting.content (Ident.doubled e.nameQuoting.quote cs ++
      [e.nameQuoting.quote]) = some (cs, []) := by
    refine Quoting.content_doubled (by simp) fun h => ?_
    simp [he] at h
  simp [readName, readQuotedName, Ident.enclosed, inside]

theorem quote_not_escape (e : Engine) : e.nameQuoting.quote ≠ '\\' := by
  cases e <;> decide

end Engine

theorem Dialect.ident_of_text {e : Engine} {name : String} (hs : name ≠ "")
    (hn : '\x00' ∉ name.toList) : (Dialect.of e).ident (.text name) = .ok ⟨name, hs, hn⟩ := by
  simp [ident, speaking, engine, Ident.ofValue, hs, hn, bind, Except.bind]

namespace Sql.Ident

variable {e : Engine} {name : String} {cs t body : List Char}

/-- A name that the engine always quotes is read back, whatever follows, unless backslashes escape
and it holds one. -/
theorem readQuotedName_enclosed_iff (ht : t.head? ≠ some e.nameQuoting.quote) :
    e.readQuotedName (enclosed e.nameQuoting.quote cs ++ t) = some (cs, t) ↔
      (e.nameQuoting.escapes = true → '\\' ∉ cs) := by
  rw [← Quoting.content_doubled_iff ht e.quote_not_escape]
  simp [enclosed, Engine.readQuotedName]

/-- ClickHouse and Trino quote every name. Its written form is read as one token that is the name,
and that ends where the written form does, except that ClickHouse reads a backslash in a name as the
start of an escape. -/
theorem readsBack_iff_of_quoted (he : e = .clickhouse ∨ e = .trino) (hs : name ≠ "")
    (hn : '\x00' ∉ name.toList) (ht : t.head? ≠ some e.nameQuoting.quote) :
    ∃ i, (Dialect.of e).ident (.text name) = .ok i ∧
      (e.readQuotedName ((i.quote e).toList ++ t) = some (name.toList, t) ↔
        (e = .clickhouse → '\\' ∉ name.toList)) := by
  refine ⟨_, Dialect.ident_of_text hs hn, ?_⟩
  have written : (quote e ⟨name, hs, hn⟩).toList = enclosed e.nameQuoting.quote name.toList := by
    rcases he with rfl | rfl <;> simp [quote, written, Engine.nameQuoting]
  have escapes : e.nameQuoting.escapes = true ↔ e = .clickhouse := by
    rcases he with rfl | rfl <;> simp [Engine.nameQuoting]
  rw [written, readQuotedName_enclosed_iff ht, escapes]

/-- A back-quote inside. -/
theorem readsBack_of_backQuote : ".id".toList.head? ≠ some '\x60' ∧
    ∃ i, (Dialect.of .clickhouse).ident (.text "a\x60b") = .ok i ∧
      Engine.readQuotedName .clickhouse ((i.quote .clickhouse).toList ++ ".id".toList) =
        some ("a\x60b".toList, ".id".toList) := by
  refine ⟨by decide, ?_⟩
  obtain ⟨i, hi, reads⟩ := readsBack_iff_of_quoted (e := .clickhouse)
    (t := ".id".toList) (.inl rfl) (show "a\x60b" ≠ "" by decide) (by decide) (by decide)
  exact ⟨i, hi, reads.2 fun _ => by decide⟩

/-- ClickHouse takes the quote behind a backslash for a part of the name, which then goes on up to
the next quote. -/
theorem swallowed_behind_backslash : ¬∀ (e : Engine) (name : String) (t : List Char),
    e = .clickhouse ∨ e = .trino → name ≠ "" → '\x00' ∉ name.toList →
    t.head? ≠ some e.nameQuoting.quote → ∃ i, (Dialect.of e).ident (.text name) = .ok i ∧
      e.readQuotedName ((i.quote e).toList ++ t) = some (name.toList, t) := by
  intro h
  obtain ⟨i, hi, reads⟩ := h .clickhouse "a\\" ".\x60b\x60".toList (.inl rfl) (by decide)
    (by decide) (by decide)
  have named : i = ⟨"a\\", by decide, by decide⟩ :=
    Except.ok.inj (hi.symm.trans (Dialect.ident_of_text _ _))
  have longer : Engine.readQuotedName .clickhouse
      ((i.quote .clickhouse).toList ++ ".\x60b\x60".toList) =
        some ("a\x60.".toList, "b\x60".toList) := by
    rw [named]
    decide
  rw [longer] at reads
  exact absurd reads (by decide)

/-- The characters of a name that can stand bare. -/
structure IsPlain (body : List Char) : Prop where
  nonempty : body ≠ []
  legal : ∀ c ∈ body, isLegal c = true ∧ isUpper c = false
  first : ∀ c ∈ body.head?, c.isDigit = false ∧ c ≠ '$'

theorem IsPlain.not_mem (h : IsPlain body) {c : Char} (hc : isLegal c = false) : c ∉ body :=
  fun member => by simpa [hc] using (h.legal c member).1

theorem feed_not_legal : isLegal '\n' = false := by decide

theorem allLegal_iff : allLegal cs = true ↔ ∃ body, body ≠ [] ∧ (∀ c ∈ body, isLegal c = true) ∧
    (cs = body ∨ cs = body ++ ['\n']) := by
  constructor
  · intro h
    unfold allLegal at h
    by_cases last : cs.getLast? = some '\n'
    · refine ⟨cs.dropLast, ?_⟩
      have whole : cs.dropLast ++ ['\n'] = cs := List.dropLast_append_getLast? _ last
      simpa [last, whole] using h
    · exact ⟨cs, by simpa [last] using h⟩
  · rintro ⟨body, nonempty, legal, rfl | rfl⟩
    · have last : cs.getLast? ≠ some '\n' := by
        intro h
        have := legal _ (List.mem_of_getLast? h)
        simp [feed_not_legal] at this
      simpa [allLegal, last, nonempty] using legal
    · simpa [allLegal, nonempty] using legal

/-- The names that are written bare. -/
theorem needsQuotes_eq_false_iff {words : List String} :
    needsQuotes words name = false ↔ name ∉ words ∧ ∃ body, IsPlain body ∧
      (name.toList = body ∨ name.toList = body ++ ['\n']) := by
  have head {body : List Char} (nonempty : body ≠ [])
      (h : name.toList = body ∨ name.toList = body ++ ['\n']) :
      name.toList.head? = body.head? := by
    rcases h with h | h <;> cases body <;> simp_all
  simp only [needsQuotes, Bool.or_eq_false_iff, Bool.not_eq_false', and_assoc,
    List.contains_eq_mem, decide_eq_false_iff_not, List.any_eq_false, allLegal_iff]
  refine and_congr_right fun _ => ?_
  constructor
  · rintro ⟨⟨body, nonempty, legal, shape⟩, lower, first⟩
    refine ⟨body, ⟨nonempty, fun c hc => ⟨legal c hc, ?_⟩, ?_⟩, shape⟩
    · have inside : c ∈ name.toList := by rcases shape with h | h <;> simp [h, hc]
      simpa using lower c inside
    · intro c hc
      rw [← head nonempty shape] at hc
      obtain ⟨rest, whole⟩ : ∃ rest, name.toList = c :: rest := List.head?_eq_some_iff.1 hc
      simpa [whole] using first
  · rintro ⟨body, plain, shape⟩
    refine ⟨⟨body, plain.nonempty, fun c hc => (plain.legal c hc).1, shape⟩, ?_, ?_⟩
    · intro c hc
      have inside : c ∈ body ∨ c = '\n' := by rcases shape with h | h <;> simp_all
      rcases inside with hc | rfl
      · simp [(plain.legal c hc).2]
      · decide
    · obtain ⟨c, tail, rfl⟩ := List.exists_cons_of_ne_nil plain.nonempty
      obtain ⟨rest, whole⟩ : ∃ rest, name.toList = c :: rest :=
        List.head?_eq_some_iff.1 (head plain.nonempty shape)
      simpa [whole] using plain.first c rfl

theorem isWordChar_of_isLegal {c : Char} (h : isLegal c = true) : isWordChar c = true := by
  simp only [isLegal, isWordChar, Bool.or_eq_true, decide_eq_true_eq] at h ⊢
  rcases h with (((((h | h) | h) | rfl) | rfl) | rfl) | rfl
  · simp [h]
  · simp [h]
  · simp [h]
  all_goals decide

theorem toLower_of_not_isUpper {c : Char} (h : isUpper c = false) : c.toLower = c := by
  have upper : c.isUpper = false := (Bool.or_eq_false_iff.1 (Bool.or_eq_false_iff.1 h).1).1
  exact dif_neg (of_decide_eq_false upper)

/-- A plain word is read up to its end, and stays as it is in lower case. -/
theorem readBareName_of_isPlain (h : IsPlain body) (ht : ∀ c ∈ t.head?, isWordChar c = false) :
    e.readBareName (body ++ t) =
      if String.ofList body ∈ e.reserved then none else some (body, t) := by
  have inside : ∀ c ∈ body, isWordChar c = true :=
    fun c hc => isWordChar_of_isLegal (h.legal c hc).1
  have outside : t.takeWhile isWordChar = [] ∧ t.dropWhile isWordChar = t := by
    cases t with
    | nil => simp
    | cons c t => simp [ht c rfl]
  have word : (body ++ t).takeWhile isWordChar = body := by
    rw [List.takeWhile_append_of_pos inside, outside.1, List.append_nil]
  have left : (body ++ t).dropWhile isWordChar = t := by
    rw [List.dropWhile_append_of_pos inside, outside.2]
  have folded : body.map Char.toLower = body := by
    refine (List.map_congr_left fun c hc => ?_).trans body.map_id
    exact toLower_of_not_isUpper (h.legal c hc).2
  obtain ⟨c, tail, rfl⟩ := List.exists_cons_of_ne_nil h.nonempty
  obtain ⟨digit, dollar⟩ := h.first c rfl
  simp only [Engine.readBareName, word, left, folded]
  simp [digit, dollar]

theorem doubled_eq_self_iff {q : Char} : doubled q cs = cs ↔ q ∉ cs := by
  constructor
  · intro h
    have length := congrArg List.length h
    rw [length_doubled] at length
    exact List.count_eq_zero.1 (by omega)
  · intro h
    induction cs with
    | nil => rfl
    | cons c cs ih =>
      have other : c ≠ q := fun hc => h (by simp [hc])
      rw [doubled_cons, if_neg other, ih fun hc => h (by simp [hc])]
      rfl

theorem feed_not_reserved : ∀ word ∈ e.reserved, '\n' ∉ word.toList := by
  cases e <;> decide +kernel

/-- A name that the engine would read otherwise is quoted, and reads as what stands between the
quotes. -/
theorem names_enclosed_iff (he : e.nameQuoting.escapes = false) :
    e.Names (String.ofList (enclosed e.nameQuoting.quote cs)) name ↔ cs = name.toList := by
  simp [Engine.Names, Engine.readName_enclosed rfl he, String.toList_ofList]

theorem readName_of_isPlain (h : IsPlain body) (hq : e.nameQuoting.quote = '"')
    (ht : ∀ c ∈ t.head?, isWordChar c = false) :
    e.readName (body ++ t) = if String.ofList body ∈ e.reserved then none else some (body, t) := by
  have unquoted : e.readQuotedName (body ++ t) = none := by
    obtain ⟨c, tail, rfl⟩ := List.exists_cons_of_ne_nil h.nonempty
    have quote : c ≠ '"' := by
      rintro rfl
      exact h.not_mem (c := '"') (by decide) (by simp)
    simp [Engine.readQuotedName, hq, quote]
  rw [Engine.readName, unquoted, readBareName_of_isPlain h ht]
  rfl

section BareAllowed

variable {i : Ident} (he : e = .postgresql ∨ e = .sqlite)
include he

theorem quoting_of_bareAllowed :
    e.nameQuoting.quote = '"' ∧ e.nameQuoting.escapes = false := by
  rcases he with rfl | rfl <;> exact ⟨rfl, rfl⟩

theorem quote_of_needsQuotes (h : needsQuotes e.reserved i.name = true) :
    i.quote e = String.ofList (enclosed e.nameQuoting.quote
      (if e = .postgresql then doubled '%' i.name.toList else i.name.toList)) := by
  rcases he with rfl | rfl
  · simp_all [quote, written, Engine.nameQuoting, Engine.reserved]
  · simp_all [quote, written, Engine.nameQuoting, Engine.reserved]

theorem quote_of_not_needsQuotes (h : needsQuotes e.reserved i.name = false) :
    i.quote e = i.name := by
  rcases he with rfl | rfl
  · simp_all [quote, written, Engine.reserved]
  · simp_all [quote, written, Engine.reserved]

theorem names_of_isPlain (h : IsPlain name.toList) (unreserved : name ∉ e.reserved) :
    e.Names name name := by
  have alone : String.ofList name.toList ∉ e.reserved := by rwa [String.ofList_toList]
  have read := readName_of_isPlain h (quoting_of_bareAllowed he).1 (t := []) (by simp)
  rw [List.append_nil, if_neg alone] at read
  exact ⟨[], read, rfl⟩

/-- The token ends before the line feed. -/
theorem not_names_of_feed (h : IsPlain body) (fed : name.toList = body ++ ['\n']) :
    ¬e.Names name name := by
  rintro ⟨rest, read, _⟩
  have stops : isWordChar '\n' = false := by decide
  rw [fed, readName_of_isPlain h (quoting_of_bareAllowed he).1 (by simp [stops])] at read
  split at read
  · cases read
  · simp at read

end BareAllowed

/-- PostgreSQL and SQLite quote a name only if needed. Its written form is read as one token that
stands for the name, except that PostgreSQL reads two percent signs where one was doubled, and that
a line feed behind a word that could stand bare is left unquoted and so is no part of the token. -/
theorem names_iff_of_bareAllowed (he : e = .postgresql ∨ e = .sqlite) (hs : name ≠ "")
    (hn : '\x00' ∉ name.toList) : ∃ i, (Dialect.of e).ident (.text name) = .ok i ∧
      (e.Names (i.quote e) name ↔ ¬(e = .postgresql ∧ '%' ∈ name.toList) ∧
        ¬∃ body, IsPlain body ∧ name.toList = body ++ ['\n']) := by
  refine ⟨_, Dialect.ident_of_text hs hn, ?_⟩
  cases hq : needsQuotes e.reserved name with
  | true =>
    have unfed : ¬∃ body, IsPlain body ∧ name.toList = body ++ ['\n'] := by
      rintro ⟨body, plain, fed⟩
      have unreserved : name ∉ e.reserved :=
        fun reserved => feed_not_reserved name reserved (by simp [fed])
      have bare := needsQuotes_eq_false_iff.2 ⟨unreserved, body, plain, .inr fed⟩
      rw [hq] at bare
      cases bare
    rw [quote_of_needsQuotes he hq, names_enclosed_iff (quoting_of_bareAllowed he).2]
    simp only [unfed, not_false_eq_true, and_true]
    by_cases pg : e = .postgresql <;> simp [pg, doubled_eq_self_iff]
  | false =>
    obtain ⟨unreserved, body, plain, whole⟩ := needsQuotes_eq_false_iff.1 hq
    have percent : '%' ∉ name.toList := by
      have absent := plain.not_mem (c := '%') (by decide)
      rcases whole with h | h <;> simp [h, absent]
    rw [quote_of_not_needsQuotes he hq]
    simp only [percent, and_false, not_false_eq_true, true_and]
    rcases whole with rfl | fed
    · refine iff_of_true (names_of_isPlain he plain unreserved) ?_
      rintro ⟨body, _, fed⟩
      exact plain.not_mem feed_not_legal (by simp [fed])
    · exact iff_of_false (not_names_of_feed he plain fed) fun h => h ⟨body, plain, fed⟩

/-- A reserved word, and a name with a quote and a capital letter. -/
theorem names_of_quotedWords : (∃ i, (Dialect.of .sqlite).ident (.text "order") = .ok i ∧
    Engine.Names .sqlite (i.quote .sqlite) "order") ∧
    ∃ i, (Dialect.of .postgresql).ident (.text "the \"User\"") = .ok i ∧
      Engine.Names .postgresql (i.quote .postgresql) "the \"User\"" := by
  obtain ⟨i, hi, first⟩ := names_iff_of_bareAllowed (e := .sqlite) (.inr rfl)
    (show "order" ≠ "" by decide) (by decide)
  obtain ⟨j, hj, second⟩ := names_iff_of_bareAllowed (e := .postgresql) (.inl rfl)
    (show "the \"User\"" ≠ "" by decide) (by decide)
  have unfed {name : String} (h : name.toList.getLast? ≠ some '\n') :
      ¬∃ body, IsPlain body ∧ name.toList = body ++ ['\n'] := by
    rintro ⟨body, _, hb⟩
    simp [hb] at h
  exact ⟨⟨i, hi, first.2 ⟨by decide, unfed (by decide)⟩⟩,
    ⟨j, hj, second.2 ⟨by decide, unfed (by decide)⟩⟩⟩

/-- PostgreSQL reads both of the percent signs that are written for one. SQLite does not read the
line feed at the end of a bare word as a part of it. -/
theorem misread_percent_or_feed : (∃ i, (Dialect.of .postgresql).ident (.text "50%") = .ok i ∧
    ¬Engine.Names .postgresql (i.quote .postgresql) "50%") ∧
    ∃ i, (Dialect.of .sqlite).ident (.text "users\n") = .ok i ∧
      ¬Engine.Names .sqlite (i.quote .sqlite) "users\n" := by
  constructor
  · refine ⟨⟨"50%", by decide, by decide⟩, rfl, ?_⟩
    rintro ⟨rest, read, _⟩
    have twice : Engine.readName .postgresql
        (quote .postgresql ⟨"50%", by decide, by decide⟩).toList = some ("50%%".toList, []) := by
      decide +kernel
    simp [twice] at read
  · refine ⟨⟨"users\n", by decide, by decide⟩, rfl, ?_⟩
    rintro ⟨rest, read, _⟩
    have cut : Engine.readName .sqlite
        (quote .sqlite ⟨"users\n", by decide, by decide⟩).toList =
          some ("users".toList, ['\n']) := by
      decide +kernel
    simp [cut] at read

end Sql.Ident
end SyntheticRows
