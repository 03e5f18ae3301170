import SyntheticRows.Proofs.Lexical.NameToken
import SyntheticRows.Proofs.Lexical.TextToken

/-!
# Tokens

A scanner for the text of statements. It goes through the characters once and gives the kind of
each token at its end. What the program never writes is not read: comments, parameters, texts with
a prefix other than PostgreSQL's letter of the escape form, and operators that touch.
-/
namespace SyntheticRows
open Sql

/-- The kinds of tokens. Quoted names are words like bare ones, and so are keywords. -/
inductive TokenKind where
  | word
  | text
  | number
  | symbol (characters : List Char)
  deriving DecidableEq, Repr

/-- The part of a number that was read last. -/
inductive NumberPart where
  | whole
  | fraction
  | mark
  | sign
  | exponent
  deriving DecidableEq, Repr

namespace NumberPart

/-- The part that a character belongs to, if it goes on with the number. -/
def next? (p : NumberPart) (c : Char) : Option NumberPart :=
  match p with
  | whole =>
    if c.isDigit then some whole else if c = '.' then some fraction
    else if c = 'e' ∨ c = 'E' then some mark else none
  | fraction =>
    if c.isDigit then some fraction else if c = 'e' ∨ c = 'E' then some mark else none
  | mark => if c.isDigit then some exponent else if c = '+' ∨ c = '-' then some sign else none
  | sign | exponent => if c.isDigit then some exponent else none

/-- Whether a number can end here. -/
def isComplete : NumberPart → Bool
  | whole | fraction | exponent => true
  | mark | sign => false

end NumberPart

/-- Where the scanner is in a text. -/
inductive LexState where
  | between
  /-- Behind a letter that may belong to PostgreSQL's escape form. -/
  | escapeLetter
  | word
  | number (part : NumberPart)
  | point
  | operator (characters : List Char)
  | inside (q : Quoting) (kind : TokenKind)
  | escaped (q : Quoting) (kind : TokenKind)
  /-- Behind a quote that ends the token unless another one follows. -/
  | behind (q : Quoting) (kind : TokenKind)
  | lost

def isQuote (c : Char) : Bool := c = '\'' || c = '"' || c = '\x60'

namespace LexState

/-- The token that ends if nothing goes on with it. -/
def pending : LexState → List TokenKind
  | escapeLetter | word => [.word]
  | number _ => [.number]
  | point => [.symbol ['.']]
  | operator characters => [.symbol characters]
  | behind _ kind => [kind]
  | between | inside .. | escaped .. | lost => []

/-- Whether an expression or a statement can end here. -/
def isComplete : LexState → Bool
  | between | escapeLetter | word => true
  | number part => part.isComplete
  | behind q _ => isQuote q.quote
  | point | operator _ | inside .. | escaped .. | lost => false

def isBetween : LexState → Bool
  | between => true
  | _ => false

end LexState

namespace Engine

/-- The characters of bare words; Trino has only those of ASCII, without the dollar sign. -/
def inWord (e : Engine) (c : Char) : Bool :=
  isWordChar c && (e ≠ .trino || c.toNat < 128 && c ≠ '$')

/-- The characters that are tokens by themselves. SQLite quotes names in brackets. -/
def separators (e : Engine) : List Char :=
  if e = .sqlite then ['(', ')', ',', ';'] else ['(', ')', '[', ']', ',', ';']

/-- The characters of operators. On SQLite and Trino a colon belongs to a parameter. -/
def operatorChars (e : Engine) : List Char :=
  ['+', '-', '*', '/', '<', '>', '=', '%', '&', '|', '!', '~'] ++
    if e = .postgresql ∨ e = .clickhouse then [':'] else []

/-- The operators of two characters. -/
def pairs : List (List Char) :=
  [['|', '|'], ['<', '='], ['>', '='], ['<', '>'], ['!', '='], ['-', '>'], [':', ':']]

/-- What the first character of a token, or one between tokens, leads to. -/
def start (e : Engine) (c : Char) : List TokenKind × LexState :=
  if c ∈ [' ', '\t', '\n', '\r'] then ([], .between)
  else if c = '\'' then ([], .inside e.textQuoting .text)
  else if c = e.nameQuoting.quote then ([], .inside e.nameQuoting .word)
  else if c.isDigit then ([], .number .whole)
  else if e = .postgresql ∧ (c = 'E' ∨ c = 'e') then ([], .escapeLetter)
  else if e.inWord c ∧ c ≠ '$' then ([], .word)
  else if c ∈ e.separators then ([.symbol [c]], .between)
  else if c = '.' then ([], .point)
  else if c ∈ e.operatorChars then ([], .operator [c])
  else ([], .lost)

/-- The token before a character ends, and the character starts anew. -/
def leave (e : Engine) (s : LexState) (c : Char) : List TokenKind × LexState :=
  (s.pending ++ (e.start c).1, (e.start c).2)

def step (e : Engine) (s : LexState) (c : Char) : List TokenKind × LexState :=
  match s with
  | .between => e.start c
  | .escapeLetter =>
    if c = '\'' then ([], .inside escapeForm .text)
    else if e.inWord c then ([], .word) else if isQuote c then ([], .lost) else e.leave s c
  | .word =>
    if e.inWord c then ([], .word) else if isQuote c then ([], .lost) else e.leave s c
  | .number part =>
    match part.next? c with
    | some next => ([], .number next)
    | none =>
      if part.isComplete && !e.inWord c && c ≠ '.' then e.leave s c else ([], .lost)
  | .point => if c.isDigit then ([], .number .fraction) else e.leave s c
  | .operator characters =>
    if characters ++ [c] ∈ pairs then ([], .operator (characters ++ [c]))
    else if c ∈ e.operatorChars ∨ characters = ['&'] ∧ isQuote c then ([], .lost)
    else e.leave s c
  | .inside q kind =>
    if c = q.quote then ([], .behind q kind)
    else if q.escapes = true ∧ c = '\\' then ([], .escaped q kind) else ([], s)
  | .escaped q kind => ([], .inside q kind)
  | .behind q kind => if c = q.quote then ([], .inside q kind) else e.leave s c
  | .lost => ([], .lost)

/-- The tokens that end in a text, and where the scanner is behind it. -/
def scan (e : Engine) (s : LexState) : List Char → List TokenKind × LexState
  | [] => ([], s)
  | c :: cs =>
    let next := e.step s c
    let rest := scan e next.2 cs
    (next.1 ++ rest.1, rest.2)

/-- The kinds of the tokens of a text that can be read up to its end. -/
def tokens (e : Engine) (text : String) : Option (List TokenKind) :=
  let read := e.scan .between text.toList
  if read.2.isComplete then some (read.1 ++ read.2.pending) else none

/-- Whether a text that is put in front of another keeps to itself. -/
def opens (e : Engine) (text : String) : Bool := (e.scan .between text.toList).2.isBetween

end Engine

/-- Whether the first character, if there is one, ends whatever stands before it. -/
def startsApart (text : String) : Bool :=
  text.toList.head?.all ([' ', '(', ')', '[', ']', ',', ':'].contains ·)

section Scanning

variable {e : Engine} {s : LexState} {c : Char} {cs ds : List Char} {text other : String}
  {ks : List TokenKind} {q : Quoting} {kind : TokenKind}

@[simp] theorem scan_nil : e.scan s [] = ([], s) := rfl

theorem scan_cons : e.scan s (c :: cs) =
    ((e.step s c).1 ++ (e.scan (e.step s c).2 cs).1, (e.scan (e.step s c).2 cs).2) := rfl

@[simp] theorem step_between : e.step .between c = e.start c := rfl

@[simp] theorem step_inside : e.step (.inside q kind) c =
    if c = q.quote then ([], .behind q kind)
    else if q.escapes = true ∧ c = '\\' then ([], .escaped q kind) else ([], .inside q kind) := rfl

@[simp] theorem step_escaped : e.step (.escaped q kind) c = ([], .inside q kind) := rfl

@[simp] theorem step_behind : e.step (.behind q kind) c =
    if c = q.quote then ([], .inside q kind) else e.leave (.behind q kind) c := rfl

theorem step_word (h : e.inWord c = true) : e.step .word c = ([], .word) := if_pos h

theorem scan_append : e.scan s (cs ++ ds) =
    ((e.scan s cs).1 ++ (e.scan (e.scan s cs).2 ds).1, (e.scan (e.scan s cs).2 ds).2) := by
  induction cs generalizing s with
  | nil => rfl
  | cons c cs ih => simp only [List.cons_append, scan_cons, ih, List.append_assoc]

/-- Some characters end a token wherever it can end. -/
theorem step_of_isComplete (hs : s.isComplete = true)
    (hc : c ∈ [' ', '(', ')', '[', ']', ',', ':']) : e.step s c = e.leave s c := by
  have word : e.inWord c = false ∧ isQuote c = false ∧ c ≠ '.' ∧ c ≠ '\'' := by
    simp only [List.mem_cons, List.not_mem_nil, or_false] at hc
    rcases hc with rfl | rfl | rfl | rfl | rfl | rfl | rfl <;>
      exact ⟨rfl, rfl, by decide, by decide⟩
  have number (p : NumberPart) : p.next? c = none := by
    simp only [List.mem_cons, List.not_mem_nil, or_false] at hc
    rcases hc with rfl | rfl | rfl | rfl | rfl | rfl | rfl <;> cases p <;> rfl
  obtain ⟨outside, quote, point, apostrophe⟩ := word
  cases s with
  | between => simp [Engine.step, Engine.leave, LexState.pending]
  | escapeLetter => simp [Engine.step, outside, quote, apostrophe]
  | word => simp [Engine.step, outside, quote]
  | number part =>
    have complete : part.isComplete = true := hs
    simp [Engine.step, number, complete, outside, point]
  | behind q kind =>
    have other : c ≠ q.quote := by
      rintro rfl
      have : isQuote q.quote = true := hs
      simp [quote] at this
    simp [Engine.step, other]
  | point | operator _ | inside _ _ | escaped _ _ | lost => cases hs

theorem tokens_eq_some_iff : e.tokens text = some ks ↔
    (e.scan .between text.toList).2.isComplete = true ∧
      (e.scan .between text.toList).1 ++ (e.scan .between text.toList).2.pending = ks := by
  simp [Engine.tokens]

/-- A text that starts apart adds its tokens to those before it. -/
theorem tokens_append (h : e.tokens text = some ks) (apart : startsApart other = true) :
    e.tokens (text ++ other) = (e.tokens other).map (ks ++ ·) := by
  obtain ⟨complete, rfl⟩ := tokens_eq_some_iff.1 h
  have between : e.scan (e.scan .between text.toList).2 other.toList =
      if other.toList = [] then ([], (e.scan .between text.toList).2)
      else ((e.scan .between text.toList).2.pending ++ (e.scan .between other.toList).1,
        (e.scan .between other.toList).2) := by
    cases empty : other.toList with
    | nil => rfl
    | cons c cs =>
      have first : c ∈ [' ', '(', ')', '[', ']', ',', ':'] := by
        simpa [startsApart, empty] using apart
      rw [scan_cons, step_of_isComplete complete first]
      simp [scan_cons, Engine.leave]
  rw [Engine.tokens, String.toList_append, scan_append, between]
  by_cases empty : other.toList = []
  · have nothing : e.tokens other = some [] := by
      simp [Engine.tokens, empty, LexState.isComplete, LexState.pending]
    rw [if_pos empty, nothing]
    simp [complete]
  · rw [if_neg empty, Engine.tokens]
    split <;> simp

/-- What follows a text that keeps to itself is read on its own. -/
theorem tokens_of_opens (h : e.opens text = true) :
    ∃ ks, ∀ other, e.tokens (text ++ other) = (e.tokens other).map (ks ++ ·) := by
  have between : (e.scan .between text.toList).2 = .between := by
    unfold Engine.opens at h
    cases stop : (e.scan .between text.toList).2 with
    | between => rfl
    | _ => simp [stop, LexState.isBetween] at h
  refine ⟨(e.scan .between text.toList).1, fun other => ?_⟩
  rw [Engine.tokens, String.toList_append, scan_append, between, Engine.tokens]
  split <;> simp

/-- What is read as the content of a quoted token is left behind its closing quote. -/
theorem scan_of_content {rest : List Char} (h : q.content cs = some (ds, rest)) :
    e.scan (.inside q kind) cs = e.scan (.behind q kind) rest := by
  fun_induction Quoting.content q cs generalizing ds rest with
  | case1 => simp at h
  | case2 =>
    cases h
    simp [scan_cons]
  | case3 c hc => simp at h
  | case4 more ih =>
    obtain ⟨tail, hr, rfl⟩ := eq_push.1 h
    simp [scan_cons, ih hr]
  | case5 d more hd =>
    cases h
    simp [scan_cons]
  | case6 c d more hc hb ih =>
    obtain ⟨x, hx, h⟩ := Option.bind_eq_some_iff.1 h
    obtain ⟨tail, hr, rfl⟩ := eq_push.1 h
    simp only [scan_cons, step_inside, if_neg hc, if_pos hb, step_escaped, List.nil_append, ih hr]
  | case7 c d more hc hb ih =>
    obtain ⟨tail, hr, rfl⟩ := eq_push.1 h
    rw [← ih hr, scan_cons, step_inside, if_neg hc, if_neg hb]
    simp only [List.nil_append]

end Scanning

section Words

variable {e : Engine} {c : Char} {cs : List Char} {i : Ident} {s : String}

/-- A character of words that is neither a digit nor a dollar sign starts a word. -/
theorem start_of_letter (hw : e.inWord c = true) (hd : c.isDigit = false) (hs : c ≠ '$') :
    e.start c = ([], .word) ∨ e.start c = ([], .escapeLetter) := by
  have other {d : Char} (h : isWordChar d = false) : c ≠ d := by
    rintro rfl
    simp [Engine.inWord, h] at hw
  have blank : c ∉ [' ', '\t', '\n', '\r'] := by
    simp [other (d := ' ') rfl, other (d := '\t') rfl, other (d := '\n') rfl,
      other (d := '\r') rfl]
  have quote : c ≠ e.nameQuoting.quote := by cases e <;> exact other rfl
  rw [Engine.start, if_neg blank, if_neg (other rfl), if_neg quote, if_neg (by simp [hd])]
  by_cases escape : e = .postgresql ∧ (c = 'E' ∨ c = 'e')
  · exact .inr (if_pos escape)
  · rw [if_neg escape, if_pos ⟨hw, hs⟩]
    exact .inl rfl

theorem scan_word (h : ∀ c ∈ cs, e.inWord c = true) : e.scan .word cs = ([], .word) := by
  induction cs with
  | nil => rfl
  | cons c cs ih =>
    have first := h c (by simp)
    have others := ih fun d hd => h d (by simp [hd])
    simp [scan_cons, step_word first, others]

/-- Characters of words are one word, if the first can start one. -/
theorem scan_bare (h : ∀ c ∈ cs, e.inWord c = true)
    (first : ∀ c ∈ cs.head?, c.isDigit = false ∧ c ≠ '$') (some : cs ≠ []) :
    (e.scan .between cs).1 = [] ∧
      ((e.scan .between cs).2 = .word ∨ (e.scan .between cs).2 = .escapeLetter) := by
  obtain ⟨c, cs, rfl⟩ := List.exists_cons_of_ne_nil some
  obtain ⟨digit, dollar⟩ := first c rfl
  have rest : ∀ d ∈ cs, e.inWord d = true := fun d hd => h d (by simp [hd])
  rcases start_of_letter (h c (by simp)) digit dollar with starts | starts
  · simp [scan_cons, starts, scan_word rest]
  · cases cs with
    | nil => simp [scan_cons, starts]
    | cons d cs =>
      have inside := rest d (by simp)
      have quote : d ≠ '\'' := by
        rintro rfl
        simp [Engine.inWord, isWordChar] at inside
      have others : ∀ d ∈ cs, e.inWord d = true := fun d hd => rest d (by simp [hd])
      have next : e.step .escapeLetter d = ([], .word) := by simp [Engine.step, quote, inside]
      simp [scan_cons, starts, next, scan_word others]

theorem tokens_bare (h : ∀ c ∈ s.toList, e.inWord c = true)
    (first : ∀ c ∈ s.toList.head?, c.isDigit = false ∧ c ≠ '$') (some : s ≠ "") :
    e.tokens s = .some [.word] := by
  obtain ⟨none, stops⟩ := scan_bare h first (by simpa using some)
  rw [tokens_eq_some_iff, none]
  rcases stops with stops | stops <;> simp [stops, LexState.isComplete, LexState.pending]

/-- The text of a quoted token. -/
theorem tokens_quoted {quote : Char} {q : Quoting} {kind : TokenKind} {cs ds : List Char}
    (starts : e.start quote = ([], .inside q kind)) (closed : isQuote q.quote = true)
    (h : q.content (cs ++ [quote]) = some (ds, [])) :
    e.tokens (String.ofList (quote :: cs ++ [quote])) = some [kind] := by
  have read : e.scan (.inside q kind) (cs ++ [quote]) = ([], .behind q kind) := scan_of_content h
  rw [tokens_eq_some_iff, String.toList_ofList, List.cons_append]
  simp [scan_cons, starts, read, LexState.isComplete, LexState.pending, closed]

/-- Every name is written as one word. -/
theorem tokens_quote (he : e ≠ .clickhouse) (i : Ident) : e.tokens (i.quote e) = some [.word] := by
  have enclosed (cs : List Char) :
      e.tokens (String.ofList (Ident.enclosed '"' cs)) = some [.word] := by
    have starts : e.start '"' = ([], .inside { quote := '"' } .word) := by
      cases e with
      | clickhouse => exact absurd rfl he
      | _ => rfl
    have read : ({ quote := '"' } : Quoting).content (Ident.doubled '"' cs ++ ['"']) =
        some (cs, []) := Quoting.content_doubled (by simp) nofun
    exact tokens_quoted starts rfl read
  have bare (allowed : e = .postgresql ∨ e = .sqlite) : e.tokens (i.quote e) = some [.word] := by
    cases needed : Ident.needsQuotes e.reserved i.name with
    | true =>
      rw [Ident.quote_of_needsQuotes allowed needed, (Ident.quoting_of_bareAllowed allowed).1]
      exact enclosed _
    | false =>
      rw [Ident.quote_of_not_needsQuotes allowed needed]
      obtain ⟨_, body, plain, whole⟩ := Ident.needsQuotes_eq_false_iff.1 needed
      have inside : ∀ c ∈ body, e.inWord c = true := by
        intro c hc
        have word := Ident.isWordChar_of_isLegal (plain.legal c hc).1
        rcases allowed with rfl | rfl <;> simp [Engine.inWord, word]
      obtain ⟨none, stops⟩ := scan_bare inside plain.first plain.nonempty
      rw [tokens_eq_some_iff]
      rcases whole with whole | whole
      · rw [whole, none]
        rcases stops with stops | stops <;> simp [stops, LexState.isComplete, LexState.pending]
      · -- The line feed behind the word stands between tokens.
        rw [whole, scan_append, none]
        have feed : isWordChar '\n' = false := by decide
        rcases stops with stops | stops <;>
          simp [stops, scan_cons, Engine.step, Engine.inWord, feed, isQuote, Engine.leave,
            Engine.start, LexState.isComplete, LexState.pending]
  cases e with
  | clickhouse => exact absurd rfl he
  | trino => exact enclosed _
  | postgresql => exact bare (.inl rfl)
  | sqlite => exact bare (.inr rfl)

/-- Every text is written as one text token. -/
theorem tokens_quoteText (e : Engine) (s : String) :
    e.tokens (Literal.quoteText e s) = some [.text] := by
  have plain (starts : e.start '\'' = ([], .inside { quote := '\'' } .text)) :
      e.tokens (String.ofList ('\'' :: Literal.doubledQuotes s.toList ++ ['\''])) =
        some [.text] := by
    rw [Literal.doubledQuotes_eq]
    have read : ({ quote := '\'' } : Quoting).content (Ident.doubled '\'' s.toList ++ ['\'']) =
        some (s.toList, []) := Quoting.content_doubled (by simp) nofun
    exact tokens_quoted starts rfl read
  cases e with
  | sqlite | trino => exact plain rfl
  | clickhouse =>
    have read : (Engine.textQuoting .clickhouse).content (Literal.backslashed s.toList ++ ['\'']) =
        some (s.toList, []) := Literal.content_backslashed (by simp)
    exact tokens_quoted (q := Engine.textQuoting .clickhouse) rfl rfl read
  | postgresql =>
    by_cases escape : s.toList.contains '\\' = true
    · have content : escapeForm.content (Literal.doubledBoth s.toList ++ ['\'']) =
          some (s.toList, []) := Literal.content_doubledBoth (by simp)
      have read : Engine.scan .postgresql (.inside escapeForm .text)
          (Literal.doubledBoth s.toList ++ ['\'']) = ([], .behind escapeForm .text) :=
        scan_of_content content
      have letter : Engine.start .postgresql 'E' = ([], .escapeLetter) := rfl
      have opening : Engine.step .postgresql .escapeLetter '\'' =
        ([], .inside escapeForm .text) := rfl
      have closed : isQuote escapeForm.quote = true := rfl
      rw [Literal.quoteText, Literal.quotedText, if_pos escape, tokens_eq_some_iff,
        String.toList_ofList]
      simp [scan_cons, letter, opening, read, LexState.isComplete, LexState.pending, closed]
    · rw [Literal.quoteText, Literal.quotedText, if_neg escape]
      exact plain rfl

example : Engine.tokens .postgresql (Literal.quoteText .postgresql "it's -- \\") = some [.text] := by
  decide

end Words
end SyntheticRows
