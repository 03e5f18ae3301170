import SyntheticRows.Proofs.Lexical.Quoting
import SyntheticRows.Proofs.Run.Outcome
import SyntheticRows.Sql.Literal

/-!
# Text tokens

How each engine reads a text in a statement. A text without NUL is written as one token that reads
as that text, whatever follows it, and only a NUL keeps a text from being written.
-/
namespace SyntheticRows
open Sql

/-- The letters of PostgreSQL's escape form; other characters stand for themselves. A code point
given by its number is not read. -/
def postgresMeaning (c : Char) : Option Char :=
  match c with
  | 'b' => some '\x08'
  | 't' => some '\t'
  | 'n' => some '\n'
  | 'f' => some '\x0c'
  | 'r' => some '\r'
  | 'x' | 'u' | 'U' => none
  | _ => if '0' ≤ c ∧ c ≤ '7' then none else some c

/-- PostgreSQL's escape form, behind its letter. -/
def escapeForm : Quoting := { quote := '\'', escapes := true, meaning := postgresMeaning }

namespace Engine

def textQuoting : Engine → Quoting
  | .clickhouse => { quote := '\'', escapes := true, meaning := clickhouseMeaning }
  | .postgresql | .sqlite | .trino => { quote := '\'' }

/-- The text token at the front, and what follows it. -/
def readText (e : Engine) : List Char → Option (List Char × List Char)
  | '\'' :: rest => e.textQuoting.content rest
  | c :: '\'' :: rest =>
    if e = .postgresql ∧ (c = 'E' ∨ c = 'e') then escapeForm.content rest else none
  | _ => none

end Engine

namespace Sql.Literal

variable {e : Engine} {cs t : List Char}

theorem doubledQuotes_eq : doubledQuotes cs = Ident.doubled '\'' cs := by
  unfold doubledQuotes Ident.doubled
  congr
  funext c
  by_cases h : c = '\'' <;> simp [h]

theorem content_backslashed (ht : t.head? ≠ some '\'') :
    (Engine.textQuoting .clickhouse).content (backslashed cs ++ '\'' :: t) = some (cs, t) := by
  refine Quoting.content_written ht fun c _ more => ?_
  by_cases h : c = '\\' ∨ c = '\''
  · have meant : clickhouseMeaning c = some c := by rcases h with rfl | rfl <;> rfl
    rw [if_pos h]
    exact Quoting.content_escaped rfl (by decide) meant
  · rw [if_neg h]
    exact Quoting.content_plain (fun hq => h (.inr hq)) fun _ hb => h (.inl hb)

theorem content_doubledBoth (ht : t.head? ≠ some '\'') :
    escapeForm.content (doubledBoth cs ++ '\'' :: t) = some (cs, t) := by
  refine Quoting.content_written ht fun c _ more => ?_
  by_cases hb : c = '\\'
  · subst hb
    exact Quoting.content_escaped rfl (by decide) rfl
  by_cases hq : c = '\''
  · subst hq
    exact Quoting.content_quote_twice (q := escapeForm)
  · rw [if_neg (by simp [hb, hq])]
    exact Quoting.content_plain hq fun _ => hb

/-- The engine reads the written form of a text as that text, and stops behind it. -/
theorem readText_quotedText (ht : t.head? ≠ some '\'') :
    e.readText (quotedText e cs ++ t) = some (cs, t) := by
  have plain : ({ quote := '\'' } : Quoting).content (doubledQuotes cs ++ '\'' :: t) =
      some (cs, t) := by
    rw [doubledQuotes_eq]
    exact Quoting.content_doubled ht nofun
  cases e with
  | clickhouse => simpa [quotedText, Engine.readText] using content_backslashed ht
  | postgresql =>
    by_cases hb : '\\' ∈ cs
    · simpa [quotedText, Engine.readText, hb] using content_doubledBoth ht
    · simpa [quotedText, Engine.readText, hb, Engine.textQuoting] using plain
  | sqlite => simpa [quotedText, Engine.readText, Engine.textQuoting] using plain
  | trino => simpa [quotedText, Engine.readText, Engine.textQuoting] using plain

/-- A text without NUL is written as one text token, which reads as that text and ends where the
written form does. Only a NUL keeps a text from being written. -/
theorem readsBack_of_text (e : Engine) (s : String) (ht : t.head? ≠ some '\'') :
    ('\x00' ∉ s.toList → ∃ l, ofTextValue (.text s) = .ok l ∧
      e.readText ((l.render e).toList ++ t) = some (s.toList, t)) ∧
    (ofTextValue (.text s) = .error (.configuration .nulInLiteral) ↔ '\x00' ∈ s.toList) := by
  have unfolded : ofTextValue (.text s) = ofText s := rfl
  rw [unfolded, ofText]
  by_cases hn : '\x00' ∈ s.toList
  · simp only [hn, not_true, false_implies, true_and, iff_true, dif_neg, not_false_eq_true]
    rfl
  · refine ⟨fun _ => ⟨.text s hn, dif_pos hn, ?_⟩, ?_⟩
    · have written : (quoteText e s).toList = quotedText e s.toList := String.toList_ofList
      rw [render, written]
      exact readText_quotedText ht
    · simp [hn]

/-- A quote, and a backslash at the end, before another text. -/
theorem readsBack_of_pathText : (", 'next'".toList.head? ≠ some '\'') ∧
    '\x00' ∉ "it's C:\\".toList ∧ ∃ l, ofTextValue (.text "it's C:\\") = .ok l ∧
      Engine.readText .postgresql ((l.render .postgresql).toList ++ ", 'next'".toList) =
        some ("it's C:\\".toList, ", 'next'".toList) :=
  ⟨by decide, by decide, (readsBack_of_text .postgresql _ (by decide)).1 (by decide)⟩

end Sql.Literal
end SyntheticRows
