import Mathlib.Data.List.Basic
import SyntheticRows.Sql.Identifier

/-!
# Quoted tokens

How a token between quotes is read: a quote written twice stands for one, and where backslashes
escape, one of them and the character behind it stand for a single character. A content that is
written character by character is read back in the same way.
-/
namespace SyntheticRows.Sql

/-- The quote of a kind of tokens, and what the character behind a backslash stands for where
backslashes escape. -/
structure Quoting where
  quote : Char
  escapes : Bool := false
  meaning : Char → Option Char := some

/-- Puts a character in front of what was read. -/
def push (c : Char) (r : Option (List Char × List Char)) : Option (List Char × List Char) :=
  r.map fun p => (c :: p.1, p.2)

@[simp] theorem push_none (c : Char) : push c none = none := rfl

@[simp] theorem push_some (c : Char) (cs rest : List Char) :
    push c (some (cs, rest)) = some (c :: cs, rest) := rfl

theorem eq_push {c : Char} {r : Option (List Char × List Char)} {cs rest : List Char} :
    push c r = some (cs, rest) ↔ ∃ tail, r = some (tail, rest) ∧ c :: tail = cs := by
  cases r with
  | none => simp
  | some p =>
    obtain ⟨tail, rest'⟩ := p
    simp [and_comm]

namespace Ident

variable {q c : Char} {cs : List Char}

theorem mem_doubled : c ∈ doubled q cs ↔ c ∈ cs := by
  have once (d : Char) : (c ∈ if d = q then [q, q] else [d]) ↔ c = d := by
    by_cases h : d = q <;> simp [h]
  simp [doubled, once]

theorem doubled_cons :
    doubled q (c :: cs) = (if c = q then [q, q] else [c]) ++ doubled q cs := rfl

theorem length_doubled : (doubled q cs).length = cs.length + cs.count q := by
  induction cs with
  | nil => rfl
  | cons c cs ih =>
    rw [doubled_cons, List.length_append, ih, List.count_cons]
    by_cases h : c = q <;> simp [h] <;> omega

theorem count_doubled : (doubled q cs).count q = 2 * cs.count q := by
  induction cs with
  | nil => rfl
  | cons c cs ih =>
    rw [doubled_cons, List.count_append, ih, List.count_cons]
    by_cases h : c = q <;> simp [h]
    omega

end Ident

namespace Quoting

variable {q : Quoting} {c : Char} {cs rest text : List Char}

/-- The content of a token behind its opening quote, and what follows the closing one. -/
def content (q : Quoting) : List Char → Option (List Char × List Char)
  | [] => none
  | [c] => if c = q.quote then some ([], []) else none
  | c :: d :: rest =>
    if c = q.quote then
      if d = q.quote then push c (content q rest) else some ([], d :: rest)
    else if q.escapes = true ∧ c = '\\' then (q.meaning d).bind fun x => push x (content q rest)
    else push c (content q (d :: rest))

section Unfolding

attribute [local simp] content

@[simp] theorem content_quote_twice :
    q.content (q.quote :: q.quote :: rest) = push q.quote (q.content rest) := by
  simp

/-- A quote that no other follows is the closing one. -/
theorem content_closed (h : rest.head? ≠ some q.quote) :
    q.content (q.quote :: rest) = some ([], rest) := by
  cases rest with
  | nil => simp
  | cons d rest =>
    have hd : d ≠ q.quote := by simpa using h
    simp [hd]

theorem content_escaped (he : q.escapes = true) (hq : q.quote ≠ '\\') {d x : Char}
    (hd : q.meaning d = some x) : q.content ('\\' :: d :: rest) = push x (q.content rest) := by
  simp [hq.symm, he, hd]

theorem content_plain (hc : c ≠ q.quote) (he : q.escapes = true → c ≠ '\\') :
    q.content (c :: rest) = push c (q.content rest) := by
  have ordinary : ¬(q.escapes = true ∧ c = '\\') := fun h => he h.1 h.2
  cases rest with
  | nil => simp [hc]
  | cons d rest => simp [hc, ordinary]

end Unfolding

/-- If each character is written in a form that is read as that character, so is the whole. -/
theorem content_flatMap {code : Char → List Char}
    (h : ∀ c ∈ cs, ∀ more, q.content (code c ++ more) = push c (q.content more)) :
    q.content (cs.flatMap code ++ rest) = (q.content rest).map fun r => (cs ++ r.1, r.2) := by
  induction cs with
  | nil => simp
  | cons c cs ih =>
    have first := h c (by simp)
    have others := ih fun d hd => h d (by simp [hd])
    rw [List.flatMap_cons, List.append_assoc, first, others]
    cases q.content rest <;> rfl

/-- The written form of a content, closed by a quote, is read up to that quote. -/
theorem content_written {code : Char → List Char} (ht : rest.head? ≠ some q.quote)
    (h : ∀ c ∈ cs, ∀ more, q.content (code c ++ more) = push c (q.content more)) :
    q.content (cs.flatMap code ++ q.quote :: rest) = some (cs, rest) := by
  rw [content_flatMap h, content_closed ht]
  simp

theorem content_doubled (ht : rest.head? ≠ some q.quote) (he : q.escapes = true → '\\' ∉ cs) :
    q.content (Ident.doubled q.quote cs ++ q.quote :: rest) = some (cs, rest) := by
  refine content_written ht fun c hc more => ?_
  by_cases quote : c = q.quote
  · simp [quote]
  · have ordinary : q.escapes = true → c ≠ '\\' := fun h hb => he h (hb ▸ hc)
    simp [quote, content_plain quote ordinary]

/-- Twice the characters used up for a content are more than twice the content plus the quotes among
them, and by more than one if a backslash is among them. -/
theorem used_of_content (he : q.escapes = true) (hq : q.quote ≠ '\\')
    (h : q.content text = some (cs, rest)) : ∃ used, text = used ++ rest ∧
      2 * cs.length + used.count q.quote + (if '\\' ∈ used then 1 else 0) < 2 * used.length := by
  fun_induction content q text generalizing cs rest with
  | case1 => simp at h
  | case2 =>
    cases h
    exact ⟨[q.quote], by simp [hq.symm]⟩
  | case3 c hc => simp at h
  | case4 more ih =>
    obtain ⟨tail, hr, rfl⟩ := eq_push.1 h
    obtain ⟨used, rfl, hu⟩ := ih hr
    refine ⟨q.quote :: q.quote :: used, rfl, ?_⟩
    simp [hq.symm]
    omega
  | case5 d more hd =>
    cases h
    exact ⟨[q.quote], by simp [hq.symm]⟩
  | case6 c d more hc hb ih =>
    obtain ⟨x, hx, h⟩ := Option.bind_eq_some_iff.1 h
    obtain ⟨tail, hr, rfl⟩ := eq_push.1 h
    obtain ⟨used, rfl, hu⟩ := ih hr
    refine ⟨c :: d :: used, rfl, ?_⟩
    -- A quote may stand behind the backslash: two characters are used for one, with one quote.
    have escape : '\\' ∈ c :: d :: used := by simp [hb.2]
    have first : (c :: d :: used).count q.quote = (d :: used).count q.quote :=
      List.count_cons_of_ne hc
    have second : (d :: used).count q.quote ≤ used.count q.quote + 1 := by
      rw [List.count_cons]
      split <;> omega
    simp only [if_pos escape, first, List.length_cons]
    omega
  | case7 c d more hc hb ih =>
    obtain ⟨tail, hr, rfl⟩ := eq_push.1 h
    obtain ⟨used, hu, hl⟩ := ih hr
    have ordinary : c ≠ '\\' := fun h => hb ⟨he, h⟩
    refine ⟨c :: used, by rw [hu]; rfl, ?_⟩
    simp [hc, ordinary.symm]
    omega

/-- Quotes written twice are read back, unless a backslash takes part in them. -/
theorem content_doubled_iff (ht : rest.head? ≠ some q.quote) (hq : q.quote ≠ '\\') :
    q.content (Ident.doubled q.quote cs ++ q.quote :: rest) = some (cs, rest) ↔
      (q.escapes = true → '\\' ∉ cs) := by
  constructor
  · intro h he hb
    obtain ⟨used, split, hu⟩ := used_of_content he hq h
    have written : Ident.doubled q.quote cs ++ [q.quote] = used :=
      @List.append_cancel_right _ _ rest _ (by simpa using split)
    have inside : '\\' ∈ used := by
      rw [← written]
      simp [Ident.mem_doubled, hb]
    -- What was written has a length that leaves no room for the backslash.
    rw [if_pos inside, ← written] at hu
    simp [Ident.length_doubled, Ident.count_doubled] at hu
    omega
  · exact content_doubled ht

end Quoting

/-- The controls that ClickHouse has letters for behind a backslash; other characters stand for
themselves. A code point given by its number is not read. -/
def clickhouseMeaning : Char → Option Char
  | '0' => some '\x00'
  | 'a' => some '\x07'
  | 'b' => some '\x08'
  | 't' => some '\t'
  | 'n' => some '\n'
  | 'v' => some '\x0b'
  | 'f' => some '\x0c'
  | 'r' => some '\r'
  | 'x' => none
  | c => some c

end SyntheticRows.Sql
