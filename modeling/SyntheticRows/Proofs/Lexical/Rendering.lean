import SyntheticRows.Proofs.Json.Written

/-!
# Rendered scalars

What a scalar is rendered to can be told from its form in JSON, given whether it is a point in time
or a date. So two scalars that JSON writes the same are rendered the same if they agree in that, and
wherever engines have literals for points in time, only then.
-/
namespace SyntheticRows
open Sql

/-- The text that is written between quotes. -/
def Json.unquoted? (t : String) : Option String :=
  match t.toList with
  | '"' :: rest => (readText? rest).map Prod.fst
  | _ => none

theorem Json.unquoted?_writeText (s : String) : unquoted? (writeText s) = some s := by
  simp [unquoted?, writeText, readText?_written]

theorem Json.unquoted?_of_not_mem {t : String} (h : '"' ∉ t.toList) : unquoted? t = none := by
  unfold unquoted?
  split
  · next rest quoted => exact absurd (by simp [quoted]) h
  · rfl

namespace Engine

/-- A date has no blank in its text, a point in time has one. -/
def momentText (e : Engine) (s : String) : String :=
  if ' ' ∈ s.toList then Literal.renderMoment e "toDateTime" "TIMESTAMP" s
  else Literal.renderMoment e "toDate" "DATE" s

/-- A word that JSON writes for a scalar. A number with a point or an exponent is a double. -/
def wordText? (e : Engine) (w : String) : Option String :=
  if w = "null" then some "NULL"
  else if w = "true" then some (Literal.renderBool e true)
  else if w = "false" then some (Literal.renderBool e false)
  else if !w.toList.all isNumeralChar then none
  else if '.' ∈ w.toList ∨ 'e' ∈ w.toList then
    some (if e = .trino ∧ !w.contains 'e' then w ++ "E0" else w)
  else some w

/-- The rendering of a scalar with the given form in JSON, if it can be a literal. -/
def rendering? (e : Engine) (moment : Bool) (t : String) : Option String :=
  match Json.unquoted? t with
  | some s =>
    if moment then some (e.momentText s)
    else if '\x00' ∈ s.toList then none
    else some (Literal.quoteText e s)
  | none => e.wordText? t

end Engine

namespace Engine

variable {e : Engine} {moment : Bool} {w : String}

theorem rendering?_text (s : String) : e.rendering? moment (Json.writeText s) =
    if moment then some (e.momentText s)
    else if '\x00' ∈ s.toList then none
    else some (Literal.quoteText e s) := by
  simp [rendering?, Json.unquoted?_writeText]

theorem rendering?_word (h : '"' ∉ w.toList) : e.rendering? moment w = e.wordText? w := by
  simp [rendering?, Json.unquoted?_of_not_mem h]

/-- Words that are no numbers have letters that numbers do not have. -/
theorem rendering?_numeral (h : ∀ c ∈ w.toList, isNumeralChar c = true) : e.rendering? moment w =
    if '.' ∈ w.toList ∨ 'e' ∈ w.toList then
      some (if e = .trino ∧ !w.contains 'e' then w ++ "E0" else w)
    else some w := by
  have all : w.toList.all isNumeralChar = true := List.all_eq_true.2 h
  have other {u : String} (hu : u.toList.all isNumeralChar = false) : w ≠ u := by
    rintro rfl
    simp [all] at hu
  have null : w ≠ "null" := other (by decide)
  have yes : w ≠ "true" := other (by decide)
  have no : w ≠ "false" := other (by decide)
  have bare : '"' ∉ w.toList := fun hq => absurd (h _ hq) (by decide)
  rw [rendering?_word bare, wordText?, if_neg null, if_neg yes, if_neg no, all]
  rfl

end Engine

namespace Sql.Literal

variable {e : Engine} {v : Value} {t : String}

theorem rendering_bool (b : Bool) :
    e.rendering? false (if b then "true" else "false") = some (renderBool e b) := by
  cases b with
  | true =>
    rw [Engine.rendering?_word (by decide)]
    simp [Engine.wordText?]
  | false =>
    rw [Engine.rendering?_word (by decide)]
    simp [Engine.wordText?]

theorem rendering_int (i : Int) : e.rendering? false (toString i) = some (toString i) := by
  have chars : ∀ c ∈ (toString i).toList, c.isDigit = true ∨ c = '-' :=
    fun c hc => mem_toString_int hc
  have numeral : ∀ c ∈ (toString i).toList, isNumeralChar c = true := by
    intro c hc
    rcases chars c hc with h | rfl
    · exact isNumeralChar_of_isDigit h
    · decide
  have whole : ¬('.' ∈ (toString i).toList ∨ 'e' ∈ (toString i).toList) := by
    rintro (h | h)
    · exact absurd (chars _ h) (by decide)
    · exact absurd (chars _ h) (by decide)
  rw [Engine.rendering?_numeral numeral, if_neg whole]

theorem rendering_float (x : Double) : e.rendering? false (Json.writeFloat x) =
    (ofFloat x).toOption.map (render e) := by
  cases x with
  | nan =>
    rw [Engine.rendering?_word (by decide)]
    rfl
  | infinite negative =>
    cases negative with
    | true =>
      rw [Engine.rendering?_word (by decide)]
      rfl
    | false =>
      rw [Engine.rendering?_word (by decide)]
      rfl
  | finite s m k =>
    obtain ⟨numeral, mark⟩ := Double.toText_finite (x := .finite s m k) rfl
    change e.rendering? false (Double.finite s m k).toText = _
    rw [Engine.rendering?_numeral numeral, if_pos mark]
    rfl

theorem blank_mem_toSecondsText (d : DateTime) : ' ' ∈ d.toSecondsText.toList := by
  simp [DateTime.toSecondsText]

theorem blank_not_mem_toIso (d : Date) : ' ' ∉ d.toIso.toList := by
  have digits (width n : Nat) : ' ' ∉ padded width n := by
    intro h
    exact absurd (isDigit_of_mem_padded h) (by decide)
  simp [Date.toIso, digits]

/-- A scalar is rendered to what its form in JSON tells. -/
theorem rendering_of_isScalar (hv : v.isScalar = true) (h : Json.writeLoose v.toJson = .ok t) :
    (ofValue v).toOption.map (render e) = e.rendering? v.isMoment t := by
  cases v with
  | null =>
    cases h
    rw [Engine.rendering?_word (by decide)]
    rfl
  | bool b =>
    cases h
    exact (rendering_bool b).symm
  | int i =>
    obtain ⟨_, fits, h⟩ := except_ok_of_bind h
    obtain rfl := Except.ok.inj h
    change _ = e.rendering? false (toString i)
    rw [rendering_int, ofValue, fits]
    rfl
  | float x =>
    cases h
    exact (rendering_float x).symm
  | text s =>
    obtain rfl : Json.writeText s = t := Except.ok.inj h
    change _ = e.rendering? false (Json.writeText s)
    rw [Engine.rendering?_text, ofValue, ofText]
    by_cases hn : '\x00' ∈ s.toList
    · rw [dif_neg (not_not.2 hn), if_neg Bool.false_ne_true, if_pos hn]
      rfl
    · rw [dif_pos hn, if_neg Bool.false_ne_true, if_neg hn]
      rfl
  | date d =>
    obtain rfl : Json.writeText d.toIso = t := Except.ok.inj h
    rw [Engine.rendering?_text]
    simp [Value.isMoment, Engine.momentText, blank_not_mem_toIso, ofValue, Except.toOption, render]
  | datetime d =>
    obtain rfl : Json.writeText d.toSecondsText = t := Except.ok.inj h
    rw [Engine.rendering?_text]
    simp [Value.isMoment, Engine.momentText, blank_mem_toSecondsText, ofValue, Except.toOption,
      render]
  | bytes _ | list _ | tuple _ | set _ | mapping _ => cases hv

end Sql.Literal

/-- Scalars that JSON writes the same. -/
structure Value.Coincides (v w : Value) : Prop where
  scalar : v.isScalar = true
  scalar' : w.isScalar = true
  form : ∃ t, Json.writeLoose v.toJson = .ok t ∧ Json.writeLoose w.toJson = .ok t

namespace Value.Coincides

variable {e : Engine} {v w : Value} {l m : Literal} {vs ws : List Value} {ls ms : List Literal}
  {more rest : List Char}

theorem ofValue_alike (h : Coincides v w) (same : v.isMoment = w.isMoment) :
    (Literal.ofValue v).toOption.map (Literal.render e) =
      (Literal.ofValue w).toOption.map (Literal.render e) := by
  obtain ⟨t, hv, hw⟩ := h.form
  rw [Literal.rendering_of_isScalar h.scalar hv, Literal.rendering_of_isScalar h.scalar' hw, same]

/-- A literal of a point in time starts with a letter of its own. -/
theorem momentText_append_ne (he : e ≠ .sqlite) (s : String) :
    (e.momentText s).toList ++ more ≠ (Literal.quoteText e s).toList ++ rest := by
  cases e with
  | sqlite => exact absurd rfl he
  | postgresql =>
    by_cases hb : ' ' ∈ s.toList <;> by_cases hs : '\\' ∈ s.toList <;>
      simp [Engine.momentText, Literal.renderMoment, Literal.quoteText, Literal.quotedText, hb, hs]
  | clickhouse =>
    by_cases hb : ' ' ∈ s.toList <;>
      simp [Engine.momentText, Literal.renderMoment, Literal.quoteText, Literal.quotedText, hb]
  | trino =>
    by_cases hb : ' ' ∈ s.toList <;>
      simp [Engine.momentText, Literal.renderMoment, Literal.quoteText, Literal.quotedText, hb]

theorem append_ne_of_moment (he : e ≠ .sqlite) (h : Coincides v w) (hv : v.isMoment = true)
    (hw : w.isMoment = false) (hl : Literal.ofValue v = .ok l) (hm : Literal.ofValue w = .ok m) :
    (l.render e).toList ++ more ≠ (m.render e).toList ++ rest := by
  obtain ⟨t, tv, tw⟩ := h.form
  obtain ⟨s, rfl⟩ : ∃ s, Json.writeText s = t := by
    cases v with
    | date d => exact ⟨_, Except.ok.inj tv⟩
    | datetime d => exact ⟨_, Except.ok.inj tv⟩
    | _ => cases hv
  have first := Literal.rendering_of_isScalar (e := e) h.scalar tv
  have second := Literal.rendering_of_isScalar (e := e) h.scalar' tw
  rw [hv, hl, Engine.rendering?_text, if_pos rfl] at first
  rw [hw, hm, Engine.rendering?_text, if_neg Bool.false_ne_true] at second
  have moment : l.render e = e.momentText s := Option.some.inj first
  have text : m.render e = Literal.quoteText e s := by
    split at second
    · cases second
    · exact Option.some.inj second
  rw [moment, text]
  exact momentText_append_ne he s

/-- Literals of coinciding scalars are written the same if both or neither are points in time, and
else neither is the beginning of the other. -/
theorem append_eq_iff (he : e ≠ .sqlite) (h : Coincides v w) (hl : Literal.ofValue v = .ok l)
    (hm : Literal.ofValue w = .ok m) : (l.render e).toList ++ more = (m.render e).toList ++ rest ↔
      v.isMoment = w.isMoment ∧ more = rest := by
  have symm : Coincides w v := by
    obtain ⟨t, hv, hw⟩ := h.form
    exact ⟨h.scalar', h.scalar, t, hw, hv⟩
  by_cases same : v.isMoment = w.isMoment
  · have alike := h.ofValue_alike (e := e) same
    rw [hl, hm] at alike
    have rendered : l.render e = m.render e := Option.some.inj alike
    simp [same, rendered]
  · cases hv : v.isMoment with
    | true =>
      have hw : w.isMoment = false := by simpa [hv] using same
      simpa [hw] using h.append_ne_of_moment he hv hw hl hm
    | false =>
      have hw : w.isMoment = true := by simpa [hv] using same
      simpa [hw] using (symm.append_ne_of_moment he hw hv hm hl).symm

theorem tails_eq_iff (he : e ≠ .sqlite) (h : List.Forall₂ Coincides vs ws)
    (hl : List.Forall₂ (fun v l => Literal.ofValue v = .ok l) vs ls)
    (hm : List.Forall₂ (fun w m => Literal.ofValue w = .ok m) ws ms) :
    ((ls.map (Literal.render e)).flatMap fun s => ", ".toList ++ s.toList) =
        ((ms.map (Literal.render e)).flatMap fun s => ", ".toList ++ s.toList) ↔
      List.Forall₂ (fun v w => v.isMoment = w.isMoment) vs ws := by
  induction h generalizing ls ms with
  | nil =>
    cases hl
    cases hm
    simp
  | cons first _ ih =>
    cases hl with
    | cons hv hl =>
      cases hm with
      | cons hw hm =>
        simp only [List.map_cons, List.flatMap_cons, List.append_assoc, List.append_cancel_left_eq,
          first.append_eq_iff he hv hw, ih hl hm, List.forall₂_cons]

/-- Lists of coinciding scalars are written the same if they have points in time and dates at the
same places. -/
theorem joined_eq_iff (he : e ≠ .sqlite) (h : List.Forall₂ Coincides vs ws)
    (hl : List.Forall₂ (fun v l => Literal.ofValue v = .ok l) vs ls)
    (hm : List.Forall₂ (fun w m => Literal.ofValue w = .ok m) ws ms) :
    Text.joined ", " (ls.map (Literal.render e)) = Text.joined ", " (ms.map (Literal.render e)) ↔
      List.Forall₂ (fun v w => v.isMoment = w.isMoment) vs ws := by
  cases h with
  | nil =>
    cases hl
    cases hm
    simp
  | cons first others =>
    cases hl with
    | cons hv hl =>
      cases hm with
      | cons hw hm =>
        rw [← String.toList_inj, List.map_cons, List.map_cons, Text.toList_joined_cons,
          Text.toList_joined_cons, first.append_eq_iff he hv hw, tails_eq_iff he others hl hm,
          List.forall₂_cons]

end Value.Coincides
end SyntheticRows
