import Mathlib.Tactic.TypeStar
import SyntheticRows.Document.Table
import SyntheticRows.Document.Transformation
import SyntheticRows.Proofs.Document.Entries

/-!
# Keys with two spellings

A key of two words is written with its words parted (`from_table`) or joined (`fromTable`).
`Value.respelled` joins the words of some keys. A column is read from both spellings alike. So is a
transformation, unless it is a lookup with an empty name under a key that was respelled: an empty
name is taken where the words of its key are parted, and counts as missing where they are joined.
-/
namespace SyntheticRows

/-- A key of two words. -/
inductive TwoWordKey where
  | nullProbability
  | fromTable
  | fromColumn
  | joinOn
  | targetColumn
  | lookupColumn
  deriving DecidableEq

namespace TwoWordKey

/-- The key with its words parted. -/
def parted : TwoWordKey → String
  | nullProbability => "null_probability"
  | fromTable => "from_table"
  | fromColumn => "from_column"
  | joinOn => "join_on"
  | targetColumn => "target_column"
  | lookupColumn => "lookup_column"

/-- The key with its words joined. -/
def joined : TwoWordKey → String
  | nullProbability => "nullProbability"
  | fromTable => "fromTable"
  | fromColumn => "fromColumn"
  | joinOn => "joinOn"
  | targetColumn => "targetColumn"
  | lookupColumn => "lookupColumn"

/-- Whether the key stands in the mapping of a join. -/
def inJoin : TwoWordKey → Bool
  | targetColumn | lookupColumn => true
  | _ => false

variable {k l : TwoWordKey}

theorem parted_injective (h : k.parted = l.parted) : k = l := by
  cases k <;> cases l <;> first | rfl | exact absurd h (by decide)

theorem joined_injective (h : k.joined = l.joined) : k = l := by
  cases k <;> cases l <;> first | rfl | exact absurd h (by decide)

theorem parted_ne_joined : k.parted ≠ l.joined := by
  cases k <;> cases l <;> decide

/-- All keys of two words, in both spellings. -/
def spellings : List String :=
  [nullProbability, fromTable, fromColumn, joinOn, targetColumn, lookupColumn].flatMap fun k =>
    [k.parted, k.joined]

theorem mem_spellings (k : TwoWordKey) : k.parted ∈ spellings ∧ k.joined ∈ spellings := by
  cases k <;> simp [spellings]

end TwoWordKey

namespace Value

/-- The key with its words joined, if it is one of the chosen ones. -/
def respelledKey (chosen : List TwoWordKey) : Value → Value
  | text s => text (((chosen.find? (·.parted == s)).map TwoWordKey.joined).getD s)
  | key => key

/-- A mapping with the words of the chosen keys joined. -/
def respelledKeys (chosen : List TwoWordKey) : Value → Value
  | mapping entries => mapping (entries.map fun e => (e.1.respelledKey chosen, e.2))
  | v => v

/-- Whether a join stands under the key. -/
def isJoinKey (key : Value) : Bool :=
  (text TwoWordKey.joinOn.parted).same key || (text TwoWordKey.joinOn.joined).same key

/-- What stands under a key, with the words of the chosen keys joined in a join. -/
def respelledContent (chosen : List TwoWordKey) (key content : Value) : Value :=
  if key.isJoinKey then content.respelledKeys chosen else content

/-- The value with the words of the chosen keys joined, each where it has its place. -/
def respelled (chosen : List TwoWordKey) : Value → Value
  | mapping entries => mapping (entries.map fun e =>
      (e.1.respelledKey (chosen.filter (!·.inJoin)),
        e.1.respelledContent (chosen.filter (·.inJoin)) e.2))
  | v => v

/-- The mapping of a join, whichever way its key is spelled. -/
def join (v : Value) : Value :=
  (v.content? TwoWordKey.joinOn.parted).getD
    ((v.content? TwoWordKey.joinOn.joined).getD (mapping []))

/-- None of the chosen keys is there with its words joined. -/
def IsParted (chosen : List TwoWordKey) (v : Value) : Prop :=
  ∀ k ∈ chosen, (if k.inJoin then v.join else v).content? k.joined = none

section Keys

variable {chosen : List TwoWordKey} {k : TwoWordKey} {key : Value} {s : String}

theorem respelledKey_of_mem (h : k ∈ chosen) :
    (text k.parted).respelledKey chosen = text k.joined := by
  cases found : chosen.find? (·.parted == k.parted) with
  | none => exact absurd BEq.rfl (List.find?_eq_none.1 found k h)
  | some l =>
    have same := List.find?_some found
    obtain rfl := TwoWordKey.parted_injective (eq_of_beq same)
    rw [respelledKey, found, Option.map_some, Option.getD_some]

/-- Keys that are not among the chosen ones stay as they are. -/
theorem respelledKey_of_ne (h : ∀ k ∈ chosen, key ≠ text k.parted) :
    key.respelledKey chosen = key := by
  cases key with
  | text s =>
    have none : chosen.find? (·.parted == s) = none :=
      List.find?_eq_none.2 fun k hk same => h k hk (by rw [eq_of_beq same])
    rw [respelledKey, none, Option.map_none, Option.getD_none]
  | _ => rfl

theorem respelledKey_cases (chosen : List TwoWordKey) (key : Value) :
    (∃ k ∈ chosen, key = text k.parted ∧ key.respelledKey chosen = text k.joined) ∨
      (∀ k ∈ chosen, key ≠ text k.parted) ∧ key.respelledKey chosen = key := by
  by_cases h : ∃ k ∈ chosen, key = text k.parted
  · obtain ⟨k, hk, rfl⟩ := h
    exact .inl ⟨k, hk, rfl, respelledKey_of_mem hk⟩
  · have none : ∀ k ∈ chosen, key ≠ text k.parted := fun k hk same => h ⟨k, hk, same⟩
    exact .inr ⟨none, respelledKey_of_ne none⟩

/-- A chosen key is not there any more with its words parted. -/
theorem parted_ne_respelledKey (h : k ∈ chosen) : text k.parted ≠ key.respelledKey chosen := by
  rcases respelledKey_cases chosen key with ⟨l, _, _, spelled⟩ | ⟨other, spelled⟩
  · rw [spelled, ne_eq, text.injEq]
    exact TwoWordKey.parted_ne_joined
  · rw [spelled]
    exact (other k h).symm

/-- With its words joined a chosen key stands where it stood with its words parted. -/
theorem joined_eq_respelledKey_iff (h : k ∈ chosen) (absent : text k.joined ≠ key) :
    text k.joined = key.respelledKey chosen ↔ text k.parted = key := by
  rcases respelledKey_cases chosen key with ⟨l, _, rfl, spelled⟩ | ⟨other, spelled⟩
  · rw [spelled, text.injEq, text.injEq]
    exact ⟨fun same => congrArg _ (TwoWordKey.joined_injective same),
      fun same => congrArg _ (TwoWordKey.parted_injective same)⟩
  · rw [spelled]
    exact ⟨fun same => absurd same absent, fun same => absurd same.symm (other k h)⟩

/-- All other keys stand where they stood. -/
theorem text_eq_respelledKey_iff (h : ∀ k ∈ chosen, s ≠ k.parted ∧ s ≠ k.joined) :
    text s = key.respelledKey chosen ↔ text s = key := by
  rcases respelledKey_cases chosen key with ⟨l, hl, rfl, spelled⟩ | ⟨_, spelled⟩
  · rw [spelled, text.injEq, text.injEq]
    exact iff_of_false (h l hl).2 (h l hl).1
  · rw [spelled]

end Keys

section Contents

variable {chosen : List TwoWordKey} {entries : List (Value × Value)} {e : Value × Value}
  {k : TwoWordKey} {a b : String} {f : Value → Value} {g : Value → Value → Value}

theorem find?_cons_of_eq (h : text a = e.1) : find? (e :: entries) a = some e.2 := by
  rw [find?_cons, if_pos (text_same.2 h)]

theorem find?_cons_of_ne (h : text a ≠ e.1) : find? (e :: entries) a = find? entries a := by
  rw [find?_cons, if_neg (mt text_same.1 h)]

/-- What is found after the keys and contents of all entries were changed. -/
theorem find?_map (h : ∀ e ∈ entries, text a = f e.1 ↔ text b = e.1) :
    find? (entries.map fun e => (f e.1, g e.1 e.2)) a = (find? entries b).map (g (text b)) := by
  induction entries with
  | nil => rfl
  | cons e entries ih =>
    have rest := ih fun x hx => h x (List.mem_cons_of_mem _ hx)
    have first := h e List.mem_cons_self
    rw [List.map_cons]
    by_cases same : text b = e.1
    · rw [find?_cons_of_eq same, find?_cons_of_eq (first.2 same), same, Option.map_some]
    · rw [find?_cons_of_ne same, find?_cons_of_ne (mt first.1 same), rest]

theorem find?_eq_none_iff : find? entries a = none ↔ ∀ e ∈ entries, text a ≠ e.1 := by
  induction entries with
  | nil => simp [find?]
  | cons e entries ih =>
    rw [List.forall_mem_cons, ← ih]
    by_cases same : text a = e.1
    · simp [find?_cons_of_eq same, same]
    · simp [find?_cons_of_ne same, same]

/-- What is found after the chosen keys were respelled and contents changed. -/
structure Respells (chosen : List TwoWordKey) (g : Value → Value → Value)
    (entries entries' : List (Value × Value)) : Prop where
  parted : ∀ k ∈ chosen, find? entries' k.parted = none
  joined : ∀ k ∈ chosen, find? entries' k.joined =
    (find? entries k.parted).map (g (text k.parted))
  other : ∀ s, (∀ k ∈ chosen, s ≠ k.parted ∧ s ≠ k.joined) →
    find? entries' s = (find? entries s).map (g (text s))

theorem respells_map (h : ∀ k ∈ chosen, find? entries k.joined = none) :
    Respells chosen g entries
      (entries.map fun e => (e.1.respelledKey chosen, g e.1 e.2)) where
  parted := by
    intro k hk
    refine find?_eq_none_iff.2 fun e he => ?_
    obtain ⟨e, _, rfl⟩ := List.mem_map.1 he
    exact parted_ne_respelledKey hk
  joined := fun k hk => find?_map fun e he =>
    joined_eq_respelledKey_iff hk (find?_eq_none_iff.1 (h k hk) e he)
  other := fun s hs => find?_map fun e _ => text_eq_respelledKey_iff hs

variable {entries' : List (Value × Value)} (h : Respells chosen g entries entries')
include h

/-- A key of one spelling has what it had. -/
theorem Respells.plain (ha : a ∉ TwoWordKey.spellings) :
    find? entries' a = (find? entries a).map (g (text a)) := by
  refine h.other a fun k _ => ⟨?_, ?_⟩ <;> rintro rfl
  · exact ha k.mem_spellings.1
  · exact ha k.mem_spellings.2

/-- Both spellings of a key that was not chosen have what they had. -/
theorem Respells.unchosen (hk : k ∉ chosen) :
    find? entries' k.parted = (find? entries k.parted).map (g (text k.parted)) ∧
      find? entries' k.joined = (find? entries k.joined).map (g (text k.joined)) := by
  have apart : ∀ l ∈ chosen, k ≠ l := fun l hl same => hk (same ▸ hl)
  exact ⟨h.other _ fun l hl =>
      ⟨mt TwoWordKey.parted_injective (apart l hl), TwoWordKey.parted_ne_joined⟩,
    h.other _ fun l hl =>
      ⟨TwoWordKey.parted_ne_joined.symm, mt TwoWordKey.joined_injective (apart l hl)⟩⟩

/-- What is found under either spelling of a key is what was found there. -/
theorem Respells.either (absent : ∀ k ∈ chosen, find? entries k.joined = none)
    (alike : g (text k.joined) = g (text k.parted)) :
    (find? entries' k.parted).or (find? entries' k.joined) =
      ((find? entries k.parted).or (find? entries k.joined)).map (g (text k.parted)) := by
  by_cases hk : k ∈ chosen
  · rw [h.parted k hk, h.joined k hk, absent k hk, Option.none_or, Option.or_none]
  · obtain ⟨parted, joined⟩ := h.unchosen hk
    rw [parted, joined, alike, Option.map_or]

end Contents

end Value

/-- What a lookup takes from under a key: the name of a table or a column. -/
def Lookup.nameUnder? (l : Lookup) : TwoWordKey → Option Value
  | .fromTable => some l.fromTable
  | .fromColumn => some l.fromColumn
  | .targetColumn => some l.targetColumn
  | .lookupColumn => some l.lookupColumn
  | .nullProbability | .joinOn => none

namespace Document
open Value

variable {chosen : List TwoWordKey} {entries entries' : Entries} {k : TwoWordKey}
  {g : Value → Value → Value} {context : String} {v w default : Value}

theorem getD_getD : getD entries k.parted (getD entries k.joined default) =
    ((Value.find? entries k.parted).or (Value.find? entries k.joined)).getD default := by
  cases found : Value.find? entries k.parted <;> simp [getD, found]

/-- A name is taken from under the first spelling, empty or not, and else from under the second. -/
theorem requireEither_ok_iff :
    requireEither entries k.parted k.joined context = .ok w ↔
      Value.find? entries k.parted = some w ∨ Value.find? entries k.parted = none ∧
        Value.find? entries k.joined = some w ∧ w.isPresent = true := by
  simp only [requireEither, getD_getD]
  cases parted : Value.find? entries k.parted with
  | some v =>
    rw [Option.some_or, Option.getD_some, require, parted]
    split <;> simp
  | none =>
    have missing : require entries k.parted context ≠ .ok w := by simp [require_ok_iff, parted]
    cases joined : Value.find? entries k.joined with
    | none => simp [Value.isPresent, missing]
    | some v =>
      rw [Option.none_or, Option.getD_some]
      split
      · next present =>
        simp only [Except.ok.injEq, reduceCtorEq, Option.some.injEq, true_and, false_or]
        exact ⟨fun same => ⟨same, same ▸ present⟩, And.left⟩
      · next empty =>
        simp only [missing, reduceCtorEq, Option.some.injEq, true_and, false_or, false_iff]
        exact fun same => empty (same.1 ▸ same.2)

theorem readLookup_ok_iff {t : Transformation} : readLookup context entries = .ok t ↔
    ∃ j l, (Value.mapping entries).join = .mapping j ∧ t = .lookup l ∧
      Value.find? entries "column" = some l.column ∧
      requireEither entries "from_table" "fromTable" context = .ok l.fromTable ∧
      requireEither entries "from_column" "fromColumn" context = .ok l.fromColumn ∧
      requireEither j "target_column" "targetColumn" (context ++ " join_on") =
        .ok l.targetColumn ∧
      requireEither j "lookup_column" "lookupColumn" (context ++ " join_on") =
        .ok l.lookupColumn := by
  constructor
  · intro h
    obtain ⟨j, hj, h⟩ := except_ok_of_bind h
    obtain ⟨column, hc, h⟩ := except_ok_of_bind h
    obtain ⟨fromTable, hft, h⟩ := except_ok_of_bind h
    obtain ⟨fromColumn, hfc, h⟩ := except_ok_of_bind h
    obtain ⟨targetColumn, htc, h⟩ := except_ok_of_bind h
    obtain ⟨lookupColumn, hlc, h⟩ := except_ok_of_bind h
    cases h
    exact ⟨j, _, asMapping_ok_iff.1 hj, rfl, require_ok_iff.1 hc, hft, hfc, htc, hlc⟩
  · rintro ⟨j, l, hj, rfl, hc, hft, hfc, htc, hlc⟩
    have joins : asMapping (context ++ " join_on")
        (getD entries "join_on" (getD entries "joinOn" (.mapping []))) = .ok j :=
      asMapping_ok_iff.2 hj
    simp only [readLookup, joins, require_ok_iff.2 hc, hft, hfc, htc, hlc, except_ok_bind]
    rfl

section Respelled

variable (h : Respells chosen g entries entries')
  (absent : ∀ k ∈ chosen, Value.find? entries k.joined = none)
include h absent

/-- A name under a respelled key is found again if it is not empty. -/
theorem requireEither_respelled (same : ∀ v, g (.text k.parted) v = v)
    (alike : g (.text k.joined) = g (.text k.parted)) :
    requireEither entries' k.parted k.joined context = .ok w ↔
      requireEither entries k.parted k.joined context = .ok w ∧
        (k ∈ chosen → w.isPresent = true) := by
  have kept (x : Option Value) : x.map (g (.text k.parted)) = x := by
    cases x <;> simp [same]
  rw [requireEither_ok_iff, requireEither_ok_iff]
  by_cases hk : k ∈ chosen
  · rw [h.parted k hk, h.joined k hk, absent k hk, kept]
    simp [hk]
  · obtain ⟨parted, joined⟩ := h.unchosen hk
    rw [parted, joined, alike, kept, kept]
    simp [hk]

end Respelled

/-- The entries of a value with the words of the chosen keys joined. -/
abbrev respelledEntries (chosen : List TwoWordKey) (entries : Entries) : Entries :=
  entries.map fun e => (e.1.respelledKey (chosen.filter (!·.inJoin)),
    e.1.respelledContent (chosen.filter (·.inJoin)) e.2)

section Readers

variable (parted : (Value.mapping entries).IsParted chosen)
include parted

theorem absent_of_isParted :
    ∀ k ∈ chosen.filter (!·.inJoin), Value.find? entries k.joined = none := by
  intro k hk
  obtain ⟨hk, outside⟩ := List.mem_filter.1 hk
  have absent := parted k hk
  rwa [if_neg (by simpa using outside)] at absent

theorem respells_entries : Respells (chosen.filter (!·.inJoin))
    (respelledContent (chosen.filter (·.inJoin))) entries (respelledEntries chosen entries) :=
  respells_map (absent_of_isParted parted)

theorem join_respelled : (Value.mapping (respelledEntries chosen entries)).join =
    (Value.mapping entries).join.respelledKeys (chosen.filter (·.inJoin)) := by
  have either := (respells_entries parted).either (k := .joinOn) (absent_of_isParted parted) rfl
  change getD _ TwoWordKey.joinOn.parted (getD _ TwoWordKey.joinOn.joined _) =
    (getD entries TwoWordKey.joinOn.parted
      (getD entries TwoWordKey.joinOn.joined _)).respelledKeys _
  rw [getD_getD, getD_getD, either]
  cases (Value.find? entries TwoWordKey.joinOn.parted).or
      (Value.find? entries TwoWordKey.joinOn.joined) with
  | none => rfl
  | some v => rfl

/-- A name beside a join is found again if it is not empty. -/
theorem requireEither_entries (outside : k.inJoin = false) (single : k ≠ .joinOn) :
    requireEither (respelledEntries chosen entries) k.parted k.joined context = .ok w ↔
      requireEither entries k.parted k.joined context = .ok w ∧
        (k ∈ chosen → w.isPresent = true) := by
  have plain {s : String} (hs : (Value.text s).isJoinKey = false) :
      respelledContent (chosen.filter (·.inJoin)) (.text s) = id := by
    funext v
    simp [respelledContent, hs]
  obtain ⟨parted', joined'⟩ : (Value.text k.parted).isJoinKey = false ∧
      (Value.text k.joined).isJoinKey = false := by
    cases k <;> first | exact ⟨rfl, rfl⟩ | exact absurd rfl single
  rw [requireEither_respelled (respells_entries parted) (absent_of_isParted parted)
    (fun v => by rw [plain parted', id]) (by rw [plain parted', plain joined'])]
  simp [outside]

/-- A name in a join is found again if it is not empty. -/
theorem requireEither_join {j : Entries} (hj : (Value.mapping entries).join = .mapping j)
    (inside : k.inJoin = true) :
    requireEither (j.map fun e => (e.1.respelledKey (chosen.filter (·.inJoin)), e.2))
        k.parted k.joined context = .ok w ↔
      requireEither j k.parted k.joined context = .ok w ∧
        (k ∈ chosen → w.isPresent = true) := by
  have absent : ∀ k ∈ chosen.filter (·.inJoin), Value.find? j k.joined = none := by
    intro k hk
    obtain ⟨hk, inside⟩ := List.mem_filter.1 hk
    have absent := parted k hk
    rwa [if_pos inside, hj] at absent
  rw [requireEither_respelled (respells_map (g := fun _ v => v) absent) absent (fun _ => rfl) rfl]
  simp [inside]

/-- A lookup is read with its keys respelled exactly if it was read before with names that are not
empty under these keys. -/
theorem readLookup_respelled {t : Transformation} :
    readLookup context (respelledEntries chosen entries) = .ok t ↔
      readLookup context entries = .ok t ∧ ∀ l, t = .lookup l → ∀ k ∈ chosen, ∀ name,
        l.nameUnder? k = some name → name.isPresent = true := by
  have column : Value.find? (respelledEntries chosen entries) "column" =
      Value.find? entries "column" := by
    rw [(respells_entries parted).plain (by decide)]
    cases Value.find? entries "column" <;> rfl
  rw [readLookup_ok_iff, readLookup_ok_iff, column, join_respelled parted]
  constructor
  · rintro ⟨j', l, hj', rfl, hc, hft, hfc, htc, hlc⟩
    cases hj : (Value.mapping entries).join with
    | mapping j =>
      rw [hj] at hj'
      cases hj'
      obtain ⟨hft, ft⟩ := (requireEither_entries parted (k := .fromTable) rfl (by decide)).1 hft
      obtain ⟨hfc, fc⟩ := (requireEither_entries parted (k := .fromColumn) rfl (by decide)).1 hfc
      obtain ⟨htc, tc⟩ := (requireEither_join parted hj (k := .targetColumn) rfl).1 htc
      obtain ⟨hlc, lc⟩ := (requireEither_join parted hj (k := .lookupColumn) rfl).1 hlc
      refine ⟨⟨j, l, rfl, rfl, hc, hft, hfc, htc, hlc⟩, fun l' same k hk name hn => ?_⟩
      cases same
      cases k <;> cases hn
      · exact ft hk
      · exact fc hk
      · exact tc hk
      · exact lc hk
    | _ =>
      rw [hj] at hj'
      cases hj'
  · rintro ⟨⟨j, l, hj, rfl, hc, hft, hfc, htc, hlc⟩, filled⟩
    have filled (k : TwoWordKey) (name : Value) (hn : l.nameUnder? k = some name)
        (hk : k ∈ chosen) : name.isPresent = true := filled l rfl k hk name hn
    rw [hj]
    exact ⟨_, l, rfl, rfl, hc,
      (requireEither_entries parted (k := .fromTable) rfl (by decide)).2 ⟨hft, filled _ _ rfl⟩,
      (requireEither_entries parted (k := .fromColumn) rfl (by decide)).2 ⟨hfc, filled _ _ rfl⟩,
      (requireEither_join parted hj (k := .targetColumn) rfl).2 ⟨htc, filled _ _ rfl⟩,
      (requireEither_join parted hj (k := .lookupColumn) rfl).2 ⟨hlc, filled _ _ rfl⟩⟩

/-- A key of one spelling has what it had. -/
theorem find?_respelled {s : String} (single : s ∉ TwoWordKey.spellings) :
    Value.find? (respelledEntries chosen entries) s = Value.find? entries s := by
  have plain : (Value.text s).isJoinKey = false := by
    have apart (k : TwoWordKey) : k.parted ≠ s ∧ k.joined ≠ s :=
      ⟨fun same => single (same ▸ k.mem_spellings.1), fun same => single (same ▸ k.mem_spellings.2)⟩
    simp [isJoinKey, Value.same, apart]
  rw [(respells_entries parted).plain single]
  cases Value.find? entries s <;> simp [respelledContent, plain]

theorem require_respelled {s : String} (single : s ∉ TwoWordKey.spellings) :
    require (respelledEntries chosen entries) s context = require entries s context := by
  rw [require, require, find?_respelled parted single]

theorem getD_respelled {s : String} (single : s ∉ TwoWordKey.spellings) :
    getD (respelledEntries chosen entries) s default = getD entries s default := by
  rw [getD, getD, find?_respelled parted single]

/-- The share of nulls is found under either spelling. -/
theorem nullProbability_respelled :
    getD (respelledEntries chosen entries) "null_probability"
      (getD (respelledEntries chosen entries) "nullProbability" default) =
        getD entries "null_probability" (getD entries "nullProbability" default) := by
  have either := (respells_entries parted).either (k := .nullProbability)
    (absent_of_isParted parted) rfl
  change getD _ TwoWordKey.nullProbability.parted (getD _ TwoWordKey.nullProbability.joined _) =
    getD _ TwoWordKey.nullProbability.parted (getD _ TwoWordKey.nullProbability.joined _)
  rw [getD_getD, getD_getD, either]
  cases (Value.find? entries TwoWordKey.nullProbability.parted).or
      (Value.find? entries TwoWordKey.nullProbability.joined) <;> rfl

/-- A column is read from both spellings alike. -/
theorem readColumn_respelled : readColumn context (.mapping (respelledEntries chosen entries)) =
    readColumn context (.mapping entries) := by
  simp only [readColumn, asMapping, except_ok_bind, nullProbability_respelled parted,
    require_respelled parted (s := "name") (by decide),
    find?_respelled parted (s := "type") (by decide),
    require_respelled parted (s := "generator") (by decide),
    getD_respelled parted (s := "nullable") (by decide)]

/-- A transformation that is no lookup is read alike. -/
theorem readTransformation_respelled_of_ne
    (other : Value.find? entries "type" ≠ some (.text "lookup")) :
    readTransformation context (.mapping (respelledEntries chosen entries)) =
      readTransformation context (.mapping entries) := by
  simp only [readTransformation, asMapping, except_ok_bind,
    require_respelled parted (s := "type") (by decide)]
  cases kind : require entries "type" context with
  | error e => rfl
  | ok v =>
    rw [require_ok_iff] at kind
    have plain : v ≠ .text "lookup" := fun same => other (same ▸ kind)
    simp only [except_ok_bind, readMutation,
      require_respelled parted (s := "column") (by decide),
      require_respelled parted (s := "template") (by decide),
      require_respelled parted (s := "probability") (by decide),
      require_respelled parted (s := "column1") (by decide),
      require_respelled parted (s := "column2") (by decide),
      getD_respelled parted (s := "operations") (by decide),
      getD_respelled parted (s := "lowercase") (by decide)]
    split
    case h_3 named =>
      cases v with
      | text s => exact absurd (congrArg Value.text named) plain
      | _ => simp at named
    all_goals rfl

end Readers

theorem readTransformation_of_lookup (h : Value.find? entries "type" = some (.text "lookup")) :
    readTransformation context (.mapping entries) = readLookup context entries := by
  simp only [readTransformation, asMapping, except_ok_bind, require, h]

theorem ofMutation_ne_lookup {l : Lookup} {column p : Value} {edits : Option Value} :
    Transformation.ofMutation column p edits ≠ .ok (.lookup l) := by
  intro h
  obtain ⟨q, _, h⟩ := except_ok_of_bind h
  cases edits with
  | none => cases h
  | some given =>
    obtain ⟨items, _, h⟩ := except_ok_of_bind h
    obtain ⟨named, _, h⟩ := except_ok_of_bind h
    split at h
    · cases h
    · exact refuse_ne_ok h

theorem ofSwap_ne_lookup {l : Lookup} {first second p : Value} :
    Transformation.ofSwap first second p ≠ .ok (.lookup l) := by
  intro h
  obtain ⟨q, _, h⟩ := except_ok_of_bind h
  split at h
  · cases h
  · exact refuse_ne_ok h

/-- Only what is called a lookup is read as one. -/
theorem type_of_readTransformation {l : Lookup}
    (h : readTransformation context (.mapping entries) = .ok (.lookup l)) :
    Value.find? entries "type" = some (.text "lookup") := by
  obtain ⟨_, same, h⟩ := except_ok_of_bind h
  cases same
  obtain ⟨v, hv, h⟩ := except_ok_of_bind h
  rw [require_ok_iff] at hv
  dsimp only at h
  split at h
  case h_1 =>
    obtain ⟨column, _, h⟩ := except_ok_of_bind h
    obtain ⟨template, _, h⟩ := except_ok_of_bind h
    cases h
  case h_2 =>
    unfold readMutation at h
    split at h <;>
    · obtain ⟨edits, _, h⟩ := except_ok_of_bind h
      obtain ⟨column, _, h⟩ := except_ok_of_bind h
      obtain ⟨p, _, h⟩ := except_ok_of_bind h
      exact absurd h ofMutation_ne_lookup
  case h_3 named =>
    cases v with
    | text s => rw [hv, ← named]
    | _ => simp at named
  case h_4 =>
    obtain ⟨first, _, h⟩ := except_ok_of_bind h
    obtain ⟨second, _, h⟩ := except_ok_of_bind h
    obtain ⟨p, _, h⟩ := except_ok_of_bind h
    exact absurd h ofSwap_ne_lookup
  case h_5 => exact absurd h refuse_ne_ok

/-- What can be read with its keys respelled can be read as it was, with the same result; and the
other way round, if a lookup has no empty name under a respelled key. -/
theorem readTransformation_respelled {t : Transformation} (parted : v.IsParted chosen) :
    readTransformation context (v.respelled chosen) = .ok t ↔
      readTransformation context v = .ok t ∧ ∀ l, t = .lookup l → ∀ k ∈ chosen, ∀ name,
        l.nameUnder? k = some name → name.isPresent = true := by
  cases v with
  | mapping entries =>
    change readTransformation context (.mapping (respelledEntries chosen entries)) = _ ↔ _
    by_cases lookup : Value.find? entries "type" = some (.text "lookup")
    · rw [readTransformation_of_lookup lookup, readTransformation_of_lookup
        (by rw [find?_respelled parted (by decide), lookup]), readLookup_respelled parted]
    · rw [readTransformation_respelled_of_ne parted lookup]
      refine ⟨fun h => ⟨h, fun l same => ?_⟩, And.left⟩
      subst same
      exact absurd (type_of_readTransformation h) lookup
  | _ =>
    refine ⟨fun h => ?_, fun h => h.1⟩
    obtain ⟨_, same, _⟩ := except_ok_of_bind h
    cases asMapping_ok_iff.1 same

/-- Two readings end alike if they give the same result or none. -/
theorem toOption_eq_iff {α : Type} {x y : Except Error α} :
    x.toOption = y.toOption ↔ ∀ a, x = .ok a ↔ y = .ok a := by
  have ok_iff (z : Except Error α) (a : α) : z.toOption = some a ↔ z = .ok a := by
    cases z <;> simp [Except.toOption]
  simp only [Option.ext_iff, ok_iff]

/-- Columns are read from both spellings of their keys alike. Transformations are too, exactly if
they are no lookup with an empty name under a respelled key; such a lookup is read only from keys
whose words are parted. -/
theorem sameReading_iff_of_respelled (chosen : List TwoWordKey) (v : Value) (context : String)
    (parted : v.IsParted chosen) :
    readColumn context (v.respelled chosen) = readColumn context v ∧
      ((readTransformation context (v.respelled chosen)).toOption =
          (readTransformation context v).toOption ↔
        ∀ l, readTransformation context v = .ok (.lookup l) → ∀ k ∈ chosen, ∀ name,
          l.nameUnder? k = some name → name.isPresent = true) ∧
      ∀ t, readTransformation context (v.respelled chosen) = .ok t →
        readTransformation context v = .ok t := by
  refine ⟨?_, ?_, fun t h => ((readTransformation_respelled parted).1 h).1⟩
  · cases v with
    | mapping entries => exact readColumn_respelled parted
    | _ => rfl
  · rw [toOption_eq_iff]
    constructor
    · intro same l h
      exact ((readTransformation_respelled parted).1 ((same _).2 h)).2 l rfl
    · intro filled t
      rw [readTransformation_respelled parted]
      refine ⟨And.left, fun h => ⟨h, fun l same => ?_⟩⟩
      subst same
      exact filled l h

section Lodgers

/-- A lookup of a landlord, in a table with the given name. -/
def landlordLookup (table : Value) : Value :=
  .mapping [(.text "type", .text "lookup"), (.text "column", .text "landlord"),
    (.text "from_table", table), (.text "fromColumn", .text "owner"),
    (.text "join_on", .mapping [(.text "target_column", .text "house"),
      (.text "lookup_column", .text "number")])]

/-- The keys of the lookup that can be respelled. -/
def landlordKeys : List TwoWordKey := [.joinOn, .lookupColumn, .fromTable]

theorem landlordLookup_isParted (table : Value) :
    (landlordLookup table).IsParted landlordKeys := by
  intro k hk
  simp only [landlordKeys, List.mem_cons, List.not_mem_nil, or_false] at hk
  rcases hk with rfl | rfl | rfl <;> rfl

theorem landlordLookup_reads : readTransformation "lodgers" (landlordLookup (.text "houses")) =
    .ok (.lookup {
      column := .text "landlord", fromTable := .text "houses", fromColumn := .text "owner"
      targetColumn := .text "house", lookupColumn := .text "number" }) := rfl

theorem sameReading_of_landlordLookup :
    (landlordLookup (.text "houses")).IsParted landlordKeys ∧
      (readTransformation "lodgers" ((landlordLookup (.text "houses")).respelled
        landlordKeys)).toOption =
          (readTransformation "lodgers" (landlordLookup (.text "houses"))).toOption := by
  have parted := landlordLookup_isParted (.text "houses")
  refine ⟨parted, (sameReading_iff_of_respelled landlordKeys _ "lodgers" parted).2.1.2 ?_⟩
  intro l h k hk name hn
  rw [landlordLookup_reads] at h
  cases h
  simp only [landlordKeys, List.mem_cons, List.not_mem_nil, or_false] at hk
  rcases hk with rfl | rfl | rfl <;> cases hn <;> rfl

/-- The lookup in a table without a name is read, but not with the key of the table respelled. -/
theorem missed_emptyName : ¬∀ (chosen : List TwoWordKey) (v : Value) (context : String),
    v.IsParted chosen → (readTransformation context (v.respelled chosen)).toOption =
      (readTransformation context v).toOption := by
  intro claim
  have same := claim landlordKeys (landlordLookup (.text "")) "lodgers"
    (landlordLookup_isParted (.text ""))
  have read : (readTransformation "lodgers" (landlordLookup (.text ""))).toOption.isSome = true :=
    rfl
  have missed : (readTransformation "lodgers" ((landlordLookup (.text "")).respelled
      landlordKeys)).toOption.isSome = false := rfl
  rw [same, read] at missed
  cases missed

end Lodgers

end Document
end SyntheticRows
