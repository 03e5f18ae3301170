import SyntheticRows.Proofs.Lookup.Drawable
import SyntheticRows.Proofs.Lookup.Hoisted
import SyntheticRows.Proofs.Meaning.Pick

/-!
# Picks from lists, written out and looked up

Both ways to compile a random item of a list give the item at the place that is drawn. But they do
not compile for the same lists, since SQLite defines a list by its JSON text, and this exists for
other values than literals do.
-/
namespace SyntheticRows
open Sql

/-- What a definition gives under a name. -/
def Sql.Definition.resolve? (s : Site) : Definition → Path → Option Datum
  | counter _, _ => none
  | arrayRow name items, path =>
    if path = [.bare name, .bare "arr"] then (Expr.array items).value? s else none
  | jsonRow name payload, path =>
    if path = [.bare name, .bare "arr"] then payload.value? s else none
  | arrayName name items, path =>
    if path = [.bare name] then (Expr.brackets items).value? s else none

namespace Site

/-- A place where a definition stands before the expression. -/
def defining (s : Site) (definition : Option Definition) : Site :=
  { s with names := fun path => definition.bind (·.resolve? s path) }

/-- What the item at a place of a list stands for; an empty list gives null. -/
def listed? (s : Site) (vs : List Value) (k : ℕ) : Option Datum :=
  if vs.isEmpty then some .null
  else do return s.literal (← (Literal.ofValue (← vs[k]?)).toOption)

end Site

variable {s : Site} {e : Engine} {vs : List Value} {ls : List Literal} {tags tags' : Tags}
  {x : Expr} {definition : Option Definition} {name : String}

section Tables

theorem Table.keepFirst_nil :
    keepFirst [] vs = (fun name => [(name, vs)]) <$> lookupName vs := by
  rw [keepFirst]
  cases lookupName vs <;> rfl

/-- The only list of a table is the only one that is defined. -/
theorem Table.definitions_of_single {t : Table} (single : t.lookupLists = [vs]) (d : Dialect) :
    (t.lookups >>= fun lists => lists.mapM fun l => d.lookupDefinition l.1 l.2) =
      lookupName vs >>= fun name => List.singleton <$> d.lookupDefinition name vs := by
  rw [lookups_eq, single, List.foldlM_cons, keepFirst_nil]
  cases lookupName vs with
  | error _ => rfl
  | ok name =>
    change (d.lookupDefinition name vs >>= fun definition => pure [definition]) =
      List.singleton <$> d.lookupDefinition name vs
    cases d.lookupDefinition name vs <;> rfl

/-- An insert defines what a pick from its only list needs. -/
theorem Table.definitions_of_hoistedPick {t : Table} (single : t.lookupLists = [vs]) (hv : vs ≠ [])
    (h : (Generator.hoistedPick e vs).run tags = .ok ((definition, x), tags')) :
    (t.lookups >>= fun lists => lists.mapM fun l => (Dialect.of e).lookupDefinition l.1 l.2) =
      .ok definition.toList := by
  obtain ⟨payload, d, text, defined, rfl, _⟩ := ok_of_hoistedPick hv h
  rw [definitions_of_single single, lookupName_eq, text]
  change List.singleton <$> (Dialect.of e).lookupDefinition (digestName payload) vs = _
  rw [defined]
  rfl

end Tables

section Values

theorem exists_listed (literals : List.Forall₂ (fun v l => Literal.ofValue v = .ok l) vs ls)
    {k : ℕ} (hk : k < vs.length) :
    ∃ content, s.listed? vs k = some content ∧ (ls.map s.literal)[k]? = some content := by
  obtain ⟨l, there, literal⟩ := partner_at literals (List.getElem?_eq_getElem hk)
  have listed : vs.isEmpty = false := by
    rw [List.isEmpty_eq_false_iff]
    rintro rfl
    simp at hk
  refine ⟨s.literal l, ?_, by simp [there]⟩
  simp [Site.listed?, listed, hk, literal, Except.toOption]

/-- The place that is drawn is one of the list. -/
theorem exists_picked (literals : List.Forall₂ (fun v l => Literal.ofValue v = .ok l) vs ls)
    (hv : vs ≠ []) (tag : ℤ) :
    ∃ content, s.listed? vs (s.draws.place e vs.length tag) = some content ∧
      (ls.map s.literal)[s.draws.place e vs.length tag]? = some content :=
  exists_listed literals (s.draws.place_lt e (List.length_pos_iff.2 hv) tag)

/-- A pick from a list that is written out gives the item at the place that is drawn. -/
theorem value?_choice (he : s.engine = e)
    (h : (Generator.choiceExpr (.of e) vs).run tags = .ok (x, tags')) :
    ∃ content, s.listed? vs (s.draws.place e vs.length (tags.last + 1)) = some content ∧
      x.value? s = some content := by
  match vs with
  | [] =>
    cases h
    exact ⟨.null, rfl, Expr.value?_null⟩
  | [v] =>
    obtain ⟨made, _⟩ := Tagged.ok_of_lift h
    obtain ⟨l, literal, rfl⟩ := Dialect.literal_ok_iff.1 made
    obtain ⟨content, listed, there⟩ := exists_picked (s := s) (e := e)
      (.cons literal .nil) (by simp) (tags.last + 1)
    have first : s.draws.place e [v].length (tags.last + 1) = 0 :=
      Nat.lt_one_iff.1 (s.draws.place_lt e Nat.one_pos _)
    refine ⟨content, listed, ?_⟩
    rw [first] at there
    simpa [Expr.value?] using there
  | v :: w :: rest =>
    simp only [Generator.choiceExpr] at h
    rw [Tagged.mapM_lift] at h
    obtain ⟨items, between, first, drawing⟩ := Tagged.ok_of_bind h
    obtain ⟨made, same⟩ := Tagged.ok_of_lift first
    obtain ⟨tag, after, taken, picking⟩ := Tagged.ok_of_bind drawing
    obtain ⟨rfl, _⟩ := Tagged.ok_of_nextTag taken
    obtain ⟨ls, literals, rfl⟩ := Dialect.literals_ok_iff.1 made
    rw [← same]
    obtain ⟨content, listed, there⟩ := exists_picked (s := s) (e := e) literals (by simp)
      (between.last + 1)
    refine ⟨content, listed, ?_⟩
    by_cases sqlite : e = .sqlite
    · subst sqlite
      rw [if_pos rfl] at picking
      obtain ⟨draw, _, second, picking⟩ := Tagged.ok_of_bind picking
      obtain ⟨drawn, _⟩ := Tagged.ok_of_lift second
      cases picking
      have count : (v :: w :: rest).length = (ls.map Expr.literal).length := by
        rw [List.length_map, literals.length_eq]
      rw [count] at drawn there
      exact Dialect.value?_caseOf he (by rw [← count]; simp) Expr.values?_literals drawn there
    · have other : Dialect.of e ≠ .of .sqlite := by simpa using sqlite
      rw [if_neg other] at picking
      obtain ⟨picked, _⟩ := Tagged.ok_of_lift picking
      rw [Dialect.value?_pick he sqlite (by simp) picked, there]

/-- Where a list is defined, its name stands for the literals of its items. -/
theorem resolve?_array (hs : e ≠ .sqlite) :
    (s.defining (some (Dialect.arrayDefinition e name ls))).names (Dialect.arrayPath e name) =
      some (.list (ls.map s.literal)) := by
  have items : Expr.values? s (ls.map .literal) = some (ls.map s.literal) := Expr.values?_literals
  cases e with
  | sqlite => exact absurd rfl hs
  | postgresql | clickhouse | trino =>
    simp [Site.defining, Dialect.arrayDefinition, Dialect.arrayPath, Definition.resolve?,
      Expr.value?, items]

/-- On SQLite it stands for the JSON text of the list, and its items are read as their literals. -/
theorem reads_listed (literals : List.Forall₂ (fun v l => Literal.ofValue v = .ok l) vs ls)
    {payload : String}
    (written : Json.writeStrict (.list (vs.map Value.toJson)) = .ok payload) :
    ∃ texts, payload = "[" ++ Text.joined "," texts ++ "]" ∧
      List.Forall₂ (Json.Reads s.numerals) texts (ls.map (Literal.stored s.numerals)) := by
  obtain ⟨texts, each, rfl⟩ := Json.ok_of_write_list written
  rw [List.forall₂_map_left_iff] at each
  refine ⟨texts, rfl, ?_⟩
  rw [List.forall₂_map_right_iff]
  exact (pairing_comp.2 ⟨vs, each.flip, literals⟩).imp fun t l ⟨v, text, literal⟩ =>
    Json.reads_written literal text

/-- A pick from a list that is looked up gives the item at the place that is drawn, if the items are
literals. -/
theorem value?_hoistedPick (he : s.engine = e) (renderable : ∀ v ∈ vs, v.isRenderable = true)
    (h : (Generator.hoistedPick e vs).run tags = .ok ((definition, x), tags')) :
    ∃ content, s.listed? vs (s.draws.place e vs.length (tags.last + 1)) = some content ∧
      x.value? (s.defining definition) = some content := by
  by_cases hv : vs = []
  · subst hv
    cases h
    exact ⟨.null, rfl, Expr.value?_null⟩
  obtain ⟨payload, d, text, defined, rfl, picking⟩ := ok_of_hoistedPick hv h
  obtain ⟨name, named, picked⟩ := Tagged.ok_of_choiceByLookup hv picking
  obtain rfl : digestName payload = name := by
    rw [lookupName_eq, text] at named
    exact Except.ok.inj named
  by_cases sqlite : e = .sqlite
  · subst sqlite
    obtain ⟨ls, literals⟩ := pairing_of_forall fun v member =>
      isRenderable_iff.1 (renderable v member)
    obtain ⟨payload', nulFree, written, rfl⟩ := Dialect.lookupDefinition_sqlite.1 defined
    obtain ⟨texts, rfl, reads⟩ := reads_listed (s := s) literals written
    obtain ⟨content, item, there⟩ := exists_picked (s := s) (e := .sqlite) literals hv
      (tags.last + 1)
    have stored : s.literal = Literal.stored s.numerals := by
      funext l
      rw [Site.literal, if_pos he]
    rw [stored] at there
    refine ⟨content, item, ?_⟩
    refine Dialect.value?_lookupPick_sqlite (s := s.defining _) he (List.length_pos_iff.2 hv) ?_
      reads picked there
    simp [Site.defining, Definition.resolve?, Expr.value?, stored, Literal.stored]
  · obtain ⟨ls, literals, rfl⟩ := (Dialect.lookupDefinition_array sqlite).1 defined
    obtain ⟨content, item, there⟩ := exists_picked (s := s) (e := e) literals hv (tags.last + 1)
    refine ⟨content, item, ?_⟩
    have array : (s.defining (some (Dialect.arrayDefinition e (digestName payload) ls))).names
        (Dialect.arrayPath e (digestName payload)) = some (.list (ls.map s.literal)) :=
      resolve?_array sqlite
    have value := Dialect.value?_lookupPick (s := s.defining _) he sqlite (List.length_pos_iff.2 hv)
      array picked
    exact value.trans there

end Values

namespace Generator

/-- Which lists can be picked from in each of the two ways, what is said of the others, and which
item a pick gives. -/
theorem picks_agree (e : Engine) (vs : List Value) (tags : Tags) :
    ((∃ r, (choiceExpr (.of e) vs).run tags = .ok r) ↔
      (∀ v ∈ vs, v.isRenderable = true) ∧ e.CanDraw vs.length) ∧
    ((∃ r, (hoistedPick e vs).run tags = .ok r) ↔
      (∀ v ∈ vs, e.defines v = true) ∧ e.CanDraw vs.length) ∧
    (∀ err, (choiceExpr (.of e) vs).run tags = .error err → err.IsReport) ∧
    (∀ err, (hoistedPick e vs).run tags = .error err →
      ((∀ v ∈ vs, e.encodes v = true) → err.IsReport) ∧
        ((¬∀ v ∈ vs, e.encodes v = true) → ∀ cause, err ≠ .configuration cause)) ∧
    ∀ (s : Site) (x : Expr) (t : Tags), s.engine = e → (choiceExpr (.of e) vs).run tags = .ok (x, t) →
      ∃ content, s.listed? vs (s.draws.place e vs.length (tags.last + 1)) = some content ∧
        x.value? s = some content ∧
        ∀ definition y t', (hoistedPick e vs).run tags = .ok ((definition, y), t') →
          y.value? (s.defining definition) = some content := by
  refine ⟨choice_ok_iff, hoistedPick_ok_iff, fun _ => isReport_of_choice, fun _ failed => ?_, ?_⟩
  · exact ⟨isReport_of_hoistedPick failed, not_configuration_of_hoistedPick failed⟩
  · intro s x t he written
    obtain ⟨content, listed, value⟩ := value?_choice he written
    refine ⟨content, listed, value, fun definition y t' looked => ?_⟩
    have renderable := (choice_ok_iff.1 ⟨_, written⟩).1
    obtain ⟨content', listed', value'⟩ := value?_hoistedPick he renderable looked
    rw [value', ← listed', listed]

/-- A list of two suits on SQLite. -/
def suits : List Value := [.text "hearts", .text "spades"]

/-- SQLite's draws where it draws one. -/
def drawnOne : RawDraws where
  unit := 0
  word := 1
  tagged _ := 0
  below _ := 0
  unit_range := by norm_num
  word_range := by norm_num
  tagged_range _ := by norm_num
  below_range _ h := ⟨le_rfl, h⟩

def suitSite : Site := { engine := .sqlite, draws := drawnOne, numerals := .digits }

theorem spades_of_suits : ∃ x t definition y t',
    (choiceExpr (.of .sqlite) suits).run ⟨1, 0⟩ = .ok (x, t) ∧
    (hoistedPick .sqlite suits).run ⟨1, 0⟩ = .ok ((definition, y), t') ∧
    x.value? suitSite = some (.text "spades") ∧
    y.value? (suitSite.defining definition) = some (.text "spades") := by
  obtain ⟨written, looked, _, _, agree⟩ := picks_agree .sqlite suits ⟨1, 0⟩
  have canDraw : Engine.sqlite.CanDraw suits.length := ⟨by decide, fun _ => by decide⟩
  obtain ⟨⟨x, t⟩, hx⟩ := written.2 ⟨by decide, canDraw⟩
  obtain ⟨⟨⟨definition, y⟩, t'⟩, hy⟩ := looked.2 ⟨by decide, canDraw⟩
  obtain ⟨content, listed, value, value'⟩ := agree suitSite x t rfl hx
  have second : content = .text "spades" := Option.some.inj (listed.symm.trans rfl)
  subst second
  exact ⟨x, t, definition, y, t', hx, hy, value, value' _ _ _ hy⟩

/-- SQLite defines a list with a float that is no number, but it writes none out. -/
theorem defined_of_nan : ¬∀ e vs tags, (∃ r, (choiceExpr (.of e) vs).run tags = .ok r) ↔
    ∃ r, (hoistedPick e vs).run tags = .ok r := by
  intro claim
  have canDraw : Engine.sqlite.CanDraw [Value.float .nan].length := ⟨by decide, fun _ => by decide⟩
  have looked : ∃ r, (hoistedPick .sqlite [.float .nan]).run ⟨1, 0⟩ = .ok r :=
    hoistedPick_ok_iff.2 ⟨by decide, canDraw⟩
  have renderable := (choice_ok_iff.1 ((claim _ _ _).2 looked)).1
  exact absurd renderable (by decide)

end Generator

end SyntheticRows
