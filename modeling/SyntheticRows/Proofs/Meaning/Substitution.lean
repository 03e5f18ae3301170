import Mathlib.Data.List.TakeWhile
import SyntheticRows.Proofs.Meaning.Assignment
import SyntheticRows.Proofs.Value.Parts

/-!
# Templates as substitutions

A template is read from left to right. Where a pair of braces encloses one or more characters that
are no braces, this is a token; any other character stands for itself. The expression of a template
yields what is read with the tokens of known columns replaced.
-/
namespace SyntheticRows
open Sql

namespace Template

section Reading

variable {name rest after text : List Char} {ps ps' : List Piece}

/-- One or more characters that are no braces. -/
def IsName (name : List Char) : Prop := name ≠ [] ∧ ∀ c ∈ name, isBrace c = false

/-- The text begins with a token, after which it goes on. -/
def Opens (text name after : List Char) : Prop := IsName name ∧ text = braced name ++ after

/-- A text read from left to right: a token where one begins, and otherwise one character. -/
inductive Reading : List Char → List Piece → Prop
  | nil : Reading [] []
  | token {text name after : List Char} {ps : List Piece} :
    Opens text name after → Reading after ps → Reading text (.placeholder name :: ps)
  | character {c : Char} {rest : List Char} {ps : List Piece} :
    (∀ name after, ¬Opens (c :: rest) name after) → Reading rest ps →
    Reading (c :: rest) (.text [c] :: ps)

theorem braced_append : braced name ++ after = '\x7b' :: (name ++ '\x7d' :: after) := by
  simp [braced]

theorem isBrace_close : isBrace '\x7d' = true := by decide

/-- A name ends where the next brace is. -/
theorem span_name (named : IsName name) (after : List Char) :
    (name ++ '\x7d' :: after).takeWhile (!isBrace ·) = name ∧
      (name ++ '\x7d' :: after).dropWhile (!isBrace ·) = '\x7d' :: after := by
  have plain : ∀ c ∈ name, (!isBrace c) = true := fun c hc => by simp [named.2 c hc]
  constructor
  · rw [List.takeWhile_append_of_pos plain]
    simp [isBrace_close]
  · rw [List.dropWhile_append_of_pos plain]
    simp [isBrace_close]

theorem closing?_eq_some :
    closing? rest = some (name, after) ↔ IsName name ∧ rest = name ++ '\x7d' :: after := by
  constructor
  · intro h
    simp only [closing?] at h
    split at h
    · next found hd =>
      split at h
      · cases h
      · next some =>
        cases h
        refine ⟨⟨fun none => some (List.isEmpty_iff.2 none), fun c hc => ?_⟩, ?_⟩
        · have plain := List.mem_takeWhile_imp hc
          simpa using plain
        · rw [← hd, List.takeWhile_append_dropWhile]
    · cases h
  · rintro ⟨named, rfl⟩
    obtain ⟨taken, dropped⟩ := span_name named after
    have filled : name.isEmpty = false := by simpa using named.1
    simp [closing?, taken, dropped, filled]

/-- A token begins with an opening brace. -/
theorem opens_cons_iff {c : Char} : Opens (c :: rest) name after ↔
    c = '\x7b' ∧ closing? rest = some (name, after) := by
  rw [closing?_eq_some, Opens, braced_append, List.cons.injEq]
  exact and_left_comm

theorem pieces_of_opens (h : Opens text name after) :
    pieces text = .placeholder name :: pieces after := by
  obtain ⟨named, rfl⟩ := h
  have closed : closing? (name ++ '\x7d' :: after) = some (name, after) :=
    closing?_eq_some.2 ⟨named, rfl⟩
  rw [braced_append, pieces, if_pos rfl]
  split
  · next found => simp_all
  · next none => simp_all

theorem pieces_of_not_opens {c : Char} (h : ∀ name after, ¬Opens (c :: rest) name after) :
    pieces (c :: rest) = .text [c] :: pieces rest := by
  simp only [opens_cons_iff, not_and] at h
  rw [pieces]
  split
  · next brace =>
    split
    · next name after found => exact (h name after brace found).elim
    · rfl
  · rfl

/-- Every text is read in one way. -/
theorem reading_iff : Reading text ps ↔ ps = pieces text := by
  constructor
  · intro h
    induction h with
    | nil => rw [pieces]
    | token opens _ ih => rw [pieces_of_opens opens, ih]
    | character other _ ih => rw [pieces_of_not_opens other, ih]
  · rintro rfl
    induction h : text.length using Nat.strong_induction_on generalizing text with
    | _ n ih =>
      cases text with
      | nil =>
        rw [pieces]
        exact .nil
      | cons c rest =>
        by_cases token : ∃ name after, Opens (c :: rest) name after
        · obtain ⟨name, after, opens⟩ := token
          have shorter : after.length < n := by
            rw [← h, opens.2]
            simp [braced]
            omega
          rw [pieces_of_opens opens]
          exact .token opens (ih _ shorter rfl)
        · have other : ∀ name after, ¬Opens (c :: rest) name after :=
            fun name after opens => token ⟨name, after, opens⟩
          rw [pieces_of_not_opens other]
          exact .character other (ih _ (by rw [← h, List.length_cons]; omega) rfl)

/-- The characters that a piece was read from. -/
def source : Piece → List Char
  | .text content => content
  | .placeholder name => braced name

/-- Nothing is lost or doubled. -/
theorem Reading.flatMap_source (h : Reading text ps) : ps.flatMap source = text := by
  induction h with
  | nil => rfl
  | token opens _ ih => rw [List.flatMap_cons, ih, opens.2, source]
  | character _ _ ih => rw [List.flatMap_cons, ih, source, List.singleton_append]

theorem Reading.isName (h : Reading text ps) (hp : .placeholder name ∈ ps) : IsName name := by
  induction h with
  | nil => cases hp
  | token opens _ ih =>
    rcases List.mem_cons.1 hp with same | later
    · cases same
      exact opens.1
    · exact ih later
  | character _ _ ih =>
    rcases List.mem_cons.1 hp with same | later
    · cases same
    · exact ih later

/-- Texts that are put together keep their characters. -/
theorem flatMap_source_resolve (columns : List Value) (ps : List Piece) :
    (resolve columns ps).flatMap source = ps.flatMap source := by
  have prepended (p : Piece) (more : List Piece) :
      (prepend p more).flatMap source = source p ++ more.flatMap source := by
    unfold prepend
    split <;> simp [source]
  have same (p : Piece) : source (settled columns p) = source p := by
    cases p with
    | text content => rfl
    | placeholder name =>
      simp only [settled]
      split <;> rfl
  induction ps with
  | nil => rfl
  | cons p ps ih => rw [resolve_cons, prepended, same, ih, List.flatMap_cons]

end Reading

section Substituted

variable {R : Rules} {columns : List Value} {row : Row} {ps : List Piece} {name : String}

/-- The names in the tokens, in order and with repeats. -/
def tokens (ps : List Piece) : List String :=
  ps.filterMap fun
    | .placeholder name => some (String.ofList name)
    | .text _ => none

/-- The columns that are referred to. -/
def known (columns : List Value) (ps : List Piece) : List String :=
  (tokens ps).filter fun name => (Value.text name).memberOf columns

/-- The tokens that name no column, in order and with repeats. -/
def unknown (columns : List Value) (ps : List Piece) : List String :=
  (tokens ps).filter fun name => !(Value.text name).memberOf columns

/-- The text that is put for a piece: the text of the column if it names one, and otherwise the
piece as it was read. -/
def put (R : Rules) (columns : List Value) (row : Row) : Piece → String
  | .text content => String.ofList content
  | .placeholder name =>
    if (Value.text (String.ofList name)).memberOf columns
    then R.toText ((row (String.ofList name)).getD .null)
    else String.ofList (braced name)

/-- What a reading stands for in a row: null if a column referred to is null, and otherwise what is
put for the pieces one after the other, in lower case if asked for. -/
def substituted (R : Rules) (columns : List Value) (row : Row) (lowercase : Bool)
    (ps : List Piece) : Datum :=
  if (known columns ps).any fun name => ((row name).getD .null).isNull then .null
  else
    let text := String.join (ps.map (put R columns row))
    .text (if lowercase then R.lower text else text)

theorem unknownNames_eq : unknownNames columns ps = unknown columns ps := by
  unfold unknownNames unknown tokens
  rw [List.filter_filterMap]
  refine List.filterMap_congr fun p _ => ?_
  cases p with
  | text content => rfl
  | placeholder name =>
    cases hc : isColumn columns name <;> simp_all [isColumn, Option.filter]

theorem reads_eq {text : List Char} : reads columns text = known columns (pieces text) := by
  unfold reads known tokens
  rw [List.filter_filterMap]
  refine List.filterMap_congr fun p _ => ?_
  cases p with
  | text content => rfl
  | placeholder name =>
    cases hc : isColumn columns name <;> simp_all [isColumn, Option.filter]

/-- A column that is referred to and null. -/
def blank (columns : List Value) (row : Row) : Piece → Bool
  | .text _ => false
  | .placeholder name => (Value.text (String.ofList name)).memberOf columns &&
    ((row (String.ofList name)).getD .null).isNull

theorem any_known : ((known columns ps).any fun name => ((row name).getD .null).isNull) =
    ps.any (blank columns row) := by
  unfold known tokens
  rw [List.any_filter, List.any_filterMap]
  congr 1
  funext p
  cases p <;> rfl

theorem pieceText_eq (p : Piece) : pieceText R columns row p =
    if blank columns row p then none else some (put R columns row p) := by
  cases p with
  | text content => rfl
  | placeholder name =>
    by_cases hc : (Value.text (String.ofList name)).memberOf columns = true
    · generalize hx : (row (String.ofList name)).getD .null = x
      cases x <;> simp [pieceText, blank, put, isColumn, hc, hx, Rules.text?, Datum.isNull]
    · simp [pieceText, blank, put, isColumn, hc]

theorem joined_pieceText : joined (ps.map (pieceText R columns row)) =
    if ps.any (blank columns row) then none
    else some (String.join (ps.map (put R columns row))) := by
  induction ps with
  | nil => rfl
  | cons p ps ih =>
    rw [List.map_cons, joined, ih, pieceText_eq, List.any_cons]
    by_cases hp : blank columns row p = true
    · simp [hp]
    · by_cases hps : ps.any (blank columns row) = true
      · simp [hp, hps]
      · simp [hp, hps, String.join_cons]

/-- The content of a template is what its reading stands for. -/
theorem content_eq {text : List Char} {lowercase : Bool} (h : Reading text ps) :
    content R columns row lowercase text = substituted R columns row lowercase ps := by
  rw [content, ← reading_iff.1 h, joined_pieceText, substituted, any_known]
  by_cases null : ps.any (blank columns row) = true
  · simp [null, Datum.ofText?]
  · cases lowercase <;> simp [null, Datum.ofText?]

end Substituted
end Template

section Conclusions

variable {α β : Type} {x : Warned α} {f : α → Warned β} {a : α} {r : Except Error β}

/-- The compilation ends so, whatever was warned of before. -/
def Concludes (x : Warned α) (r : Except Error α) : Prop := ∀ w, ∃ w', x.run.run w = (r, w')

theorem Concludes.result {r : Except Error α} (h : Concludes x r) : x.result = r := by
  obtain ⟨w, h⟩ := h []
  rw [Warned.result, h]

theorem Concludes.pure (a : α) : Concludes (pure a) (.ok a) := fun w => ⟨w, rfl⟩

theorem Concludes.throw (e : Error) : Concludes (throw e : Warned α) (.error e) := fun w => ⟨w, rfl⟩

theorem Concludes.lift {y : Except Error α} {r : Except Error α} (h : y = r) :
    Concludes (liftM y : Warned α) r := fun w => ⟨w, by rw [h]; rfl⟩

theorem Concludes.warn (message : String) : Concludes (warn message) (.ok ()) := fun _ => ⟨_, rfl⟩

theorem Concludes.bind (hx : Concludes x (.ok a)) (hf : Concludes (f a) r) :
    Concludes (x >>= f) r := by
  intro w
  obtain ⟨w₁, first⟩ := hx w
  obtain ⟨w₂, rest⟩ := hf w₁
  refine ⟨w₂, ?_⟩
  change ExceptT.bind x f w = _
  change x w = _ at first
  simp only [ExceptT.bind, ExceptT.mk, Bind.bind, StateT.bind, first]
  exact rest

theorem Concludes.bind_error {e : Error} (hx : Concludes x (.error e)) :
    Concludes (x >>= f) (.error e) := by
  intro w
  obtain ⟨w₁, first⟩ := hx w
  refine ⟨w₁, ?_⟩
  change ExceptT.bind x f w = _
  change x w = _ at first
  simp only [ExceptT.bind, ExceptT.mk, Bind.bind, StateT.bind, first]
  rfl

theorem Concludes.mapM {l : List α} {bs : List β} {f : α → Except Error β}
    (h : List.Forall₂ (fun a b => f a = .ok b) l bs) :
    Concludes (l.mapM fun a => (liftM (f a) : Warned β)) (.ok bs) := by
  induction h with
  | nil => exact .pure []
  | cons first _ ih =>
    rw [List.mapM_cons]
    exact .bind (.lift first) (.bind ih (.pure _))

end Conclusions

theorem Value.shown_of_isWritable {v : Value} (h : v.isWritable = true) :
    v.shown = .ok v.display := by
  simp [Value.shown, writable, h]

namespace Template

section Compiled

variable {R : Rules} {env : Env} {row : Row} {e : Engine} {columns : List Value} {table : Value}
  {ref : Value → Except Error Expr} {tr : Template} {text : String} {ps : List Piece}

theorem literal_ok (e : Engine) {s : String} (nulFree : '\x00' ∉ s.toList) :
    ∃ x, (Dialect.of e).literal (.text s) = .ok x := by
  refine ⟨.literal (.text s nulFree), ?_⟩
  simp [Dialect.literal, Dialect.speaking, Dialect.engine, Literal.ofValue, Literal.ofText, nulFree]
  rfl

theorem concat_ok (e : Engine) (parts : List Expr) :
    ∃ x, (Dialect.of e).concat parts = .ok x := by
  cases parts with
  | nil => exact literal_ok e (s := "") (by simp)
  | cons first rest => exact ⟨_, rfl⟩

/-- Columns whose names can stand in a statement are in the row and can be referred to. -/
def Reaches (columns : List Value) (row : Row) (ref : Value → Except Error Expr) : Prop :=
  ∀ name, (Value.text name).memberOf columns = true → name ≠ "" → '\x00' ∉ name.toList →
    (∃ x, ref (.text name) = .ok x) ∧ (row name).isSome

/-- What is in a token can stand in a statement as a name. -/
theorem Reading.name_ok {name : List Char} (h : Reading text.toList ps)
    (nulFree : '\x00' ∉ text.toList) (hp : .placeholder name ∈ ps) :
    String.ofList name ≠ "" ∧ '\x00' ∉ (String.ofList name).toList := by
  constructor
  · intro empty
    have none := congrArg String.toList empty
    rw [String.toList_ofList] at none
    exact (h.isName hp).1 none
  · rw [String.toList_ofList]
    intro nul
    rw [← h.flatMap_source] at nulFree
    exact nulFree (List.mem_flatMap.2 ⟨_, hp, by simp [source, braced, nul]⟩)

/-- The pieces of a template without NUL compile one by one. -/
theorem pieceExpr_ok (e : Engine) (reaches : Reaches columns row ref)
    (nulFree : '\x00' ∉ text.toList) (reading : Reading text.toList ps) {p : Piece}
    (hp : p ∈ resolve columns ps) : ∃ x, pieceExpr (.of e) ref p = .ok x := by
  cases p with
  | text content =>
    refine literal_ok e fun nul => nulFree ?_
    rw [String.toList_ofList] at nul
    rw [← reading.flatMap_source, ← flatMap_source_resolve columns]
    exact List.mem_flatMap.2 ⟨_, hp, nul⟩
  | placeholder name =>
    obtain ⟨there, column⟩ := mem_resolve.1 hp
    obtain ⟨filled, clean⟩ := reading.name_ok nulFree there
    obtain ⟨⟨x, hx⟩, _⟩ := reaches _ column filled clean
    refine ⟨(Dialect.of e).textCast x, ?_⟩
    rw [pieceExpr, hx]
    rfl

/-- Where no token is unknown, or unknown ones are kept, the pieces are compiled and put
together. -/
theorem expression_concludes {e : Engine} {strict : Bool} {parts : List Expr} {y : Expr}
    (given : tr.template = .text text) (named : table.isWritable = true)
    (column : tr.column.isWritable = true)
    (allowed : strict = true → unknownNames columns (pieces text.toList) = [])
    (compiled : List.Forall₂ (fun p x => pieceExpr (.of e) ref p = .ok x)
      (resolve columns (pieces text.toList)) parts)
    (whole : (Dialect.of e).concat parts = .ok y) :
    Concludes (tr.expression (.of e) table columns strict ref)
      (.ok (if tr.lowercase then (Dialect.of e).lower y else y)) := by
  unfold expression
  rw [given]
  refine .bind (.pure text.toList) ?_
  have finish : Concludes (do
      let parts ← (resolve columns (pieces text.toList)).mapM fun p =>
        liftM (pieceExpr (.of e) ref p)
      let x ← (Dialect.of e).concat parts
      return if tr.lowercase then (Dialect.of e).lower x else x)
      (.ok (if tr.lowercase then (Dialect.of e).lower y else y)) :=
    .bind (.mapM compiled) (.bind (.lift whole) (.pure _))
  by_cases none : unknownNames columns (pieces text.toList) = []
  · simpa only [none, List.isEmpty_nil, Bool.not_true, Bool.false_eq_true, if_false] using finish
  · have lenient : ¬strict = true := fun strict => none (allowed strict)
    simp only [← Bool.not_eq_true, List.isEmpty_iff, none, lenient, Bool.not_eq_true']
    refine .bind (.lift (Value.shown_of_isWritable named)) ?_
    refine .bind (.lift (Value.shown_of_isWritable column)) ?_
    exact .bind (.warn _) finish

theorem expression_refused {e : Engine} (given : tr.template = .text text)
    (named : table.isWritable = true) (some : unknownNames columns (pieces text.toList) ≠ []) :
    Concludes (tr.expression (.of e) table columns true ref)
      (.error (.unknownPlaceholders table (.text text)
        (unknownNames columns (pieces text.toList)))) := by
  unfold expression
  rw [given]
  refine .bind (.pure text.toList) ?_
  simp only [← Bool.not_eq_true, List.isEmpty_iff, some, Bool.not_eq_true', if_true]
  exact .bind (.lift (Value.shown_of_isWritable named)) (.bind_error (.throw _))

theorem reaches_plainRef {t : Target} (speaks : t.dialect = .of e)
    (all : ∀ name, (Value.text name).memberOf columns = true → (row name).isSome) :
    Reaches columns row t.plainRef := by
  intro name column filled clean
  refine ⟨⟨.name [.given ⟨name, filled, clean⟩], ?_⟩, all name column⟩
  simp [Target.plainRef, Target.ident, speaks, Dialect.ident, Dialect.speaking, Dialect.engine,
    Ident.ofValue, filled, clean]
  rfl

/-- There is one way to read a template, and over a row whose columns can be referred to its
expression yields what is read with known columns substituted. Strict templates are refused exactly
if a token is unknown, and the error lists all of these. -/
theorem expression_substitutes (e : Engine) (given : tr.template = .text text)
    (nulFree : '\x00' ∉ text.toList) (named : table.isWritable = true)
    (column : tr.column.isWritable = true) (refers : Refers R env row ref)
    (reaches : Reaches columns row ref) :
    ∃ ps, (∀ ps', Reading text.toList ps' ↔ ps' = ps) ∧
      (∀ strict, (strict = true → unknown columns ps = []) →
        ∃ x, (tr.expression (.of e) table columns strict ref).result = .ok x ∧
          Denotes R env x (some (substituted R columns row tr.lowercase ps))) ∧
      (unknown columns ps ≠ [] →
        (tr.expression (.of e) table columns true ref).result =
          .error (.unknownPlaceholders table tr.template (unknown columns ps))) := by
  have reading : Reading text.toList (pieces text.toList) := reading_iff.2 rfl
  refine ⟨pieces text.toList, fun _ => reading_iff, fun strict allowed => ?_, fun some => ?_⟩
  · obtain ⟨parts, compiled⟩ :=
      pairing_of_forall fun p hp => pieceExpr_ok e reaches nulFree reading hp
    obtain ⟨y, whole⟩ := concat_ok e parts
    rw [← unknownNames_eq] at allowed
    have concluded := expression_concludes given named column allowed compiled whole
    refine ⟨_, concluded.result, ?_⟩
    have means : ∀ c x, ref (.text c) = .ok x → Denotes R env x (row c) := by
      intro c x hx
      obtain ⟨_, same, denotes⟩ := refers _ x hx
      cases same
      exact denotes
    obtain ⟨_, same, whole, _⟩ := expression_denotes means (returns_of_result concluded.result)
    cases given.symm.trans same
    rw [← content_eq reading]
    refine whole fun name hname => ?_
    obtain ⟨cs, hcs, rfl⟩ := mem_reads.1 hname
    obtain ⟨there, column⟩ := mem_resolve.1 hcs
    obtain ⟨filled, clean⟩ := reading.name_ok nulFree there
    exact (reaches _ column filled clean).2
  · rw [← unknownNames_eq] at some ⊢
    rw [given]
    exact (expression_refused given named some).result

/-- A row with two columns. -/
def letters : Row
  | "a" => some (.text "x")
  | "b" => some (.text "y")
  | _ => none

def lettersEnv : Env where
  resolve
    | [.given i] => letters i.name
    | _ => none
  tables := fun _ => none
  rand := fun _ => 0

def lettersTarget : Target := { dialect := .of .trino }

theorem reaches_letters :
    Reaches [.text "a", .text "b"] letters lettersTarget.plainRef := by
  refine reaches_plainRef rfl fun name column => ?_
  rw [Value.memberOf_text, List.mem_pair, Value.text.injEq, Value.text.injEq] at column
  rcases column with rfl | rfl <;> rfl

/-- Tokens of both columns, an unknown one, and braces that belong to no token. -/
def bracesText : String := "\x7ba\x7d-\x7bzz\x7d\x7b\x7d\x7b\x7bb\x7d!"

def bracesTemplate : Template := { column := .text "a", template := .text bracesText }

/-- Only the tokens of the columns are replaced, and a strict template names the other one. -/
theorem expression_of_braces : bracesTemplate.template = .text bracesText ∧
    '\x00' ∉ bracesText.toList ∧ (Value.text "t").isWritable = true ∧
    bracesTemplate.column.isWritable = true ∧
    Refers (.plain .trino) lettersEnv letters lettersTarget.plainRef ∧
    Reaches [.text "a", .text "b"] letters lettersTarget.plainRef ∧
    (∃ x, (bracesTemplate.expression (.of .trino) (.text "t") [.text "a", .text "b"] false
        lettersTarget.plainRef).result = .ok x ∧
      Denotes (.plain .trino) lettersEnv x (some (.text "x-\x7bzz\x7d\x7b\x7d\x7by!"))) ∧
    (bracesTemplate.expression (.of .trino) (.text "t") [.text "a", .text "b"] true
        lettersTarget.plainRef).result =
      .error (.unknownPlaceholders (.text "t") bracesTemplate.template ["zz"]) := by
  have named : (Value.text "t").isWritable = true := rfl
  have column : bracesTemplate.column.isWritable = true := rfl
  have clean : '\x00' ∉ bracesText.toList := by decide
  have refers : Refers (.plain .trino) lettersEnv letters lettersTarget.plainRef :=
    refers_plainRef fun _ => rfl
  obtain ⟨ps, reading, kept, refused⟩ :=
    expression_substitutes .trino rfl clean named column refers reaches_letters
  obtain rfl := (reading _).1 (reading_iff.2 rfl)
  have others : unknown [.text "a", .text "b"] (pieces bracesText.toList) = ["zz"] := by
    decide +kernel
  have filled : ((known [.text "a", .text "b"] (pieces bracesText.toList)).any
      fun name => ((letters name).getD .null).isNull) = false := by decide +kernel
  have text : String.join ((pieces bracesText.toList).map
      (put (.plain .trino) [.text "a", .text "b"] letters)) = "x-\x7bzz\x7d\x7b\x7d\x7by!" := by
    decide +kernel
  rw [others] at refused
  obtain ⟨x, compiled, denotes⟩ := kept false nofun
  refine ⟨rfl, clean, named, column, refers, reaches_letters, ⟨x, compiled, denotes.congr ?_⟩,
    refused (by simp)⟩
  rw [substituted, filled, text]
  rfl

end Compiled
end Template
end SyntheticRows
