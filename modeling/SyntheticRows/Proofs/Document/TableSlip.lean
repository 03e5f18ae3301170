import SyntheticRows.Proofs.Document.Reference
import SyntheticRows.Proofs.Document.Refusal

/-!
# Slips in table declarations

Where the declaration of a table has a content that no reader checks: values to choose from that
cannot be gone through, numbers beyond all doubles, points in time beyond the calendar, a column
without a type, and column names that cannot be compared.
-/
namespace SyntheticRows

/-- The point in time that a value stands for. -/
def Value.moment? : Value → Option DateTime
  | .datetime t => some t
  | .date d => some (.ofDate d)
  | .text s => DateTime.ofIso? s
  | _ => none

/-- The probability of nulls in a column, under either spelling. -/
def Value.nullProbability (v : Value) : Value :=
  (v.content? "null_probability").getD ((v.content? "nullProbability").getD (.float .zero))

namespace Document

/-- How the reader of a generator slips. -/
inductive GeneratorSlip (v : Value) : Error → Prop
  | noItems {kind given} : kind = "choice" ∨ kind = "choiceByLookup" →
    v.content? "type" = some (.text kind) → v.content? "values" = some given →
    given.items? = none → GeneratorSlip v .wrongKind
  | hugeMin {low high} : v.content? "type" = some (.text "randomFloat") →
    v.content? "min" = some low → v.content? "max" = some high → low.IsHuge →
    GeneratorSlip v .numberTooLarge
  | hugeMax {low high} : v.content? "type" = some (.text "randomFloat") →
    v.content? "min" = some (.ofNumber low) → low.isFinite = true →
    v.content? "max" = some high → high.IsHuge → GeneratorSlip v .numberTooLarge
  | farMoment {start stop} : v.content? "type" = some (.text "datetime") →
    ((v.content? "from").getD (.text "2020-01-01")).moment? = some start →
    ((v.content? "to").getD .null).moment? = some stop →
    start.naiveUtc? = none ∨ stop.naiveUtc? = none → GeneratorSlip v .dateTooFar

/-- How the reader of a column slips. -/
inductive ColumnSlip (context : String) (v : Value) : Error → Prop
  | untyped {name} : v.content? "name" = some name → name.isWritable = true →
    v.content? "type" = none → ColumnSlip context v .missingEntry
  | generator {name type given e} : v.content? "name" = some name → name.isWritable = true →
    v.content? "type" = some (.text type) → (ColumnType.ofName? type).isSome = true →
    v.content? "generator" = some given → GeneratorSlip given e → ColumnSlip context v e
  | hugeProbability {name type given g} : v.content? "name" = some name →
    name.isWritable = true → v.content? "type" = some (.text type) →
    (ColumnType.ofName? type).isSome = true → v.content? "generator" = some given →
    readGenerator (context ++ " " ++ name.display ++ " generator") given = .ok g →
    name.isPresent = true → v.nullProbability.IsHuge → ColumnSlip context v .numberTooLarge

/-- How the reader of a table slips. -/
inductive TableSlip (default v : Value) : Error → Prop
  | column {name items e} : (v.content? "name").getD default = name → name.isPresent = true →
    name.isWritable = true → v.content? "columns" = some (.list items) →
    Slips.AtFirst (readColumn ("table " ++ name.display ++ " column"))
      (ColumnSlip ("table " ++ name.display ++ " column")) items e → TableSlip default v e
  | noKey {name items columns n} : (v.content? "name").getD default = name →
    name.isPresent = true → name.isWritable = true → v.content? "columns" = some (.list items) →
    items.mapM (readColumn ("table " ++ name.display ++ " column")) = .ok columns →
    columns ≠ [] → Table.nameProblem? name [] (columns.map Column.name) = some (.notKey n) →
    TableSlip default v (.notKey n)

variable {w : Prop} {v : Value} {entries : Entries} {context key : String} {e : Error}

theorem require_slips : Slips.Never w (require entries key context) := by
  unfold require
  split
  · exact Slips.ok _
  · exact Slips.refuse fun _ => rfl

theorem asMapping_slips : Slips.Never w (asMapping context v) := by
  cases v with
  | mapping entries => exact Slips.ok _
  | _ => exact Slips.refuse fun _ => rfl

/-- What is no mapping is reported, so only mappings slip. -/
theorem asMapping_bind_slips {α : Type} {S : Error → Prop} {k : Entries → Except Error α}
    (hk : ∀ entries, v = .mapping entries → Slips w S (k entries))
    (inside : ∀ e, S e → ∃ entries, v = .mapping entries) :
    Slips w S (asMapping context v >>= k) :=
  Slips.bind_never asMapping_slips (fun entries h => hk entries (asMapping_ok_iff.1 h))
    fun e hs => (inside e hs).imp fun _ => asMapping_ok_iff.2

theorem mapping_of_content? {given : Value} (h : v.content? key = some given) :
    ∃ entries, v = .mapping entries :=
  (Value.entries_of_content? h).imp fun _ => And.left

theorem isWritable_getD {default : Value} (hv : w → (Value.mapping entries).isWritable = true)
    (hd : w → default.isWritable = true) (hw : w) :
    (getD entries key default).isWritable = true := by
  unfold getD
  cases found : Value.find? entries key with
  | none => exact hd hw
  | some v => exact Value.isWritable_find? (hv hw) found

theorem isWritable_of_require (hv : w → (Value.mapping entries).isWritable = true)
    (h : require entries key context = .ok v) (hw : w) : v.isWritable = true :=
  Value.isWritable_find? (hv hw) (require_ok_iff.1 h)

section Generators

variable {start stop low high places : Value}

theorem ofSequence_slips (ha : w → start.isWritable = true) (hb : w → stop.isWritable = true) :
    Slips.Never w (Generator.ofSequence start stop) := by
  refine .never_bind (Spec.checkWhole_slips ha) fun _ _ =>
    .never_bind (Spec.checkWhole_slips hb) fun _ _ => ?_
  split
  · exact Slips.ok _
  · exact Slips.refuse fun _ => rfl

theorem ofIntRange_slips (ha : w → low.isWritable = true) (hb : w → high.isWritable = true) :
    Slips.Never w (Generator.ofIntRange low high) := by
  refine .never_bind (Spec.checkWhole_slips ha) fun i hi =>
    .never_bind (Spec.checkWhole_slips hb) fun j hj => ?_
  rw [Spec.checkWhole_ok hi] at ha
  rw [Spec.checkWhole_ok hj] at hb
  split
  · exact Slips.ok _
  · exact Slips.refuse fun hw => by simp [Cause.shown, Value.ofNumber, ha hw, hb hw]

theorem ofFloatRange_slips (ha : w → low.isWritable = true) (hb : w → high.isWritable = true)
    (hp : w → places.isWritable = true) :
    Slips w (fun e => (low.IsHuge ∨ ∃ n : FiniteNumber, low = .ofNumber n.val ∧ high.IsHuge) ∧
      e = .numberTooLarge) (Generator.ofFloatRange low high places) := by
  have upper : ∀ n : FiniteNumber, low = .ofNumber n.val → Slips w
      (fun e => high.IsHuge ∧ e = .numberTooLarge)
      (Spec.checkFinite "randomFloat" "max" high >>= fun m =>
        Spec.checkWhole "randomFloat" "precision" places >>= fun k =>
          if h : m.val.lt n.val = false then
            if k < 0 then refuse (.negative "randomFloat.precision")
            else .ok (Generator.floatRange ⟨n, m, k.toNat, h⟩)
          else refuse (.minAboveMax "randomFloat" n.val m.val)) := by
    intro n hn
    refine Slips.before (Spec.checkFinite_slips hb) fun m hm =>
      .never_bind (Spec.checkWhole_slips hp) fun k _ => ?_
    rw [hn] at ha
    rw [Spec.checkFinite_ok_iff.1 hm] at hb
    split
    · split
      · exact Slips.refuse fun _ => rfl
      · exact Slips.ok _
    · exact Slips.refuse fun hw => by simp [Cause.shown, ha hw, hb hw]
  refine (Slips.bind (T := fun _ e => high.IsHuge ∧ e = .numberTooLarge)
    (Spec.checkFinite_slips ha) fun n hn => upper n (Spec.checkFinite_ok_iff.1 hn)).congr
      fun e => ?_
  simp only [Spec.checkFinite_ok_iff]
  constructor
  · rintro ⟨hl | ⟨n, hn, hh⟩, rfl⟩
    · exact .inl ⟨hl, rfl⟩
    · exact .inr ⟨n, hn, hh, rfl⟩
  · rintro (⟨hl, rfl⟩ | ⟨n, hn, hh, rfl⟩)
    · exact ⟨.inl hl, rfl⟩
    · exact ⟨.inr ⟨n, hn, hh⟩, rfl⟩

theorem ofLength_slips (h : w → low.isWritable = true) :
    Slips.Never w (Generator.ofLength low) := by
  refine .never_bind (Spec.checkWhole_slips h) fun n _ => ?_
  split
  · exact Slips.refuse fun _ => rfl
  · exact Slips.ok _

/-- The items of a choice. -/
theorem checkItems_slips {v : Value} :
    Slips w (fun e => v.items? = none ∧ e = .wrongKind) (Spec.checkItems v) :=
  Slips.orError (by simp)

theorem readDateTime_slips (h : w → v.isWritable = true) :
    Slips.Never w (readDateTime context v) := by
  cases v with
  | null | datetime _ | date _ => exact Slips.ok _
  | text s =>
    simp only [readDateTime]
    split
    · exact Slips.ok _
    · exact Slips.refuse fun _ => rfl
  | _ => exact Slips.refuse (by simpa [Cause.shown] using h)

theorem readDateTime_ok_iff {v given : Value} : readDateTime context given = .ok v ↔
    (given = .null ∧ v = .null) ∨ ∃ t, given.moment? = some t ∧ v = .datetime t := by
  cases given with
  | null | datetime _ | date _ => simp [readDateTime, Value.moment?, eq_comm]
  | text s =>
    simp only [readDateTime, Value.moment?]
    cases DateTime.ofIso? s with
    | none => simp [refuse_ne_ok]
    | some t => simp [eq_comm]
  | _ => simp [readDateTime, Value.moment?, refuse_ne_ok]

theorem ofSpan_slips {s t : DateTime} :
    Slips w (fun e => (s.naiveUtc? = none ∨ t.naiveUtc? = none) ∧ e = .dateTooFar)
      (Generator.ofSpan (.datetime s) (.datetime t)) := by
  have far : ∀ cause, Error.dateTooFar ≠ .configuration cause := fun _ h => by cases h
  refine (Slips.bind (T := fun _ e => t.naiveUtc? = none ∧ e = .dateTooFar) (Slips.orError far)
    fun _ _ => Slips.before (Slips.orError far) fun _ _ => ?_).congr fun e => ?_
  · split
    · exact Slips.ok _
    · exact Slips.refuse fun _ => rfl
  · cases s.naiveUtc? <;> simp [orError]

end Generators

/-- The types of the generators that have something unchecked. -/
def slipKinds : List String := ["choice", "choiceByLookup", "randomFloat", "datetime"]

theorem GeneratorSlip.kind (h : GeneratorSlip v e) :
    ∃ kind ∈ slipKinds, v.content? "type" = some (.text kind) := by
  cases h with
  | noItems known ht => rcases known with rfl | rfl <;> exact ⟨_, by simp [slipKinds], ht⟩
  | hugeMin ht | hugeMax ht | farMoment ht => exact ⟨_, by simp [slipKinds], ht⟩

section Kinds

theorem choice_slips {s : String} {make : List Value → Generator}
    (hk : (Value.mapping entries).content? "type" = some (.text s))
    (known : s = "choice" ∨ s = "choiceByLookup") :
    Slips w (GeneratorSlip (.mapping entries)) (require entries "values" context >>= fun given =>
      Spec.checkItems given >>= fun items => .ok (make items)) := by
  refine (Slips.after require_slips fun given _ =>
    Slips.before checkItems_slips fun items _ => Slips.ok _).congr fun e => ?_
  simp only [require_ok_iff]
  constructor
  · intro slip
    cases slip with
    | noItems _ _ hg hi => exact ⟨_, hg, hi, rfl⟩
    | hugeMin ht | hugeMax ht | farMoment ht =>
      rw [hk] at ht
      rcases known with rfl | rfl <;> simp at ht
  · rintro ⟨given, hg, hi, rfl⟩
    exact .noItems known hk hg hi

theorem randomFloat_slips (hv : w → (Value.mapping entries).isWritable = true)
    (hk : (Value.mapping entries).content? "type" = some (.text "randomFloat")) :
    Slips w (GeneratorSlip (.mapping entries)) (require entries "min" context >>= fun low =>
      require entries "max" context >>= fun high =>
        Generator.ofFloatRange low high (getD entries "precision" (.int 2))) := by
  refine (Slips.after require_slips fun low hl => Slips.after require_slips fun high hh =>
    ofFloatRange_slips (isWritable_of_require hv hl) (isWritable_of_require hv hh)
      (isWritable_getD hv fun _ => rfl)).congr fun e => ?_
  simp only [require_ok_iff]
  constructor
  · intro slip
    cases slip with
    | hugeMin _ hl hh huge => exact ⟨_, hl, _, hh, .inl huge, rfl⟩
    | hugeMax _ hl finite hh huge => exact ⟨_, hl, _, hh, .inr ⟨⟨_, finite⟩, rfl, huge⟩, rfl⟩
    | noItems known ht =>
      rw [hk] at ht
      rcases known with rfl | rfl <;> simp at ht
    | farMoment ht =>
      rw [hk] at ht
      simp at ht
  · rintro ⟨low, hl, high, hh, huge | ⟨n, rfl, huge⟩, rfl⟩
    · exact .hugeMin hk hl hh huge
    · exact .hugeMax hk hl n.property hh huge

theorem datetime_slips (hv : w → (Value.mapping entries).isWritable = true)
    (hk : (Value.mapping entries).content? "type" = some (.text "datetime")) :
    Slips w (GeneratorSlip (.mapping entries))
      (readDateTime context (getD entries "from" (.text "2020-01-01")) >>= fun start =>
        readDateTime context (getD entries "to" .null) >>= fun stop =>
          Generator.ofSpan start stop) := by
  have spans : ∀ start stop, (start = .null ∨ ∃ s, start = .datetime s) →
      (stop = .null ∨ ∃ t, stop = .datetime t) →
      Slips w (fun e => ∃ s t, start = .datetime s ∧ stop = .datetime t ∧
        (s.naiveUtc? = none ∨ t.naiveUtc? = none) ∧ e = .dateTooFar)
        (Generator.ofSpan start stop) := by
    rintro _ stop (rfl | ⟨s, rfl⟩) stopping
    · have missing : Slips.Never w
          (refuse (.notDatetime "datetime.from" .null) : Except Error Generator) :=
        Slips.refuse fun _ => rfl
      exact missing.never (by simp)
    · rcases stopping with rfl | ⟨t, rfl⟩
      · exact (Slips.ok _).never (by simp)
      · exact ofSpan_slips.congr fun e => by simp
  have kept : ∀ {given v : Value}, readDateTime context given = .ok v →
      v = .null ∨ ∃ t, v = .datetime t := by
    intro given v h
    rcases readDateTime_ok_iff.1 h with ⟨_, rfl⟩ | ⟨t, _, rfl⟩
    · exact .inl rfl
    · exact .inr ⟨t, rfl⟩
  refine (Slips.after (readDateTime_slips (isWritable_getD hv fun _ => rfl)) fun start hs =>
    Slips.after (readDateTime_slips (isWritable_getD hv fun _ => rfl)) fun stop ht =>
      spans start stop (kept hs) (kept ht)).congr fun e => ?_
  simp only [readDateTime_ok_iff]
  constructor
  · intro slip
    cases slip with
    | farMoment _ hs ht far =>
      exact ⟨_, .inr ⟨_, hs, rfl⟩, _, .inr ⟨_, ht, rfl⟩, _, _, rfl, rfl, far, rfl⟩
    | noItems known ht =>
      rw [hk] at ht
      rcases known with rfl | rfl <;> simp at ht
    | hugeMin ht | hugeMax ht =>
      rw [hk] at ht
      simp at ht
  · rintro ⟨_, hs, _, ht, s, t, rfl, rfl, far, rfl⟩
    simp only [reduceCtorEq, and_false, false_or, Value.datetime.injEq, exists_eq_right'] at hs ht
    exact .farMoment hk hs ht far

end Kinds

theorem readGenerator_slips (hv : w → v.isWritable = true) :
    Slips w (GeneratorSlip v) (readGenerator context v) := by
  refine asMapping_bind_slips (fun entries h => ?_) fun e hs => ?_
  · subst h
    refine Slips.bind_never require_slips (fun kind hk => ?_) fun e hs => ?_
    · rw [require_ok_iff] at hk
      have other (h : ∀ s ∈ slipKinds, kind ≠ .text s) (e : Error) :
          ¬GeneratorSlip (.mapping entries) e := by
        intro slip
        obtain ⟨s, hs, ht⟩ := slip.kind
        exact h s hs (Option.some.inj (hk.symm.trans ht))
      have shown (hw : w) :
          (Cause.unknownGenerator context kind).shown.all Value.isWritable = true := by
        simpa [Cause.shown] using Value.isWritable_find? (hv hw) hk
      cases kind with
      | text s =>
        dsimp only
        split
        · exact (ofSequence_slips (isWritable_getD hv fun _ => rfl)
            (isWritable_getD hv fun _ => rfl)).never (other (by simp [slipKinds]))
        · exact (Slips.never_bind require_slips fun low hl => Slips.never_bind require_slips
            fun high hh => ofIntRange_slips (isWritable_of_require hv hl)
              (isWritable_of_require hv hh)).never (other (by simp [slipKinds]))
        · exact randomFloat_slips hv hk
        · exact (Slips.never_bind require_slips fun low hl =>
            ofLength_slips (isWritable_of_require hv hl)).never (other (by simp [slipKinds]))
        · exact choice_slips hk (.inl rfl)
        · exact choice_slips hk (.inr rfl)
        · exact (Slips.ok _).never (other (by simp [slipKinds]))
        · exact datetime_slips hv hk
        · exact (Slips.ok _).never (other (by simp [slipKinds]))
        · exact (Slips.refuse shown).never (other (by simp_all [slipKinds]))
      | _ => exact (Slips.refuse shown).never (other (by simp))
    · obtain ⟨kind, _, hk⟩ := hs.kind
      exact ⟨_, require_ok_iff.2 hk⟩
  · obtain ⟨kind, _, hk⟩ := hs.kind
    exact mapping_of_content? hk

section Columns

variable {name p given : Value} {type : ColumnType} {g : Generator} {nullable : Bool}

theorem shown_ok_iff {text : String} :
    name.shown = .ok text ↔ name.isWritable = true ∧ name.display = text := by
  unfold Value.shown writable
  by_cases h : name.isWritable = true
  · simp [h, except_ok_bind, pure, Except.pure]
  · simp [h, bind, Except.bind]

theorem make_slips (hn : name.isWritable = true) (hp : w → p.isWritable = true) :
    Slips w (fun e => name.isPresent = true ∧ p.IsHuge ∧ e = .numberTooLarge)
      (Column.make name (.inl type) g nullable p) := by
  unfold Column.make
  split
  · rename_i present
    refine (Slips.after (Slips.shown fun _ => hn) fun owner _ =>
      Slips.before (Spec.checkFinite_slips hp) fun n hfinite => ?_).congr fun e => ?_
    · split
      · exact Slips.ok _
      · refine Slips.refuse fun hw => ?_
        have shown := hp hw
        rw [Spec.checkFinite_ok_iff.1 hfinite] at shown
        simp [Cause.shown, hn, shown]
    · simp [shown_ok_iff, hn, present]
  · rename_i absent
    exact (Slips.refuse fun _ => rfl).never fun e hs => absent hs.1

/-- Reads the type of a column. -/
def readColumnType (context : String) : Value → Except Error ColumnType
  | .text s =>
    match ColumnType.ofName? s with
    | some type => .ok type
    | none => refuse (.unknownColumnType context (.text s))
  | given => refuse (.unknownColumnType context given)

/-- Reads the rest of a column of known name and type. -/
def readFilled (context : String) (entries : Entries) (name : Value) (type : ColumnType) :
    Except Error Column := do
  let generator ← require entries "generator" context >>= readGenerator (context ++ " generator")
  Column.make name (.inl type) generator (getD entries "nullable" (.bool false)).isPresent
    (getD entries "null_probability" (getD entries "nullProbability" (.float .zero)))

theorem readColumn_mapping : readColumn context (.mapping entries) =
    require entries "name" context >>= fun name => name.shown >>= fun text =>
      orError .missingEntry (Value.find? entries "type") >>= fun given =>
        readColumnType (context ++ " " ++ text) given >>=
          readFilled (context ++ " " ++ text) entries name := by
  simp only [readColumn, asMapping, except_ok_bind]
  congr 1; funext name; congr 1; funext text; congr 1; funext given
  cases given with
  | text s => simp only [readColumnType]; cases ColumnType.ofName? s <;> rfl
  | _ => rfl

theorem readColumnType_slips (hg : w → given.isWritable = true) :
    Slips.Never w (readColumnType context given) := by
  have shown (hw : w) :
      (Cause.unknownColumnType context given).shown.all Value.isWritable = true := by
    simpa [Cause.shown] using hg hw
  cases given with
  | text s =>
    simp only [readColumnType]
    split
    · exact Slips.ok _
    · exact Slips.refuse shown
  | _ => exact Slips.refuse shown

theorem readColumnType_ok_iff : readColumnType context given = .ok type ↔
    ∃ s, given = .text s ∧ ColumnType.ofName? s = some type := by
  cases given with
  | text s =>
    simp only [readColumnType]
    cases found : ColumnType.ofName? s <;> simp [refuse_ne_ok, found]
  | _ => simp [readColumnType, refuse_ne_ok]

theorem readFilled_slips (hv : w → (Value.mapping entries).isWritable = true)
    (hn : name.isWritable = true) :
    Slips w (fun e => ∃ given, Value.find? entries "generator" = some given ∧
      (GeneratorSlip given e ∨ ∃ g, readGenerator (context ++ " generator") given = .ok g ∧
        name.isPresent = true ∧ (Value.mapping entries).nullProbability.IsHuge ∧
        e = .numberTooLarge)) (readFilled context entries name type) := by
  have probability (hw : w) : (Value.mapping entries).nullProbability.isWritable = true :=
    isWritable_getD hv (isWritable_getD hv fun _ => rfl) hw
  refine (Slips.bind (Slips.after require_slips fun given hg =>
    readGenerator_slips (isWritable_of_require hv hg)) fun g _ =>
      make_slips hn probability).congr fun e => ?_
  simp only [require_ok_iff]
  constructor
  · rintro ⟨given, hg, slip | ⟨g, read, rest⟩⟩
    · exact .inl ⟨given, hg, slip⟩
    · refine .inr ⟨g, ?_, rest⟩
      rw [require_ok_iff.2 hg, except_ok_bind, read]
  · rintro (⟨given, hg, slip⟩ | ⟨g, both, rest⟩)
    · exact ⟨given, hg, .inl slip⟩
    · obtain ⟨given, hg, read⟩ := except_ok_of_bind both
      exact ⟨given, require_ok_iff.1 hg, .inr ⟨g, read, rest⟩⟩

theorem ColumnSlip.named (h : ColumnSlip context v e) : ∃ name, v.content? "name" = some name := by
  cases h with
  | untyped hn | generator hn | hugeProbability hn => exact ⟨_, hn⟩

theorem readColumn_slips (hv : w → v.isWritable = true) :
    Slips w (ColumnSlip context v) (readColumn context v) := by
  refine asMapping_bind_slips (fun entries h => ?_) fun e hs => ?_
  · subst h
    change Slips w _ (readColumn context (.mapping entries))
    have proper : ∀ cause, Error.missingEntry ≠ .configuration cause := by simp
    have typed {given : Value} (hw : w) (hg : orError .missingEntry (Value.find? entries "type") =
        .ok given) : given.isWritable = true :=
      Value.isWritable_find? (hv hw) (orError_ok_iff.1 hg)
    rw [readColumn_mapping]
    refine (Slips.after require_slips fun name hn => Slips.after
      (Slips.shown (isWritable_of_require hv hn)) fun text ht => Slips.bind
        (Slips.orError proper) fun given hg => Slips.after (readColumnType_slips (typed · hg))
          fun type hy => readFilled_slips hv (shown_ok_iff.1 ht).1).congr fun e => ?_
    simp only [require_ok_iff, shown_ok_iff, orError_ok_iff, readColumnType_ok_iff]
    constructor
    · intro slip
      cases slip with
      | untyped hn hw ht => exact ⟨_, hn, _, ⟨hw, rfl⟩, .inl ⟨ht, rfl⟩⟩
      | generator hn hw ht known hg slip =>
        obtain ⟨type, known⟩ := Option.isSome_iff_exists.1 known
        exact ⟨_, hn, _, ⟨hw, rfl⟩, .inr ⟨_, ht, type, ⟨_, rfl, known⟩, _, hg, .inl slip⟩⟩
      | hugeProbability hn hw ht known hg read present huge =>
        obtain ⟨type, known⟩ := Option.isSome_iff_exists.1 known
        exact ⟨_, hn, _, ⟨hw, rfl⟩, .inr ⟨_, ht, type, ⟨_, rfl, known⟩, _, hg,
          .inr ⟨_, read, present, huge, rfl⟩⟩⟩
    · rintro ⟨name, hn, _, ⟨hw, rfl⟩, ⟨ht, rfl⟩ | ⟨_, ht, type, ⟨s, rfl, known⟩, given, hg, slip⟩⟩
      · exact .untyped hn hw ht
      · have known := Option.isSome_of_mem known
        rcases slip with slip | ⟨g, read, present, huge, rfl⟩
        · exact .generator hn hw ht known hg slip
        · exact .hugeProbability hn hw ht known hg read present huge
  · obtain ⟨name, hn⟩ := hs.named
    exact mapping_of_content? hn

end Columns

section Tables

variable {name default description : Value} {columns : List Column}

/-- A name is no key, or it has been seen before. -/
theorem nameProblem?_cases {names seen : List Value}
    (h : Table.nameProblem? name seen names = some e) :
    (∃ n, e = .notKey n) ∨ ∃ cause, e = .configuration cause := by
  induction names generalizing seen with
  | nil => cases h
  | cons n names ih =>
    simp only [Table.nameProblem?] at h
    split at h
    · exact .inl ⟨n, (Option.some.inj h).symm⟩
    · split at h
      · exact .inr ⟨_, (Option.some.inj h).symm⟩
      · exact ih h

theorem tableMake_slips (present : name.isPresent = true) (hn : name.isWritable = true) :
    Slips w (fun e => columns ≠ [] ∧ ∃ n, Table.nameProblem? name [] (columns.map Column.name) =
      some (.notKey n) ∧ e = .notKey n) (Table.make name columns description) := by
  unfold Table.make
  rw [dif_pos present]
  split
  · rename_i filled
    split
    · rename_i problem hp
      constructor
      · rintro e ⟨_, n, found, rfl⟩
        cases hp.symm.trans found
        exact ⟨rfl, fun cause h => by cases h⟩
      · intro e he
        cases he
        rcases nameProblem?_cases hp with ⟨n, rfl⟩ | report
        · exact .inr (.inr ⟨filled, n, hp, rfl⟩)
        · exact .inl report
    · rename_i hp
      refine (Slips.ok _).never ?_
      rintro e ⟨_, n, found, _⟩
      cases hp.symm.trans found
  · rename_i empty
    exact (Slips.refuse fun _ => by simp [Cause.shown, hn]).never fun e hs => empty hs.1

theorem readColumns_slips {given : Value} (present : name.isPresent = true)
    (hn : name.isWritable = true) (hg : w → given.isWritable = true) :
    Slips w (fun e => ∃ items, given = .list items ∧
      (Slips.AtFirst (readColumn context) (ColumnSlip context) items e ∨
        ∃ columns, items.mapM (readColumn context) = .ok columns ∧ columns ≠ [] ∧
          ∃ n, Table.nameProblem? name [] (columns.map Column.name) = some (.notKey n) ∧
            e = .notKey n)) (readColumns context name description given) := by
  cases given with
  | list items =>
    have each : ∀ item ∈ items, w → item.isWritable = true := fun item hi hw =>
      Value.isWritable_items? (hg hw) rfl item hi
    refine (Slips.bind (Slips.mapM fun item hi => readColumn_slips (each item hi))
      fun columns _ => tableMake_slips present hn).congr fun e => by simp
  | _ =>
    refine (Slips.refuse fun _ => by simp [Cause.shown, hn]).never ?_
    rintro e ⟨items, list, _⟩
    cases list

theorem TableSlip.listed (h : TableSlip default v e) :
    ∃ columns, v.content? "columns" = some columns := by
  cases h with
  | column _ _ _ hc | noKey _ _ _ hc => exact ⟨_, hc⟩

theorem readTable_slips (hd : w → default.isWritable = true) (hv : w → v.isWritable = true) :
    Slips w (TableSlip default v) (readTable default v) := by
  refine asMapping_bind_slips (fun entries h => ?_) fun e hs => ?_
  · subst h
    change Slips w _ (readTable default (.mapping entries))
    rw [readTable_mapping]
    split
    · rename_i present
      refine (Slips.after (Slips.shown (isWritable_getD hv hd)) fun text ht =>
        Slips.after require_slips fun given hg => readColumns_slips present (shown_ok_iff.1 ht).1
          (isWritable_of_require hv hg)).congr fun e => ?_
      simp only [shown_ok_iff, require_ok_iff]
      constructor
      · intro slip
        cases slip with
        | column named _ hw hc first =>
          cases named
          exact ⟨_, ⟨hw, rfl⟩, _, hc, _, rfl, .inl first⟩
        | noKey named _ hw hc read filled problem =>
          cases named
          exact ⟨_, ⟨hw, rfl⟩, _, hc, _, rfl, .inr ⟨_, read, filled, _, problem, rfl⟩⟩
      · rintro ⟨_, ⟨hw, rfl⟩, _, hc, items, rfl, first | ⟨columns, read, filled, n, problem, rfl⟩⟩
        · exact .column rfl present hw hc first
        · exact .noKey rfl present hw hc read filled problem
    · rename_i absent
      refine (Slips.refuse fun _ => rfl).never fun e slip => ?_
      cases slip with
      | column named present | noKey named present =>
        cases named
        exact absent present
  · obtain ⟨columns, hc⟩ := hs.listed
    exact mapping_of_content? hc

/-- The name of a table that was read has been written into the contexts of its columns. -/
theorem isWritable_name {t : Table} (h : readTable default v = .ok t) :
    t.name.isWritable = true := by
  obtain ⟨entries, mapping, _⟩ := except_ok_of_bind h
  rw [asMapping_ok_iff] at mapping
  subst mapping
  rw [name_of_readTable h]
  rw [readTable_mapping] at h
  split at h
  · obtain ⟨text, shown, _⟩ := except_ok_of_bind h
    exact (shown_ok_iff.1 shown).1
  · exact absurd h refuse_ne_ok

end Tables

end Document
end SyntheticRows
