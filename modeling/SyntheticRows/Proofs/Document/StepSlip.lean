import SyntheticRows.Proofs.Document.TableSlip

/-!
# Slips in scenarios

Where the steps of a scenario have a content that no reader checks: lists that cannot be gone
through, and probabilities beyond all doubles. A step that holds a table of its own slips where the
declaration of the table does.
-/
namespace SyntheticRows

namespace Value

/-- What a mutation may do to a text; without it every edit is allowed. -/
def operations (v : Value) : Value := (v.content? "operations").getD .null

/-- The transformations of a batch, which may itself be the list of them. -/
def transformations : Value → Value
  | list items => list items
  | v => (v.content? "transformations").getD (list [])

/-- The batches of a step. -/
def batches (v : Value) : Value := (v.content? "batches").getD (list [])

/-- The steps of a scenario. -/
def steps (v : Value) : Value := (v.content? "steps").getD (list [])

end Value

namespace Document

variable {α : Type} {w : Prop} {v : Value} {entries : Entries} {context key other : String}
  {e : Error} {tables : Tables}

/-- How the items of a value are read: the value has none, or one of them slips. -/
inductive ItemSlip (read : ℕ → Value → Except Error α) (T : ℕ → Value → Error → Prop)
    (v : Value) : Error → Prop
  | noItems : v.items? = none → ItemSlip read T v .wrongKind
  | item {items e} : v.items? = some items →
    Slips.AtFirst (fun i => read (i.2 + 1) i.1) (fun i => T (i.2 + 1) i.1) items.zipIdx e →
    ItemSlip read T v e

/-- How the reader of a transformation slips. -/
inductive TransformationSlip (v : Value) : Error → Prop
  | noItems : v.content? "type" = some (.text "mutate") → v.operations ≠ .null →
    v.operations.items? = none → TransformationSlip v .wrongKind
  | hugeMutation {column p} : v.content? "type" = some (.text "mutate") →
    (v.operations = .null ∨ ∃ items, v.operations.items? = some items) →
    v.content? "column" = some column → v.content? "probability" = some p → p.IsHuge →
    TransformationSlip v .numberTooLarge
  | hugeSwap {column1 column2 p} : v.content? "type" = some (.text "swap") →
    v.content? "column1" = some column1 → v.content? "column2" = some column2 →
    v.content? "probability" = some p → p.IsHuge → TransformationSlip v .numberTooLarge

/-- How the reader of a batch slips. -/
def BatchSlip (context : String) (v : Value) : Error → Prop :=
  ItemSlip (fun i => readTransformation (context ++ " transformation " ++ toString i))
    (fun _ => TransformationSlip) v.transformations

/-- How the reader of the batches of a step slips. -/
def BatchesSlip (context : String) (v : Value) : Error → Prop :=
  ItemSlip (fun i => readBatch (context ++ " batch " ++ toString i))
    (fun i => BatchSlip (context ++ " batch " ++ toString i)) v.batches

/-- How the reader of a step that generates rows slips. -/
inductive GenerateSlip (tables : Tables) (context : String) (v : Value) : Error → Prop
  | table {given e} : v.content? "table" = some given → (∀ key, given ≠ .text key) →
    TableSlip .null given e → GenerateSlip tables context v e
  | batches {given t rows e} : v.content? "table" = some given →
    resolveTable tables context given = .ok t → v.content? "rows" = some rows →
    BatchesSlip context v e → GenerateSlip tables context v e

/-- How the reader of a step that transforms rows slips. -/
inductive TransformSlip (context : String) (v : Value) : Error → Prop
  | batches {given e} : v.content? "table" = some given →
    ((∃ key, given = .text key) ∨ ∃ entries, given = .mapping entries) →
    BatchesSlip context v e → TransformSlip context v e

/-- How the reader of a step slips. -/
inductive StepSlip (tables : Tables) (context : String) (v : Value) : Error → Prop
  | generate {spec e} : v.content? "generate" = some spec → GenerateSlip tables context spec e →
    StepSlip tables context v e
  | transform {spec e} : v.content? "generate" = none → v.content? "transform" = some spec →
    TransformSlip context spec e → StepSlip tables context v e

/-- How the reader of a scenario slips. -/
def ScenarioSlip (tables : Tables) (v : Value) : Error → Prop :=
  ItemSlip (fun i => readStep tables ("scenario step " ++ toString i))
    (fun i => StepSlip tables ("scenario step " ++ toString i)) v.steps

section Items

variable {read : ℕ → Value → Except Error α} {T : ℕ → Value → Error → Prop}

theorem readEach_slips (hv : w → v.isWritable = true)
    (h : ∀ i item, (w → item.isWritable = true) → Slips w (T i item) (read i item)) :
    Slips w (ItemSlip read T v) (readEach read v) := by
  have proper : ∀ cause, Error.wrongKind ≠ .configuration cause := by simp
  refine (Slips.bind (Slips.orError proper) fun items hi => Slips.mapM fun i there =>
    h _ _ fun hw => ?_).congr fun e => ?_
  · exact Value.isWritable_items? (hv hw) (orError_ok_iff.1 hi) _
      (List.fst_mem_of_mem_zipIdx there)
  · simp only [orError_ok_iff]
    constructor
    · rintro (missing | ⟨listed, first⟩)
      · exact .inl ⟨missing, rfl⟩
      · exact .inr ⟨_, listed, first⟩
    · rintro (⟨missing, rfl⟩ | ⟨items, listed, first⟩)
      · exact .noItems missing
      · exact .item listed first

/-- An empty list has no item that slips. -/
theorem not_itemSlip_nil : ¬ItemSlip read T (.list []) e := by
  rintro (missing | ⟨listed, first⟩)
  · cases missing
  · cases listed
    exact Slips.atFirst_nil first

end Items

section Transformations

variable {column p given : Value} {edits : Option Value}

theorem requireEither_slips : Slips.Never w (requireEither entries key other context) := by
  unfold requireEither
  dsimp only
  split
  · exact Slips.ok _
  · exact require_slips

/-- Reads the edits of a mutation. -/
def readEdits : Value → Except Error (Option Value)
  | .null => .ok none
  | given => (orError .wrongKind given.items?).map fun items => some (.list items)

theorem readMutation_eq : readMutation context entries =
    readEdits (Value.mapping entries).operations >>= fun edits =>
      require entries "column" context >>= fun column =>
        require entries "probability" context >>= fun p =>
          Transformation.ofMutation column p edits := by
  unfold readMutation
  change _ = readEdits (getD entries "operations" .null) >>= _
  cases getD entries "operations" .null <;> rfl

theorem readEdits_slips : Slips w
    (fun e => (given ≠ .null ∧ given.items? = none) ∧ e = .wrongKind) (readEdits given) := by
  have proper : ∀ cause, Error.wrongKind ≠ .configuration cause := by simp
  cases given with
  | null => exact (Slips.ok _).never (by simp)
  | _ => exact (Slips.orError proper).map.congr fun e => by simp

theorem readEdits_ok_iff : readEdits given = .ok edits ↔ (given = .null ∧ edits = none) ∨
    ∃ items, given.items? = some items ∧ edits = some (.list items) := by
  cases given with
  | null => simp [readEdits, Value.items?, eq_comm]
  | _ => simp [readEdits, Value.items?, orError, Except.map, eq_comm]

theorem ofMutation_slips (hp : w → p.isWritable = true)
    (he : ∀ given, edits = some given → ∃ items, given = .list items) :
    Slips w (fun e => p.IsHuge ∧ e = .numberTooLarge)
      (Transformation.ofMutation column p edits) := by
  refine Slips.before (Spec.checkProbability_slips hp) fun q _ => ?_
  cases edits with
  | none => exact Slips.ok _
  | some given =>
    obtain ⟨items, rfl⟩ := he given rfl
    refine .never_bind (Slips.ok items) fun items _ => .never_bind ?_ fun named _ => ?_
    · refine (Slips.mapM (T := fun _ _ => False) fun item _ => ?_).congr fun e => ?_
      · unfold Transformation.readEdit
        split
        · exact Slips.ok _
        · exact Slips.refuse fun _ => rfl
      · simp [Slips.AtFirst]
    · split
      · exact Slips.ok _
      · exact Slips.refuse fun _ => rfl

theorem ofSwap_slips {column1 column2 : Value} (h : w → column1.isWritable = true)
    (hp : w → p.isWritable = true) : Slips w (fun e => p.IsHuge ∧ e = .numberTooLarge)
      (Transformation.ofSwap column1 column2 p) := by
  refine Slips.before (Spec.checkProbability_slips hp) fun q _ => ?_
  split
  · exact Slips.ok _
  · exact Slips.refuse (by simpa [Cause.shown] using h)

theorem TransformationSlip.kind (h : TransformationSlip v e) :
    ∃ kind ∈ ["mutate", "swap"], v.content? "type" = some (.text kind) := by
  cases h with
  | noItems ht | hugeMutation ht | hugeSwap ht => exact ⟨_, by simp, ht⟩

theorem readMutation_slips (hv : w → (Value.mapping entries).isWritable = true)
    (hk : (Value.mapping entries).content? "type" = some (.text "mutate")) :
    Slips w (TransformationSlip (.mapping entries)) (readMutation context entries) := by
  rw [readMutation_eq]
  refine (Slips.bind readEdits_slips fun edits he => Slips.after require_slips fun column _ =>
    Slips.after require_slips fun p hp => ofMutation_slips (isWritable_of_require hv hp)
      fun given hg => ?_).congr fun e => ?_
  · subst hg
    rcases readEdits_ok_iff.1 he with ⟨_, without⟩ | ⟨items, _, listed⟩
    · cases without
    · exact ⟨items, Option.some.inj listed⟩
  · simp only [readEdits_ok_iff, require_ok_iff]
    constructor
    · intro slip
      cases slip with
      | noItems _ given missing => exact .inl ⟨⟨given, missing⟩, rfl⟩
      | hugeMutation _ readable hc hp huge =>
        refine .inr ?_
        rcases readable with absent | ⟨items, listed⟩
        · exact ⟨_, .inl ⟨absent, rfl⟩, _, hc, _, hp, huge, rfl⟩
        · exact ⟨_, .inr ⟨items, listed, rfl⟩, _, hc, _, hp, huge, rfl⟩
      | hugeSwap ht =>
        rw [hk] at ht
        simp at ht
    · rintro (⟨⟨given, missing⟩, rfl⟩ | ⟨edits, readable, column, hc, p, hp, huge, rfl⟩)
      · exact .noItems hk given missing
      · refine .hugeMutation hk ?_ hc hp huge
        rcases readable with ⟨absent, _⟩ | ⟨items, listed, _⟩
        · exact .inl absent
        · exact .inr ⟨items, listed⟩

theorem swap_slips (hv : w → (Value.mapping entries).isWritable = true)
    (hk : (Value.mapping entries).content? "type" = some (.text "swap")) :
    Slips w (TransformationSlip (.mapping entries))
      (require entries "column1" context >>= fun column1 =>
        require entries "column2" context >>= fun column2 =>
          require entries "probability" context >>= fun p =>
            Transformation.ofSwap column1 column2 p) := by
  refine (Slips.after require_slips fun column1 h => Slips.after require_slips fun column2 _ =>
    Slips.after require_slips fun p hp => ofSwap_slips (isWritable_of_require hv h)
      (isWritable_of_require hv hp)).congr fun e => ?_
  simp only [require_ok_iff]
  constructor
  · intro slip
    cases slip with
    | hugeSwap _ h1 h2 hp huge => exact ⟨_, h1, _, h2, _, hp, huge, rfl⟩
    | noItems ht | hugeMutation ht =>
      rw [hk] at ht
      simp at ht
  · rintro ⟨_, h1, _, h2, _, hp, huge, rfl⟩
    exact .hugeSwap hk h1 h2 hp huge

theorem readLookup_slips : Slips.Never w (readLookup context entries) :=
  .never_bind asMapping_slips fun _ _ => .never_bind require_slips fun _ _ =>
    .never_bind requireEither_slips fun _ _ => .never_bind requireEither_slips fun _ _ =>
      .never_bind requireEither_slips fun _ _ => .never_bind requireEither_slips fun _ _ =>
        Slips.ok _

theorem readTransformation_slips (hv : w → v.isWritable = true) :
    Slips w (TransformationSlip v) (readTransformation context v) := by
  refine asMapping_bind_slips (fun entries h => ?_) fun e hs => ?_
  · subst h
    refine Slips.bind_never require_slips (fun kind hk => ?_) fun e hs => ?_
    · have shown (hw : w) :
          (Cause.unknownTransformation context kind).shown.all Value.isWritable = true := by
        simpa [Cause.shown] using isWritable_of_require hv hk hw
      rw [require_ok_iff] at hk
      have other (h : ∀ s ∈ ["mutate", "swap"], kind ≠ .text s) (e : Error) :
          ¬TransformationSlip (.mapping entries) e := by
        intro slip
        obtain ⟨s, hs, ht⟩ := slip.kind
        exact h s hs (Option.some.inj (hk.symm.trans ht))
      cases kind with
      | text s =>
        dsimp only
        split
        · exact (Slips.never_bind require_slips fun _ _ => .never_bind require_slips
            fun _ _ => Slips.ok _).never (other (by simp))
        · exact readMutation_slips hv hk
        · exact readLookup_slips.never (other (by simp))
        · exact swap_slips hv hk
        · exact (Slips.refuse shown).never (other (by simp_all))
      | _ => exact (Slips.refuse shown).never (other (by simp))
    · obtain ⟨kind, _, hk⟩ := hs.kind
      exact ⟨_, require_ok_iff.2 hk⟩
  · obtain ⟨kind, _, hk⟩ := hs.kind
    exact mapping_of_content? hk

end Transformations

section Batches

theorem isWritable_transformations (h : v.isWritable = true) :
    v.transformations.isWritable = true := by
  cases v with
  | list items => exact h
  | mapping entries => exact isWritable_getD (w := True) (fun _ => h) (fun _ => rfl) trivial
  | _ => rfl

theorem readBatch_slips (hv : w → v.isWritable = true) :
    Slips w (BatchSlip context v) (readBatch context v) := by
  have each : Slips w (BatchSlip context v) (readEach (fun i t =>
      readTransformation (context ++ " transformation " ++ toString i) t) v.transformations) :=
    readEach_slips (fun hw => isWritable_transformations (hv hw)) fun _ _ hi =>
      readTransformation_slips hi
  have passed (description : Value) :=
    Slips.before each fun l _ => Slips.ok (⟨l, description⟩ : Batch)
  cases v with
  | list items => exact passed .null
  | mapping entries => exact passed (getD entries "description" .null)
  | _ => exact asMapping_bind_slips (fun _ h => nomatch h) fun e h => absurd h not_itemSlip_nil

theorem readBatches_slips (hv : w → (Value.mapping entries).isWritable = true) :
    Slips w (BatchesSlip context (.mapping entries)) (readBatches context entries) :=
  readEach_slips (isWritable_getD hv fun _ => rfl) fun _ _ hi => readBatch_slips hi

end Batches

section Steps

variable {given rows : Value} {t : Table} {batches : List Batch}

/-- The names of all tables can be written. -/
def NamesWritable (tables : Tables) : Prop := ∀ entry ∈ tables, entry.2.name.isWritable = true

theorem resolveTable_slips (hg : w → given.isWritable = true) :
    Slips w (fun e => (∀ key, given ≠ .text key) ∧ TableSlip .null given e)
      (resolveTable tables context given) := by
  cases given with
  | text key =>
    simp only [resolveTable]
    split
    · exact (Slips.ok _).never (by simp)
    · exact (Slips.refuse fun _ => rfl).never (by simp)
  | _ => exact (readTable_slips (fun _ => rfl) hg).congr fun e => by simp

theorem isWritable_of_resolveTable (named : NamesWritable tables)
    (h : resolveTable tables context given = .ok t) : t.name.isWritable = true := by
  cases given with
  | text key =>
    simp only [resolveTable] at h
    split at h
    · rename_i found
      cases h
      exact named _ (List.mem_of_find?_eq_some found)
    · exact absurd h refuse_ne_ok
  | _ => exact isWritable_name h

theorem generateStep_make_slips (named : t.name.isWritable = true)
    (hr : w → rows.isWritable = true) : Slips.Never w (GenerateStep.make t rows batches) := by
  refine .never_bind (Slips.shown fun _ => named) fun _ _ =>
    .never_bind (Spec.checkWhole_slips hr) fun n _ => ?_
  split
  · exact Slips.refuse fun _ => by simp [Cause.shown, named]
  · exact Slips.ok _

theorem GenerateSlip.mapping (h : GenerateSlip tables context v e) :
    ∃ entries, v = .mapping entries := by
  cases h with
  | table hg | batches hg => exact mapping_of_content? hg

theorem readGenerate_slips (named : NamesWritable tables) (hv : w → v.isWritable = true) :
    Slips w (GenerateSlip tables context v) (readGenerate tables context v) := by
  refine asMapping_bind_slips (fun entries h => ?_) fun e hs => hs.mapping
  subst h
  refine (Slips.after require_slips fun given hg =>
    Slips.bind (resolveTable_slips (isWritable_of_require hv hg)) fun t ht =>
      Slips.after require_slips fun rows hr =>
        Slips.before (readBatches_slips hv) fun batches _ =>
          Slips.never_bind (generateStep_make_slips (isWritable_of_resolveTable named ht)
            (isWritable_of_require hv hr)) fun g _ => Slips.ok _).congr fun e => ?_
  simp only [require_ok_iff]
  constructor
  · intro slip
    cases slip with
    | table hg own slip => exact ⟨_, hg, .inl ⟨own, slip⟩⟩
    | batches hg ht hr slip => exact ⟨_, hg, .inr ⟨_, ht, _, hr, slip⟩⟩
  · rintro ⟨given, hg, ⟨own, slip⟩ | ⟨t, ht, rows, hr, slip⟩⟩
    · exact .table hg own slip
    · exact .batches hg ht hr slip

theorem readTransform_slips (hv : w → v.isWritable = true) :
    Slips w (TransformSlip context v) (readTransform context v) := by
  refine asMapping_bind_slips (fun entries h => ?_) fun e ⟨hg, _, _⟩ => mapping_of_content? hg
  subst h
  have rest (name : Value) : Slips w (BatchesSlip context (.mapping entries))
      (readBatches context entries >>= fun batches => .ok (Step.transform ⟨name, batches⟩)) :=
    Slips.before (readBatches_slips hv) fun _ _ => Slips.ok _
  refine (Slips.after (T := fun given e => ((∃ key, given = .text key) ∨
    ∃ entries, given = .mapping entries) ∧ BatchesSlip context (.mapping entries) e)
      require_slips fun given _ => ?_).congr fun e => ?_
  · cases given with
    | text key => exact (rest (.text key)).congr fun e => by simp
    | mapping inner => exact (rest (getD inner "name" .null)).congr fun e => by simp
    | _ =>
      refine Slips.bind_never asMapping_slips.map (fun name hn => ?_) (by simp)
      obtain ⟨entries, mapping, _⟩ := except_ok_of_map hn
      cases asMapping_ok_iff.1 mapping
  · simp only [require_ok_iff]
    constructor
    · rintro ⟨hg, form, slip⟩
      exact ⟨_, hg, form, slip⟩
    · rintro ⟨given, hg, form, slip⟩
      exact .batches hg form slip

theorem StepSlip.mapping (h : StepSlip tables context v e) : ∃ entries, v = .mapping entries := by
  cases h with
  | generate hs | transform _ hs => exact mapping_of_content? hs

theorem readStep_slips (named : NamesWritable tables) (hv : w → v.isWritable = true) :
    Slips w (StepSlip tables context v) (readStep tables context v) := by
  refine asMapping_bind_slips (fun entries h => ?_) fun e hs => hs.mapping
  subst h
  have part {key : String} {spec : Value} (h : Value.find? entries key = some spec) (hw : w) :
      spec.isWritable = true := Value.isWritable_find? (hv hw) h
  cases hg : Value.find? entries "generate" with
  | some spec =>
    refine (readGenerate_slips named (part hg)).congr fun e => ⟨fun slip => ?_, .generate hg⟩
    cases slip with
    | generate hs slip =>
      cases hg.symm.trans hs
      exact slip
    | transform hn => cases hg.symm.trans hn
  | none =>
    cases ht : Value.find? entries "transform" with
    | some spec =>
      refine (readTransform_slips (part ht)).congr fun e => ⟨fun slip => ?_, .transform hg ht⟩
      cases slip with
      | generate hs => cases hg.symm.trans hs
      | transform _ hs slip =>
        cases ht.symm.trans hs
        exact slip
    | none =>
      refine (Slips.refuse fun _ => rfl).never fun e slip => ?_
      cases slip with
      | generate hs => cases hg.symm.trans hs
      | transform _ hs => cases ht.symm.trans hs

theorem readScenario_slips (named : NamesWritable tables) (hv : w → v.isWritable = true) :
    Slips w (ScenarioSlip tables v) (readScenario tables v) := by
  cases v with
  | mapping entries =>
    have steps : Slips w (ScenarioSlip tables (.mapping entries)) (readEach (fun i s =>
        readStep tables ("scenario step " ++ toString i) s) (getD entries "steps" (.list []))) :=
      readEach_slips (isWritable_getD hv fun _ => rfl) fun _ _ hi => readStep_slips named hi
    change Slips w _ (readEach _ _ >>= _)
    exact Slips.before steps fun _ _ => Slips.ok _
  | _ => exact asMapping_bind_slips (fun _ h => nomatch h) fun e h => absurd h not_itemSlip_nil

end Steps

end Document
end SyntheticRows
