import SyntheticRows.Compile.Rebuild
import SyntheticRows.Proofs.Compile.Failure

/-!
# Where a repeated assignment is reported

A computation fails only as one of its parts does. No part of the compilation of a batch reports a
column that is assigned twice, so the compilation does not either: only the check before it does.
-/
namespace SyntheticRows
open Sql

/-- Whether the error says that a batch assigns a column more than once. -/
def Error.isRepeat : Error → Bool
  | .configuration (.assignedTwice _ _ _) => true
  | _ => false

/-- Computations that can end with an error: not those that only return something, and a sequence
of two only with an error of one of them. -/
class Fallible (m : Type → Type) [Monad m] where
  CanFail {α : Type} : m α → Error → Prop
  not_pure {α : Type} {a : α} {e : Error} : ¬CanFail (pure a) e
  of_bind {α β : Type} {x : m α} {f : α → m β} {e : Error} :
    CanFail (x >>= f) e → CanFail x e ∨ ∃ a, CanFail (f a) e

instance : Fallible (Except Error) where
  CanFail x e := x = .error e
  not_pure h := nomatch h
  of_bind h := (except_error_of_bind h).imp_right fun ⟨a, _, h⟩ => ⟨a, h⟩

instance {σ : Type} : Fallible (ExceptT Error (StateM σ)) where
  CanFail x e := ∃ s s', x.run.run s = (.error e, s')
  not_pure := by
    rintro _ _ _ ⟨_, _, h⟩
    cases h
  of_bind := by
    rintro α β x f e ⟨s, s', h⟩
    change ExceptT.bind x f s = _ at h
    simp only [ExceptT.bind, ExceptT.mk, bind, StateT.bind] at h
    rcases hx : x s with ⟨e' | a, s₁⟩
    · rw [hx] at h
      cases h
      exact .inl ⟨s, s', hx⟩
    · rw [hx] at h
      exact .inr ⟨a, s₁, s', h⟩

instance {σ : Type} {m : Type → Type} [Monad m] [Fallible m] : Fallible (StateT σ m) where
  CanFail x e := ∃ s, Fallible.CanFail (x.run s) e
  not_pure := fun ⟨_, h⟩ => Fallible.not_pure h
  of_bind := by
    rintro α β x f e ⟨s, h⟩
    rcases Fallible.of_bind h with h | ⟨⟨a, s₁⟩, h⟩
    · exact .inl ⟨s, h⟩
    · exact .inr ⟨a, s₁, h⟩

instance {ρ : Type} {m : Type → Type} [Monad m] [Fallible m] : Fallible (ReaderT ρ m) where
  CanFail x e := ∃ r, Fallible.CanFail (x.run r) e
  not_pure := fun ⟨_, h⟩ => Fallible.not_pure h
  of_bind := by
    rintro α β x f e ⟨r, h⟩
    rcases Fallible.of_bind h with h | ⟨a, h⟩
    · exact .inl ⟨r, h⟩
    · exact .inr ⟨a, r, h⟩

/-- The computation never reports a column that is assigned twice. -/
def Avoids {m : Type → Type} [Monad m] [Fallible m] {α : Type} (x : m α) : Prop :=
  ∀ e, Fallible.CanFail x e → e.isRepeat = false

namespace Avoids

section Laws

variable {m : Type → Type} [Monad m] [Fallible m] {α β : Type} {x : m α}

theorem pure (a : α) : Avoids (pure a : m α) := fun _ h => (Fallible.not_pure h).elim

theorem bind {f : α → m β} (hx : Avoids x) (hf : ∀ a, Avoids (f a)) : Avoids (x >>= f) := by
  intro e h
  rcases Fallible.of_bind h with h | ⟨a, h⟩
  · exact hx e h
  · exact hf a e h

theorem foldlM {f : β → α → m β} (h : ∀ b a, Avoids (f b a)) (l : List α) (b : β) :
    Avoids (l.foldlM f b) := by
  induction l generalizing b with
  | nil => exact pure b
  | cons a l ih =>
    rw [List.foldlM_cons]
    exact (h b a).bind ih

variable [LawfulMonad m]

theorem map {f : α → β} (hx : Avoids x) : Avoids (f <$> x) := by
  rw [map_eq_pure_bind]
  exact hx.bind fun _ => pure _

theorem mapM {f : α → m β} (h : ∀ a, Avoids (f a)) (l : List α) : Avoids (l.mapM f) := by
  induction l with
  | nil => exact pure []
  | cons a l ih =>
    rw [List.mapM_cons]
    exact (h a).bind fun _ => ih.bind fun _ => pure _

end Laws

variable {α β σ : Type} {e : Error} {x : Except Error α}

theorem ok (a : α) : Avoids (.ok a : Except Error α) := pure a

theorem error (h : e.isRepeat = false) : Avoids (.error e : Except Error α) := by
  rintro _ ⟨⟩
  exact h

theorem throw (h : e.isRepeat = false) : Avoids (throw e : ExceptT Error (StateM σ) α) := by
  rintro _ ⟨_, _, ⟨⟩⟩
  exact h

theorem lift (h : Avoids x) : Avoids (liftM x : ExceptT Error (StateM σ) α) := by
  rintro e ⟨_, _, run⟩
  cases run
  exact h e rfl

theorem modify (f : σ → σ) : Avoids (modify f : ExceptT Error (StateM σ) Unit) := by
  rintro _ ⟨_, _, ⟨⟩⟩

theorem lift_state {m : Type → Type} [Monad m] [LawfulMonad m] [Fallible m] {x : m α}
    (h : Avoids x) : Avoids (liftM x : StateT σ m α) := by
  rintro e ⟨s, run⟩
  rcases Fallible.of_bind run with run | ⟨_, run⟩
  · exact h e run
  · exact (Fallible.not_pure run).elim

end Avoids

theorem avoids_writable (values : List Value) : Avoids (writable values) := by
  unfold writable
  split
  · exact .ok _
  · exact .error rfl

theorem avoids_refuse {α : Type} {cause : Cause}
    (h : (Error.configuration cause).isRepeat = false) :
    Avoids (refuse cause : Except Error α) :=
  (avoids_writable _).bind fun _ => .error h

theorem avoids_orError {α : Type} {e : Error} (h : e.isRepeat = false) (x : Option α) :
    Avoids (orError e x) := by
  cases x with
  | none => exact .error h
  | some a => exact .ok a

theorem Dialect.avoids_engine {e : Error} (h : e.isRepeat = false) (d : Dialect) :
    Avoids (d.engine e) := by
  cases d with
  | core => exact .error h
  | of engine => exact .ok engine

section Names

variable (t : Target)

theorem avoids_ident_ofValue (v : Value) : Avoids (Ident.ofValue v) := by
  cases v with
  | text s =>
    simp only [Ident.ofValue]
    split
    · split
      · exact .ok _
      · exact avoids_refuse rfl
    · exact avoids_refuse rfl
  | _ => exact avoids_refuse rfl

theorem Target.avoids_ident (v : Value) : Avoids (t.ident v) :=
  (t.dialect.avoids_engine rfl).bind fun _ => avoids_ident_ofValue v

theorem Target.avoids_qualifiers : Avoids t.qualifiers := by
  unfold qualifiers
  split
  · exact (t.avoids_ident _).bind fun _ => (t.avoids_ident _).bind fun _ => .pure _
  · exact .ok _

theorem Target.avoids_tableRef (v : Value) : Avoids (t.tableRef v) :=
  t.avoids_qualifiers.bind fun _ => (t.avoids_ident v).bind fun _ => .pure _

theorem Target.avoids_columnRef (table column : Value) : Avoids (t.columnRef table column) :=
  (t.avoids_ident table).bind fun _ => (t.avoids_ident column).bind fun _ => .pure _

end Names

section Expressions

variable (d : Dialect)

theorem avoids_literal_ofFloat (x : Double) : Avoids (Literal.ofFloat x) := by
  unfold Literal.ofFloat
  split
  · exact .ok _
  · exact avoids_refuse rfl

theorem avoids_literal_ofText (s : String) : Avoids (Literal.ofText s) := by
  unfold Literal.ofText
  split
  · exact .ok _
  · exact avoids_refuse rfl

theorem avoids_literal_ofInt (i : Int) : Avoids (Literal.ofValue (.int i)) :=
  (avoids_writable _).bind fun _ => .pure _

theorem Dialect.avoids_literal (s : String) : Avoids (d.literal (.text s)) :=
  (d.avoids_engine rfl).bind fun _ => (avoids_literal_ofText s).bind fun _ => .pure _

theorem avoids_ofFloat (x : Double) : Avoids (Expr.ofFloat x) :=
  (avoids_literal_ofFloat x).bind fun _ => .pure _

theorem avoids_ofNumber (n : Number) : Avoids (Expr.ofNumber n) := by
  cases n with
  | int i => exact (avoids_literal_ofInt i).map
  | float x => exact avoids_ofFloat x

theorem Dialect.avoids_concat (parts : List Expr) : Avoids (d.concat parts) := by
  cases parts with
  | nil => exact d.avoids_literal _
  | cons first rest => exact .ok _

theorem Dialect.avoids_unit (tag : Int) : Avoids (d.unit tag) :=
  (d.avoids_engine rfl).bind fun _ => .pure _

end Expressions

namespace Mutation

variable (d : Dialect) (m : Mutation)

theorem avoids_editExpr (column offset mark : Expr) (edit : Edit) :
    Avoids (editExpr d column offset mark edit) := by
  unfold editExpr
  cases edit <;> exact d.avoids_concat _

theorem avoids_chooseEdit (choice : Expr) (edits : List Expr) :
    Avoids (chooseEdit choice edits) :=
  (Avoids.mapM (fun _ => avoids_ofFloat _) _).bind fun _ => .pure _

theorem avoids_expression (column : Expr) (gate choice : Option Expr) (place : Expr) :
    Avoids (m.expression d column gate choice place) := by
  unfold expression
  refine (d.avoids_literal _).bind fun mark => ?_
  refine (Avoids.mapM (avoids_editExpr d _ _ _) _).bind fun edits => ?_
  extract_lets gated
  have rest (edited : Expr) : Avoids (gated edited) := by
    refine Avoids.bind ?_ fun _ => .pure _
    cases gate with
    | none => exact .pure _
    | some g => exact ((avoids_ofNumber _).bind fun _ => .pure _).map
  split
  · exact (avoids_chooseEdit _ _).bind rest
  · exact rest _
  · exact rest _

theorem avoids_withDraws (column : Expr) (draw : Nat → Expr) (first : Nat) :
    Avoids (m.withDraws d column draw first) := m.avoids_expression d _ _ _ _

theorem avoids_boundExpr (e : Engine) (column : Expr) (salt : Int) :
    Avoids (m.boundExpr e column salt) := by
  unfold boundExpr
  refine (m.avoids_withDraws _ _ _ _).bind fun _ => ?_
  split <;> exact .pure _

end Mutation

theorem avoids_shown (v : Value) : Avoids v.shown :=
  (avoids_writable _).bind fun _ => .pure _

section Templates

variable (d : Dialect) {ref : Value → Except Error Expr} (hr : ∀ v, Avoids (ref v))
include hr

theorem Template.avoids_pieceExpr (p : Piece) : Avoids (pieceExpr d ref p) := by
  cases p with
  | text content => exact d.avoids_literal _
  | placeholder name => exact (hr _).bind fun _ => .pure _

theorem Template.avoids_expression (table : Value) (columns : List Value) (strict : Bool)
    (t : Template) : Avoids (t.expression d table columns strict ref) := by
  unfold expression
  extract_lets read
  have rest (text : List Char) : Avoids (read text) := by
    unfold read
    extract_lets found unknown write
    have written (u : Unit) : Avoids (write u) :=
      (Avoids.mapM (fun p => .lift (avoids_pieceExpr d hr p)) _).bind fun parts =>
        (Avoids.lift (d.avoids_concat parts)).bind fun _ => .pure _
    split
    · refine (Avoids.lift (avoids_shown table)).bind fun name => ?_
      extract_lets warned
      have kept (u : Unit) : Avoids (warned u) :=
        (Avoids.lift (avoids_shown t.column)).bind fun _ => (Avoids.modify _).bind written
      split
      · exact (Avoids.throw rfl).bind kept
      · exact kept ()
    · exact written ()
  split
  · exact rest _
  · refine (Avoids.throw ?_).bind rest
    unfold Error.notText
    split <;> rfl

end Templates

namespace Target

variable (t : Target) (scope : Scope)

theorem avoids_lookupExpr (table : Value) (l : Lookup) (label : String) (taking : Taking) :
    Avoids (t.lookupExpr table l label taking) :=
  (t.avoids_ident _).bind fun _ => (t.avoids_tableRef _).bind fun _ =>
    (t.avoids_ident _).bind fun _ => (t.avoids_columnRef _ _).bind fun _ => .pure _

theorem avoids_assignments (given : List (Value × Expr)) : Avoids (t.assignments given) :=
  .mapM (fun _ => (t.avoids_ident _).bind fun _ => .pure _) given

section Updates

theorem avoids_takeDraws (n : Nat) : Avoids (takeDraws n) := by
  rintro _ ⟨_, _, _, ⟨⟩⟩

theorem avoids_drawing {α : Type} {x : Except Error α} (h : Avoids x) :
    Avoids (liftM x : Drawing α) := .lift_state (.lift h)

theorem avoids_swapAssignments (s : Swap) (first second : Expr) :
    Avoids (swapAssignments s first second) := by
  unfold swapAssignments
  split
  · exact .pure _
  · exact (avoids_takeDraws 1).bind fun _ =>
      (avoids_drawing (avoids_ofNumber s.probability.val)).bind fun _ => .pure _

theorem avoids_sharedAssignments (index : Nat) (tr : Transformation) :
    Avoids (t.sharedAssignments scope index tr) := by
  cases tr with
  | template tr =>
    have ref (c : Value) : Avoids (Expr.name <$> t.columnRef scope.table c) :=
      (t.avoids_columnRef scope.table c).map
    exact (Avoids.lift_state (tr.avoids_expression t.dialect ref _ _ _)).bind fun _ => .pure _
  | mutation m =>
    exact (avoids_takeDraws _).bind fun _ =>
      (avoids_drawing (t.avoids_columnRef scope.table m.column)).map.bind fun _ =>
        (avoids_drawing (m.avoids_withDraws t.dialect _ _ _)).bind fun _ => .pure _
  | lookup l =>
    exact (avoids_drawing (t.avoids_lookupExpr scope.table l _ _)).bind fun _ => .pure _
  | swap s =>
    exact (avoids_drawing (t.avoids_columnRef scope.table s.column1)).map.bind fun _ =>
      (avoids_drawing (t.avoids_columnRef scope.table s.column2)).map.bind fun _ =>
        avoids_swapAssignments s _ _
  | other kind =>
    rintro _ ⟨_, _, _, ⟨⟩⟩
    rfl

theorem avoids_sharedUpdate (b : Batch) : Avoids (t.sharedUpdate scope b) := by
  unfold sharedUpdate
  have parts : Avoids (b.active.zipIdx.mapM fun a => t.sharedAssignments scope a.2 a.1) :=
    .mapM (fun _ => t.avoids_sharedAssignments scope _ _) _
  refine Avoids.bind (fun e h => parts e ⟨0, h⟩) fun given => ?_
  dsimp only
  split
  · exact .pure _
  · exact (Avoids.lift (t.avoids_tableRef _)).bind fun _ =>
      (Avoids.lift (t.avoids_assignments _)).bind fun _ =>
        (Avoids.lift (t.dialect.avoids_unit 0)).bind fun _ => .pure _

theorem avoids_swapUpdate (table : Path) (s : Swap) : Avoids (t.swapUpdate table s) := by
  refine (t.avoids_ident _).bind fun first => (t.avoids_ident _).bind fun second => ?_
  split
  · exact (avoids_ofNumber _).bind fun _ => .pure _
  · exact .pure _

theorem avoids_trinoPart (table : Path) (index : Nat) (tr : Transformation) :
    Avoids (t.trinoPart scope table index tr) := by
  cases tr with
  | template tr =>
    have ref (c : Value) : Avoids (do return Expr.name [.given (← t.ident c)]) :=
      (t.avoids_ident c).bind fun _ => .pure _
    exact (tr.avoids_expression t.dialect ref _ _ _).bind fun _ => .pure _
  | mutation m =>
    exact (Avoids.lift (t.avoids_ident m.column)).bind fun _ =>
      (Avoids.lift (m.avoids_boundExpr .trino _ 0)).bind fun _ => .pure _
  | lookup l => exact (Avoids.lift (t.avoids_lookupExpr scope.table l _ _)).bind fun _ => .pure _
  | swap s => exact (Avoids.lift (t.avoids_swapUpdate table s)).bind fun _ => .pure _
  | other kind => cases kind <;> exact .throw rfl

theorem avoids_trinoUpdates (b : Batch) : Avoids (t.trinoUpdates scope b) := by
  unfold trinoUpdates
  refine (Avoids.lift (t.avoids_tableRef _)).bind fun table => ?_
  refine (Avoids.mapM (fun _ => t.avoids_trinoPart scope table _ _) _).bind fun parts => ?_
  dsimp only
  split
  · exact .pure _
  · exact (Avoids.lift (t.avoids_assignments _)).bind fun _ => .pure _

end Updates

section Rebuilds

variable {ref : Value → Except Error Expr} (hr : ∀ v, Avoids (ref v))

include hr in
theorem avoids_rowExpr (salt : Int) (tr : Transformation) :
    Avoids (t.rowExpr scope ref salt tr) := by
  cases tr with
  | template tr => exact tr.avoids_expression t.dialect hr _ _ _
  | mutation m =>
    exact (Avoids.lift (hr _)).bind fun _ => .lift (m.avoids_boundExpr .clickhouse _ salt)
  | _ => exact .throw rfl

theorem avoids_needsRebuild (sortKey : Value) (tr : Transformation) :
    Avoids (needsRebuild sortKey tr) := by
  cases tr with
  | other kind => cases kind <;> exact .throw rfl
  | _ => exact .pure _

theorem avoids_clickhouseActions (b : Batch) : Avoids (t.clickhouseActions scope b) := by
  have ref (c : Value) : Avoids (do return Expr.name [.given (← t.ident c)]) :=
    (t.avoids_ident c).bind fun _ => .pure _
  unfold clickhouseActions
  refine (Avoids.mapM (fun _ => (avoids_needsRebuild _ _).bind fun _ => .pure _) _).bind
    fun routed => ?_
  refine (Avoids.mapM (fun m => ?_) _).bind fun assignments => ?_
  · exact (Avoids.lift (t.avoids_ident _)).bind fun _ =>
      (t.avoids_rowExpr scope ref _ _).bind fun _ => .pure _
  dsimp only
  split
  · exact .pure _
  · exact (Avoids.lift (t.avoids_tableRef _)).bind fun _ => .pure _

/-- The compilation of a batch never reports a repeated assignment. -/
theorem avoids_batchActions (b : Batch) : Avoids (t.batchActions scope b) := by
  unfold batchActions
  split
  · exact t.avoids_trinoUpdates scope b
  · exact t.avoids_clickhouseActions scope b
  · exact t.avoids_sharedUpdate scope b

theorem avoids_sourceRef (v : Value) : Avoids (t.sourceRef v) :=
  (t.avoids_ident v).bind fun _ => .pure _

theorem avoids_set (d : RebuildDraft) (column : Value) (x : Expr) : Avoids (d.set column x) := by
  unfold RebuildDraft.set
  split
  · exact .ok _
  · exact .error rfl

theorem avoids_rebuildSwap (d : RebuildDraft) (index : Nat) (s : Swap) :
    Avoids (t.rebuildSwap d index s) := by
  unfold rebuildSwap
  refine (t.avoids_sourceRef _).bind fun first => (t.avoids_sourceRef _).bind fun second => ?_
  split
  · exact (avoids_set d _ _).bind fun _ => avoids_set _ _ _
  · exact (avoids_ofNumber _).bind fun _ =>
      (avoids_set _ _ _).bind fun _ => avoids_set _ _ _

theorem avoids_rebuildLookup (d : RebuildDraft) (index : Nat) (l : Lookup) :
    Avoids (t.rebuildLookup d index l) :=
  (t.avoids_ident _).bind fun _ => (t.avoids_ident _).bind fun _ =>
    (t.avoids_tableRef _).bind fun _ => (t.avoids_sourceRef _).bind fun _ => avoids_set _ _ _

theorem avoids_rebuildStep (d : RebuildDraft) (index : Nat) (tr : Transformation) :
    Avoids (t.rebuildStep scope d index tr) := by
  cases tr with
  | swap s => exact .lift (t.avoids_rebuildSwap d index s)
  | lookup l => exact .lift (t.avoids_rebuildLookup d index l)
  | template tr =>
    exact (t.avoids_rowExpr scope t.avoids_sourceRef _ _).bind fun _ => .lift (avoids_set _ _ _)
  | mutation m =>
    exact (t.avoids_rowExpr scope t.avoids_sourceRef _ _).bind fun _ => .lift (avoids_set _ _ _)
  | other kind => exact .throw rfl

theorem avoids_rebuilding : Avoids t.rebuilding := by
  unfold rebuilding
  split
  · exact .ok _
  · exact .error rfl

theorem avoids_createShadow (table shadow : Value) : Avoids (t.createShadow table shadow) :=
  t.avoids_rebuilding.bind fun _ => (t.avoids_tableRef _).bind fun _ =>
    (t.avoids_tableRef _).bind fun _ => .pure _

theorem avoids_exchangeTables (table shadow old : Value) :
    Avoids (t.exchangeTables table shadow old) :=
  t.avoids_rebuilding.bind fun _ => (t.avoids_tableRef _).bind fun _ =>
    (t.avoids_tableRef _).bind fun _ => (t.avoids_tableRef _).bind fun _ => .pure _

theorem avoids_populateShadow (shadow : Value) (trs : List Transformation) :
    Avoids (t.populateShadow shadow scope trs) := by
  unfold populateShadow
  refine (Avoids.lift t.avoids_rebuilding).bind fun _ => ?_
  refine (Avoids.foldlM (fun found c => ?_) _ _).bind fun start => ?_
  · exact (Avoids.lift (t.avoids_sourceRef c)).bind fun _ => .pure _
  refine (Avoids.foldlM (fun d _ => t.avoids_rebuildStep scope d _ _) _ _).bind fun draft => ?_
  refine (Avoids.mapM (fun c => .lift (avoids_orError rfl _)) _).bind fun values => ?_
  exact (Avoids.lift (t.avoids_tableRef _)).bind fun _ =>
    (Avoids.mapM (fun c => .lift (t.avoids_ident c)) _).bind fun _ =>
      (Avoids.lift (t.avoids_tableRef _)).bind fun _ => .pure _

end Rebuilds
end Target
end SyntheticRows
