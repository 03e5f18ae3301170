import SyntheticRows.Spec.Transformation
import SyntheticRows.Sql.Target

/-!
# Templates

A template is literal text with placeholders: a pair of braces around one or more characters that
are no braces. A placeholder that names a column stands for the column's text, any other one for
itself.
-/
namespace SyntheticRows
open Sql

/-- Compilation that can leave warnings; they are kept if it fails later. -/
abbrev Warned := ExceptT Error (StateM (List String))

def warn (message : String) : Warned Unit := modify (· ++ [message])

namespace Template

inductive Piece where
  | text (content : List Char)
  | placeholder (name : List Char)
  deriving DecidableEq, Repr

def isBrace (c : Char) : Bool := c = '\x7b' || c = '\x7d'

/-- The rest of a placeholder after its opening brace: its name, and what follows it. -/
def closing? (cs : List Char) : Option (List Char × List Char) :=
  match cs.dropWhile (!isBrace ·) with
  | '\x7d' :: after =>
    let name := cs.takeWhile (!isBrace ·)
    if name.isEmpty then none else some (name, after)
  | _ => none

theorem length_of_closing? {cs name after : List Char} (h : closing? cs = some (name, after)) :
    after.length < cs.length := by
  have hle := (List.dropWhile_suffix (!isBrace ·) (l := cs)).length_le
  simp only [closing?] at h
  split at h
  · rename_i a hd
    split at h
    · cases h
    · simp only [Option.some.injEq, Prod.mk.injEq] at h
      rw [hd, List.length_cons] at hle
      rw [← h.2]
      omega
  · cases h

/-- The pieces from left to right; text comes in pieces of one character. -/
def pieces : List Char → List Piece
  | [] => []
  | c :: rest =>
    if c = '\x7b' then
      match _h : closing? rest with
      | some (name, after) => .placeholder name :: pieces after
      | none => .text [c] :: pieces rest
    else .text [c] :: pieces rest
termination_by cs => cs.length
decreasing_by
  all_goals simp only [List.length_cons]
  · have := length_of_closing? (by assumption); omega
  · omega
  · omega

/-- A placeholder as it was written. -/
def braced (name : List Char) : List Char := '\x7b' :: name ++ ['\x7d']

def isColumn (columns : List Value) (name : List Char) : Bool :=
  (Value.text (String.ofList name)).memberOf columns

/-- Placeholders that name no column turn into text, and texts that meet are put together. -/
def resolve (columns : List Value) : List Piece → List Piece
  | [] => []
  | p :: rest =>
    let piece := match p with
      | .placeholder name => if isColumn columns name then p else .text (braced name)
      | .text _ => p
    match piece, resolve columns rest with
    | .text a, .text b :: more => .text (a ++ b) :: more
    | piece, more => piece :: more

/-- The placeholders that name no column, in order and with repeats. -/
def unknownNames (columns : List Value) (ps : List Piece) : List String :=
  ps.filterMap fun
    | .placeholder name =>
      if isColumn columns name then none else some (String.ofList name)
    | .text _ => none

/-- The expression of one piece; `ref` refers to a column. -/
def pieceExpr (d : Dialect) (ref : Value → Except Error Expr) : Piece → Except Error Expr
  | .text content => d.literal (.text (String.ofList content))
  | .placeholder name => do return d.textCast (← ref (.text (String.ofList name)))

/-- The template's expression over one row. Unknown placeholders are refused if `strict`, and
otherwise kept with a warning. -/
def expression (d : Dialect) (table : Value) (columns : List Value) (strict : Bool)
    (ref : Value → Except Error Expr) (t : Template) : Warned Expr := do
  let text ← match t.template with
    | .text s => pure s.toList
    | v => throw (.notText v)
  let found := pieces text
  let unknown := unknownNames columns found
  if !unknown.isEmpty then
    let tableName ← table.shown
    if strict then throw (.unknownPlaceholders table t.template unknown)
    warn ("Template for " ++ tableName ++ "." ++ (← t.column.shown) ++
      " keeps unknown placeholders as text: " ++ Text.joined ", " unknown)
  let parts ← (resolve columns found).mapM fun p => liftM (pieceExpr d ref p)
  let x ← d.concat parts
  return if t.lowercase then d.lower x else x

end Template
end SyntheticRows
