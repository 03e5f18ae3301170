import SyntheticRows.Text.Classes
import SyntheticRows.Value.Display

/-!
# Names of shadow tables

A table is replaced through a shadow table and an old one. Both are named after the table, the
time in seconds and a tag of eight hexadecimal digits, so that left-over ones can be recognised.
-/
namespace SyntheticRows

inductive ShadowRole where
  | new
  | old
  deriving DecidableEq, Repr

def ShadowRole.name : ShadowRole → String
  | new => "new"
  | old => "old"

/-- `_<table>_<role>_<now>_<tag>`. -/
def shadowName (table : Value) (role : ShadowRole) (now : Int) (tag : Nat) : String :=
  "_" ++ table.display ++ "_" ++ role.name ++ "_" ++ toString now ++ "_" ++
    String.ofList (Text.hexDigits 8 tag)

namespace Shadow

def isHexDigit (c : Char) : Bool := isDigit c || ('a' ≤ c && c ≤ 'f')

/-- A non-empty run of characters of a class, and the rest. -/
def run? (p : Char → Bool) (cs : List Char) : Option (List Char) :=
  if (cs.takeWhile p).isEmpty then none else some (cs.dropWhile p)

/-- What follows a given beginning. -/
def after? (start : List Char) (cs : List Char) : Option (List Char) :=
  if start.isPrefixOf cs then some (cs.drop start.length) else none

/-- `digits_hex`, with a line feed at most after it. -/
def isStamp (cs : List Char) : Bool :=
  match run? Text.isDecimal cs with
  | some ('_' :: rest) =>
    match run? isHexDigit rest with
    | some rest => rest = [] || rest = ['\n']
    | none => false
  | _ => false

/-- Whether a table name is that of a shadow or old table of `table`. -/
def isOrphanOf (table name : String) : Bool :=
  match after? ('_' :: table.toList ++ ['_']) name.toList with
  | none => false
  | some rest =>
    [ShadowRole.new, ShadowRole.old].any fun role =>
      match after? (role.name.toList ++ ['_']) rest with
      | some stamp => isStamp stamp
      | none => false

end Shadow
end SyntheticRows
