import SyntheticRows.Calendar.DateTime
import SyntheticRows.Decimal.Number
import SyntheticRows.Decimal.Power

/-!
# Values

The dynamic values of scenario documents, column contents and query results. A mapping keeps its
entries, and a set its items, in the order in which they first appeared.
-/
namespace SyntheticRows

inductive Value where
  | null
  | bool (b : Bool)
  | int (i : Int)
  | float (x : Double)
  | text (s : String)
  | date (d : Date)
  | datetime (t : DateTime)
  | bytes (content : List UInt8)
  | list (items : List Value)
  /-- A fixed number of values that belong together. -/
  | tuple (items : List Value)
  /-- Different values, each of which can be a key. -/
  | set (items : List Value)
  | mapping (entries : List (Value × Value))
  deriving Inhabited

namespace Value

/-- The name of the kind of a value, as messages give it. -/
def kindName : Value → String
  | null => "NoneType"
  | bool _ => "bool"
  | int _ => "int"
  | float _ => "float"
  | text _ => "str"
  | date _ => "date"
  | datetime _ => "datetime"
  | bytes _ => "bytes"
  | list _ => "list"
  | tuple _ => "tuple"
  | set _ => "set"
  | mapping _ => "dict"

/-- The name of the kind with that of its family, where it has one. -/
def qualifiedKind : Value → String
  | date _ => "datetime.date"
  | datetime _ => "datetime.datetime"
  | v => v.kindName

/-- Null, false, zero and everything empty count as absent. -/
def isPresent : Value → Bool
  | null => false
  | bool b => b
  | int i => i != 0
  | float x => !x.isZero
  | text s => !s.isEmpty
  | date _ | datetime _ => true
  | bytes content => !content.isEmpty
  | list items | tuple items | set items => !items.isEmpty
  | mapping entries => !entries.isEmpty

mutual

/-- The kind of what keeps a value from being a key: lists, sets and mappings can be none. -/
def changeableKind? : Value → Option String
  | list _ => some "list"
  | set _ => some "set"
  | mapping _ => some "dict"
  | tuple items => changeableItem? items
  | _ => none

def changeableItem? : List Value → Option String
  | [] => none
  | v :: rest => (changeableKind? v).or (changeableItem? rest)

end

/-- Whether the value can be a key. -/
def isKey (v : Value) : Bool := v.changeableKind?.isNone

mutual

/-- Whether every whole number in the value has few enough digits to be written. -/
def isWritable : Value → Bool
  | int i => SyntheticRows.isWritable i
  | list items | tuple items | set items => areWritable items
  | mapping entries => entriesWritable entries
  | _ => true

def areWritable : List Value → Bool
  | [] => true
  | v :: rest => isWritable v && areWritable rest

def entriesWritable : List (Value × Value) → Bool
  | [] => true
  | e :: rest => entryWritable e && entriesWritable rest

def entryWritable : Value × Value → Bool
  | (k, v) => isWritable k && isWritable v

end

/-- The number a value denotes where numbers are compared; a truth value is 0 or 1. -/
def asNumber? : Value → Option Number
  | bool b => some (.int (if b then 1 else 0))
  | int i => some (.int i)
  | float x => some (.float x)
  | _ => none

def ofNumber : Number → Value
  | .int i => .int i
  | .float x => .float x

mutual

/-- Equality of values: numbers by what they denote, sets and mappings without regard to order. -/
def same : Value → Value → Bool
  | null, null => true
  | bool a, b => sameNumber (.int (if a then 1 else 0)) b
  | int a, b => sameNumber (.int a) b
  | float a, b => sameNumber (.float a) b
  | text a, text b => a == b
  | date a, date b => a == b
  | datetime a, datetime b => a.same b
  | bytes a, bytes b => a == b
  | list a, list b => sameItems a b
  | tuple a, tuple b => sameItems a b
  | set a, set b => a.length == b.length && allIn a b
  | mapping a, mapping b => a.length == b.length && sameEntries a b
  | _, _ => false
termination_by structural v => v

def sameNumber (a : Number) (b : Value) : Bool :=
  match b.asNumber? with
  | some n => a.compare? n == some .eq
  | none => false

def sameItems : List Value → List Value → Bool
  | [], [] => true
  | a :: as, b :: bs => same a b && sameItems as bs
  | _, _ => false

/-- Every item of the first list has an equal one in the second. -/
def allIn : List Value → List Value → Bool
  | [], _ => true
  | v :: rest, other => other.any (fun w => same v w) && allIn rest other

/-- Every entry of the first list has an equal key with an equal content in the second. -/
def sameEntries : List (Value × Value) → List (Value × Value) → Bool
  | [], _ => true
  | (k, v) :: rest, other => other.any (fun e => same k e.1 && same v e.2) && sameEntries rest other

end

/-- The content under a text key. -/
def find? (entries : List (Value × Value)) (key : String) : Option Value :=
  (entries.find? fun e => match e.1 with
    | text s => s == key
    | _ => false).map Prod.snd

/-- Sets the content of a key, in place if an equal key is there and at the end otherwise. -/
def insertEntry {α : Type} (key : Value) (content : α) :
    List (Value × α) → List (Value × α)
  | [] => [(key, content)]
  | (k, v) :: rest =>
    if k.same key then (k, content) :: rest else (k, v) :: insertEntry key content rest

/-- Whether an equal value is in the list. -/
def memberOf (v : Value) (values : List Value) : Bool := values.any (v.same ·)

/-- The items of a value that can be gone through: a text has its characters, a mapping its keys
and bytes their numbers. -/
def items? : Value → Option (List Value)
  | list items | tuple items | set items => some items
  | text s => some (s.toList.map fun c => text (String.singleton c))
  | mapping entries => some (entries.map Prod.fst)
  | bytes content => some (content.map fun b => int b.toNat)
  | _ => none

end Value
end SyntheticRows
