import SyntheticRows.Error

/-!
# Writing JSON

The compact form: no blanks, everything outside ASCII escaped by its UTF-16 units, and NaN and
the infinities spelled as words.
-/
namespace SyntheticRows.Json

/-- The UTF-16 units of a code point. -/
def units16 (n : Nat) : List Nat :=
  if n < 0x10000 then [n]
  else [0xD800 + (n - 0x10000) / 0x400, 0xDC00 + (n - 0x10000) % 0x400]

def escapeChar (c : Char) : List Char :=
  match c with
  | '"' => ['\\', '"']
  | '\\' => ['\\', '\\']
  | '\n' => ['\\', 'n']
  | '\r' => ['\\', 'r']
  | '\t' => ['\\', 't']
  | _ =>
    if c.toNat = 8 then ['\\', 'b']
    else if c.toNat = 12 then ['\\', 'f']
    else if 32 ≤ c.toNat ∧ c.toNat < 127 then [c]
    else (units16 c.toNat).flatMap fun u => '\\' :: 'u' :: Text.hexDigits 4 u

def writeText (s : String) : String :=
  String.ofList ('"' :: s.toList.flatMap escapeChar ++ ['"'])

def writeFloat : Double → String
  | .nan => "NaN"
  | .infinite false => "Infinity"
  | .infinite true => "-Infinity"
  | x => x.toText

def writeInt (i : Int) : Except Error String := do
  writable [.int i]
  return toString i

/-- Keys are texts; numbers and constants become texts, other keys are refused. -/
def writeKey : Value → Except Error String
  | .text s => .ok (writeText s)
  | .null => .ok (writeText "null")
  | .bool b => .ok (writeText (if b then "true" else "false"))
  | .int i => do return writeText (← writeInt i)
  | .float x => .ok (writeText (writeFloat x))
  | v => .error (.wrongKind
      ("keys must be str, int, float, bool or None, not " ++ v.qualifiedKind))

mutual

/-- `other` says how sets, dates, points in time and bytes are written. -/
def write (other : Value → Except Error String) : Value → Except Error String
  | .null => .ok "null"
  | .bool b => .ok (if b then "true" else "false")
  | .int i => writeInt i
  | .float x => .ok (writeFloat x)
  | .text s => .ok (writeText s)
  | .list items | .tuple items => do
    return "[" ++ Text.joined "," (← writeItems other items) ++ "]"
  | .mapping entries => do
    return "\x7b" ++ Text.joined "," (← writeEntries other entries) ++ "\x7d"
  | .set items => other (.set items)
  | .date d => other (.date d)
  | .datetime t => other (.datetime t)
  | .bytes content => other (.bytes content)

def writeItems (other : Value → Except Error String) : List Value → Except Error (List String)
  | [] => .ok []
  | v :: rest => do
    let head ← write other v
    return head :: (← writeItems other rest)

def writeEntries (other : Value → Except Error String) :
    List (Value × Value) → Except Error (List String)
  | [] => .ok []
  | e :: rest => do
    let head ← writeEntry other e
    return head :: (← writeEntries other rest)

def writeEntry (other : Value → Except Error String) : Value × Value → Except Error String
  | (k, v) => do
    let key ← writeKey k
    return key ++ ":" ++ (← write other v)

end

/-- Refuses what JSON has no form for. -/
def writeStrict (v : Value) : Except Error String :=
  write (fun o => .error (.wrongKind
    ("Object of type " ++ o.kindName ++ " is not JSON serializable"))) v

/-- Writes what JSON has no form for by its display. -/
def writeLoose (v : Value) : Except Error String :=
  write (fun o => do return writeText (← o.shown)) v

end SyntheticRows.Json
