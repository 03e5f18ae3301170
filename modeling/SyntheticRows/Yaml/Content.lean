import SyntheticRows.Value.Whole
import SyntheticRows.Yaml.Node

/-!
# Values of YAML nodes

The value of a node by its tag. Only the standard tags are known. In mappings the merge key puts
in the entries of other mappings, which those written out override.
-/
namespace SyntheticRows.Yaml

def withoutUnderscores (s : String) : List Char := s.toList.filter (· ≠ '_')

/-- A sign in front and what follows it. -/
def splitSign (cs : List Char) : Bool × List Char :=
  match cs with
  | '-' :: rest => (true, rest)
  | '+' :: rest => (false, rest)
  | _ => (false, cs)

/-- The number whose digits to base sixty are given, the first one counting most. -/
def sexagesimal (parts : List Int) : Int := parts.foldl (fun n p => 60 * n + p) 0

def readWhole (cs : List Char) : Except Error Int := (Value.text (String.ofList cs)).whole

/-- A numeral to a base that the given letter may announce. -/
def readWholeIn (base : Nat) (letter : Char) (cs : List Char) : Except Error Int :=
  (Text.readIntegerIn base letter cs).mapError (Value.notNumeral (.text (String.ofList cs)))

def magnitude (cs : List Char) : Except Error Int :=
  match cs with
  | ['0'] => .ok 0
  | '0' :: 'b' :: ds => readWholeIn 2 'b' ds
  | '0' :: 'x' :: ds => readWholeIn 16 'x' ds
  | '0' :: _ => readWholeIn 8 'o' cs
  | _ =>
    if cs.contains ':' then sexagesimal <$> (colonParts cs).mapM readWhole
    else readWhole cs

def intContent (s : String) : Except Error Value := do
  let (negative, cs) := splitSign (withoutUnderscores s)
  let n ← magnitude cs
  return .int (if negative then -n else n)

/-- A decimal of base sixty, each part added with its weight from the last to the first. -/
def sexagesimalDouble (parts : List Double) : Double :=
  (parts.reverse.foldl (fun (p : Double × Int) x =>
    (p.1.add (x.mul (.ofInt p.2)), p.2 * 60)) (.zero, 1)).1

def readDouble (cs : List Char) : Except Error Double :=
  orError .badValue (Double.ofChars? (Text.plainDigits (Text.trimBlanks cs)))

def floatContent (s : String) : Except Error Value := do
  let (negative, cs) := splitSign ((withoutUnderscores s).map Char.toLower)
  let x ← match cs with
    | ['.', 'i', 'n', 'f'] => pure (Double.infinite false)
    | ['.', 'n', 'a', 'n'] => pure Double.nan
    | _ =>
      if cs.contains ':' then sexagesimalDouble <$> (colonParts cs).mapM readDouble
      else readDouble cs
  return .float (if negative then x.neg else x)

/-- Six digits of a fraction of a second. -/
def micros (fraction : List Char) : Nat :=
  let ds := fraction.take 6
  natOfDigits ds * tenPow (6 - ds.length)

/-- The offset of a zone in microseconds; it has to be less than a day. -/
def zoneOffset (zone : Char × List Char × List Char) : Except Error Int :=
  let minutes := natOfDigits zone.2.1 * 60 + natOfDigits zone.2.2
  let offset : Int := (minutes * 60000000 : Nat)
  if minutes < 24 * 60 then .ok (if zone.1 = '-' then -offset else offset)
  else .error .badValue

def timestampContent (s : String) : Except Error Value := do
  let t ← orError .missingField (stamp? s.toList)
  let date := Date.ofParts? (natOfDigits t.year) (natOfDigits t.month) (natOfDigits t.day)
  match t.clock with
  | none => return .date (← orError .badValue date)
  | some (hour, minute, second) =>
    let offset ← match t.zone with
      | some z => some <$> zoneOffset z
      | none => pure (if t.utc then some 0 else none)
    let time := TimeOfDay.ofParts? (natOfDigits hour) (natOfDigits minute) (natOfDigits second)
      (micros t.fraction)
    return .datetime ⟨← orError .badValue date, ← orError .badValue time, offset⟩

def base64Value? (c : Char) : Option Nat :=
  if c.isUpper then some (c.toNat - 'A'.toNat)
  else if c.isLower then some (c.toNat - 'a'.toNat + 26)
  else if isDigit c then some (digitValue c + 52)
  else if c = '+' then some 62
  else if c = '/' then some 63
  else none

/-- The bytes of groups of four digits; the last group may be short. -/
def base64Bytes : List Nat → Option (List UInt8)
  | a :: b :: c :: d :: rest => do
    let n := ((a * 64 + b) * 64 + c) * 64 + d
    return (n / 65536).toUInt8 :: (n / 256 % 256).toUInt8 :: (n % 256).toUInt8 ::
      (← base64Bytes rest)
  | [a, b, c] => some [(a * 4 + b / 16).toUInt8, (b % 16 * 16 + c / 4).toUInt8]
  | [a, b] => some [(a * 4 + b / 16).toUInt8]
  | [_] => none
  | [] => some []

/-- Characters that are no digits are left out, and the padding has to fill the last group. -/
def binaryContent (s : String) : Except Error Value := do
  if s.toList.any fun c => c.toNat ≥ 128 then throw .malformedYaml
  let digits := (s.toList.takeWhile (· ≠ '=')).filterMap base64Value?
  let padding := (s.toList.filter (· = '=')).length
  if digits.length % 4 ≠ 0 && padding < 4 - digits.length % 4 then throw .malformedYaml
  return .bytes (← orError .malformedYaml (base64Bytes digits))

/-- The value of a scalar by its tag. -/
def scalarContent (tag content : String) : Except Error Value :=
  if tag == standardTag "str" then .ok (.text content)
  else if tag == standardTag "int" then intContent content
  else if tag == standardTag "float" then floatContent content
  else if tag == standardTag "null" then .ok .null
  else if tag == standardTag "bool" then do
    let word := String.ofList (content.toList.map Char.toLower)
    let b ← orError .missingEntry (boolWords.lookup word)
    return .bool b
  else if tag == standardTag "timestamp" then timestampContent content
  else if tag == standardTag "binary" then binaryContent content
  else .error .malformedYaml

def Node.tag : Node → String
  | .scalar tag _ | .sequence tag _ | .mapping tag _ => tag

/-- Whether a list is one of mappings with one entry each, which count as pairs. -/
def isPairsTag (tag : String) : Bool := tag == standardTag "omap" || tag == standardTag "pairs"

/-- The text of a mapping that stands for a scalar: the content of its value key. -/
def valueText? (entries : List (Node × Node)) : Option String :=
  entries.findSome? fun e => match e with
    | (k, .scalar _ content) => if k.tag == standardTag "value" then some content else none
    | _ => none

/-- Sets of whole numbers are gone through from the least one up, other sets as they were given. -/
def inOrder (items : List Value) : List Value :=
  match items.mapM fun v => match v with
    | .int i => some i
    | _ => none with
  | some numbers => (numbers.mergeSort (· ≤ ·)).map .int
  | none => items

mutual

def Node.content : Node → Except Error Value
  | .scalar tag content => scalarContent tag content
  | .sequence tag items => do
    if tag == standardTag "seq" then return .list (← contents items)
    else if isPairsTag tag then return .list (← pairs items)
    else throw .malformedYaml
  | .mapping tag entries => do
    if tag == standardTag "map" then
      let (merged, own) ← entryContents entries
      return .mapping ((merged ++ own).foldl (fun m e => Value.insertEntry e.1 e.2 m) [])
    else if tag == standardTag "set" then
      let (merged, own) ← entryContents entries
      let keys := (merged ++ own).foldl (fun m e => Value.insertEntry e.1 () m) []
      return .set (inOrder (keys.map Prod.fst))
    else match valueText? entries with
      | some text => scalarContent tag text
      | none => throw .malformedYaml

def contents : List Node → Except Error (List Value)
  | [] => .ok []
  | n :: rest => do
    let v ← n.content
    return v :: (← contents rest)

/-- Each pair as a tuple of two. -/
def pairs : List Node → Except Error (List Value)
  | [] => .ok []
  | n :: rest => do
    let v ← match n with
      | .mapping _ [e] => pair e
      | _ => throw .malformedYaml
    return v :: (← pairs rest)

def pair : Node × Node → Except Error Value
  | (k, v) => do
    let key ← k.content
    return .tuple [key, ← v.content]

/-- The entries put in by merge keys, and those written out. -/
def entryContents :
    List (Node × Node) → Except Error (List (Value × Value) × List (Value × Value))
  | [] => .ok ([], [])
  | e :: rest => do
    let (merged, own) ← entryContent e
    let (merged', own') ← entryContents rest
    return (merged ++ merged', own ++ own')

def entryContent :
    Node × Node → Except Error (List (Value × Value) × List (Value × Value))
  | (k, v) => do
    if k.tag == standardTag "merge" then return (← mergedEntries v, [])
    let key ← match k with
      | .scalar tag content =>
        if tag == standardTag "value" then pure (Value.text content) else k.content
      | _ => k.content
    if !key.isKey then throw .malformedYaml
    return ([], [(key, ← v.content)])

/-- The entries that a merge key puts in: those of a mapping, or of the mappings of a list, of
which the first ones win. -/
def mergedEntries : Node → Except Error (List (Value × Value))
  | .mapping _ entries => do
    let (merged, own) ← entryContents entries
    return merged ++ own
  | .sequence _ items => mergedLists items
  | .scalar _ _ => .error .malformedYaml

def mergedLists : List Node → Except Error (List (Value × Value))
  | [] => .ok []
  | n :: rest => do
    let first ← match n with
      | .mapping _ entries => do
        let (merged, own) ← entryContents entries
        pure (merged ++ own)
      | _ => throw .malformedYaml
    return (← mergedLists rest) ++ first

end

/-- The value of a text; an empty stream has null. -/
def read (text : String) : Except Error Value := do
  match ← Node.ofText text with
  | none => return .null
  | some node => node.content

end SyntheticRows.Yaml
