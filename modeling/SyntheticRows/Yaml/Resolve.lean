import SyntheticRows.Decimal.Reading
import SyntheticRows.Text.Classes

/-!
# Tags of plain scalars

The rules by which YAML 1.1 gives a tag to a plain scalar that has none.
-/
namespace SyntheticRows.Yaml

/-- What the tags of the standard types begin with. -/
def standardTags : String := "tag:yaml.org,2002:"

def standardTag (name : String) : String := standardTags ++ name

def boolWords : List (String × Bool) :=
  [("yes", true), ("no", false), ("true", true), ("false", false), ("on", true), ("off", false)]

/-- The word in lower case, with a capital, and in upper case. -/
def inThreeCases (words : List String) (s : String) : Bool :=
  words.any fun w =>
    s == w || s == w.capitalize || s == String.ofList (w.toList.map Char.toUpper)

def isBoolText (s : String) : Bool := inThreeCases (boolWords.map Prod.fst) s

def isNullText (s : String) : Bool := s == "" || s == "~" || inThreeCases ["null"] s

/-- Digits and underscores. -/
def isGrouped (cs : List Char) : Bool := cs.all fun c => isDigit c || c = '_'

/-- A digit, then digits and underscores. -/
def isNumeral : List Char → Bool
  | c :: rest => isDigit c && isGrouped rest
  | [] => false

def unsigned (cs : List Char) : List Char :=
  match cs with
  | '-' :: rest | '+' :: rest => rest
  | _ => cs

/-- The parts of a text between colons. -/
def colonParts (cs : List Char) : List (List Char) :=
  let (last, parts) := cs.foldr
    (fun c (p : List Char × List (List Char)) =>
      if c = ':' then ([], p.1 :: p.2) else (c :: p.1, p.2)) ([], [])
  last :: parts

/-- One or two digits below sixty. -/
def isSixtieth (cs : List Char) : Bool :=
  match cs with
  | [a] => isDigit a
  | [a, b] => isDigit a && a ≤ '5' && isDigit b
  | _ => false

def isSigned (cs : List Char) : Bool :=
  match cs with
  | '-' :: _ | '+' :: _ => true
  | _ => false

/-- An exponent has to have a sign. -/
def isExponent : List Char → Bool
  | [] => true
  | c :: rest =>
    (c = 'e' || c = 'E') && isSigned rest && !(unsigned rest).isEmpty && (unsigned rest).all isDigit

/-- Decimals have a point; the whole part may be left out, but then there is no sign. -/
def isDecimalText (cs : List Char) : Bool :=
  let body := unsigned cs
  let whole := body.takeWhile (· ≠ '.')
  match body.dropWhile (· ≠ '.') with
  | '.' :: rest =>
    let fraction := rest.takeWhile fun c => isDigit c || c = '_'
    let tail := rest.dropWhile fun c => isDigit c || c = '_'
    if whole.isEmpty then !isSigned cs && isNumeral fraction && isExponent tail
    else isNumeral whole && isExponent tail
  | _ => false

/-- A number to base sixty whose last part has a fraction. -/
def isSexagesimalDecimal (cs : List Char) : Bool :=
  let body := unsigned cs
  let whole := body.takeWhile (· ≠ '.')
  match body.dropWhile (· ≠ '.'), colonParts whole with
  | '.' :: rest, first :: more@(_ :: _) =>
    isNumeral first && more.all isSixtieth && isGrouped rest
  | _, _ => false

def isInfinityText (cs : List Char) : Bool :=
  match unsigned cs with
  | '.' :: word => ["inf", "Inf", "INF"].contains (String.ofList word)
  | _ => false

def isNanText (cs : List Char) : Bool :=
  match cs with
  | '.' :: word => ["nan", "NaN", "NAN"].contains (String.ofList word)
  | _ => false

def isFloatText (cs : List Char) : Bool :=
  isDecimalText cs || isSexagesimalDecimal cs || isInfinityText cs || isNanText cs

def isIntText (cs : List Char) : Bool :=
  let body := unsigned cs
  match body with
  | '0' :: 'b' :: ds => !ds.isEmpty && ds.all fun c => c = '0' || c = '1' || c = '_'
  | '0' :: 'x' :: ds => !ds.isEmpty && ds.all fun c => (hexValue? c).isSome || c = '_'
  | '0' :: ds => ds.all fun c => ('0' ≤ c && c ≤ '7') || c = '_'
  | c :: _ =>
    match colonParts body with
    | [ds] => c ≠ '0' && isNumeral ds
    | first :: more => isNumeral first && more.all isSixtieth
    | [] => false
  | [] => false

/-- The parts of a timestamp, each as its digits. -/
structure Stamp where
  year : List Char
  month : List Char
  day : List Char
  /-- Hours, minutes and seconds. -/
  clock : Option (List Char × List Char × List Char) := none
  fraction : List Char := []
  zone : Option (Char × List Char × List Char) := none
  utc : Bool := false

/-- Between `least` and `most` digits at the front, as many as there are. -/
def someDigits? (least most : Nat) (cs : List Char) : Option (List Char × List Char) :=
  let ds := (cs.take most).takeWhile isDigit
  if least ≤ ds.length then some (ds, cs.drop ds.length) else none

def expect? (c : Char) : List Char → Option (List Char)
  | d :: rest => if c = d then some rest else none
  | [] => none

def isBlankChar (c : Char) : Bool := c = ' ' || c = '\t'

/-- An optional zone at the end: `Z`, or a sign with hours and perhaps minutes. -/
def zone? (s : Stamp) (cs : List Char) : Option Stamp :=
  match cs.dropWhile isBlankChar with
  | [] => if cs.isEmpty then some s else none
  | 'Z' :: rest => if rest.isEmpty then some { s with utc := true } else none
  | sign :: rest => do
    if sign ≠ '+' ∧ sign ≠ '-' then none
    let (hours, rest) ← someDigits? 1 2 rest
    match rest with
    | [] => return { s with zone := some (sign, hours, []) }
    | ':' :: rest =>
      let (minutes, rest) ← someDigits? 2 2 rest
      if rest.isEmpty then return { s with zone := some (sign, hours, minutes) } else none
    | _ => none

/-- Reads a timestamp; one without a clock is a date. -/
def stamp? (cs : List Char) : Option Stamp := do
  let (year, rest) ← someDigits? 4 4 cs
  let (month, rest) ← someDigits? 1 2 (← expect? '-' rest)
  let (day, rest) ← someDigits? 1 2 (← expect? '-' rest)
  let date : Stamp := { year, month, day }
  match rest with
  | [] => return date
  | c :: more =>
    let clock ← if c = 'T' ∨ c = 't' then some more
      else if isBlankChar c then some (more.dropWhile isBlankChar) else none
    let (hour, rest) ← someDigits? 1 2 clock
    let (minute, rest) ← someDigits? 2 2 (← expect? ':' rest)
    let (second, rest) ← someDigits? 2 2 (← expect? ':' rest)
    let s := { date with clock := some (hour, minute, second) }
    match rest with
    | '.' :: rest => zone? { s with fraction := rest.takeWhile isDigit } (rest.dropWhile isDigit)
    | _ => zone? s rest

/-- A date alone needs two digits for month and day. -/
def isTimestampText (cs : List Char) : Bool :=
  match stamp? cs with
  | some s => s.clock.isSome || (s.month.length = 2 && s.day.length = 2)
  | none => false

/-- The tag of a plain scalar without one. -/
def resolveTag (content : String) : String :=
  let cs := content.toList
  standardTag <|
    if isBoolText content then "bool"
    else if isFloatText cs then "float"
    else if isIntText cs then "int"
    else if content == "<<" then "merge"
    else if isNullText content then "null"
    else if isTimestampText cs then "timestamp"
    else if content == "=" then "value"
    else if content == "!" || content == "&" || content == "*" then "yaml"
    else "str"

end SyntheticRows.Yaml
