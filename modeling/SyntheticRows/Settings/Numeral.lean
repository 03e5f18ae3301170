import SyntheticRows.Settings.Problem
import SyntheticRows.Text.Numeral

/-!
# Whole numbers in the texts of settings

A text is read strictly, as JSON writes whole numbers. If that fails it is tidied and read strictly
once more: blanks around it, a plus sign, leading zeros, a fraction of zeros and single underscores
are left out.
-/
namespace SyntheticRows.Settings

/-- A dash for a number below zero, then digits without leading zeros. The dash counts towards the
limit. -/
def strictInteger (cs : List Char) : Except Problem Int :=
  let (negative, body) := match cs with
    | '-' :: rest => (true, rest)
    | _ => (false, cs)
  let ds := body.takeWhile isDigit
  if ds.isEmpty then .error .unreadableInteger
  else if ds.head? = some '0' then
    if body.length = 1 then .ok 0 else .error .unreadableInteger
  else if digitLimit < ds.length + (if negative then 1 else 0) then .error .integerTooLong
  else if ds.length < body.length then .error .unreadableInteger
  else .ok (Text.signed negative (natOfDigits ds))

/-- The text without a plus sign, which no dash may follow. -/
def dropPlus? : List Char → Option (List Char)
  | '+' :: '-' :: _ => none
  | '+' :: rest => some rest
  | cs => some cs

/-- The text without zeros and underscores at its front, as long as a digit or a dash is left; the
last of them stays before a point and at the end. -/
def dropZeros? (cs : List Char) : Option (List Char) :=
  match cs with
  | '0' :: rest => go '0' rest
  | c :: _ => if c = '-' || isDigit c then some cs else none
  | [] => none
where
  go (last : Char) : List Char → Option (List Char)
    | [] => some [last]
    | c :: rest =>
      if c = '0' || c = '_' then go c rest
      else if c = '-' || isDigit c then some (c :: rest)
      else if c = '.' then some (last :: c :: rest)
      else none

/-- The text without a fraction of zeros. -/
def dropFraction (cs : List Char) : List Char :=
  match cs.dropWhile (· ≠ '.') with
  | _ :: fraction =>
    if !fraction.isEmpty && fraction.all (· = '0') then cs.takeWhile (· ≠ '.') else cs
  | [] => cs

/-- Whether every underscore stands between two other characters. `inside` says that one could
stand here. -/
def underscoresApart (inside : Bool) : List Char → Bool
  | [] => inside
  | c :: rest =>
    if c = '_' then inside && underscoresApart false rest else underscoresApart true rest

def dropUnderscores (cs : List Char) : List Char :=
  if underscoresApart false cs then cs.filter (· ≠ '_') else cs

def tidied? (cs : List Char) : Option (List Char) := do
  let cs ← dropZeros? (← dropPlus? (Text.trimBlanks cs))
  return dropUnderscores (dropFraction cs)

def integerOfText (s : String) : Except Problem Int :=
  match strictInteger s.toList with
  | .error .unreadableInteger =>
    match tidied? s.toList with
    | some cs => strictInteger cs
    | none => .error .unreadableInteger
  | r => r

end SyntheticRows.Settings
