import SyntheticRows.Text.Printable
import SyntheticRows.Decimal.Shortest

/-!
# Quoted display of texts

Messages show a text between quotes: single ones, unless the text holds a single quote and no
double one. The quote in use, backslashes, controls and other unprintable characters are escaped.
-/
namespace SyntheticRows.Text

def hexDigits (width n : Nat) : List Char :=
  let ds := Nat.toDigits 16 n
  List.replicate (width - ds.length) '0' ++ ds

def escapeControl? (c : Char) : Option (List Char) :=
  match c with
  | '\t' => some ['\\', 't']
  | '\n' => some ['\\', 'n']
  | '\r' => some ['\\', 'r']
  | _ => none

def escapeCode (n : Nat) : List Char :=
  if n < 0x100 then '\\' :: 'x' :: hexDigits 2 n
  else if n < 0x10000 then '\\' :: 'u' :: hexDigits 4 n
  else '\\' :: 'U' :: hexDigits 8 n

def quoteFor (cs : List Char) : Char :=
  if cs.contains '\'' && !cs.contains '"' then '"' else '\''

def escapeChar (quote c : Char) : List Char :=
  if c = quote ∨ c = '\\' then ['\\', c]
  else (escapeControl? c).getD (if isPrintable c then [c] else escapeCode c.toNat)

/-- The text as messages show it. -/
def quoted (s : String) : String :=
  let cs := s.toList
  let quote := quoteFor cs
  String.ofList (quote :: cs.flatMap (escapeChar quote) ++ [quote])

/-- Bytes as messages show them: printable ASCII as it is, the rest in hexadecimal. -/
def quotedBytes (bytes : List UInt8) : String :=
  let cs := bytes.map fun b => Char.ofNat b.toNat
  let quote := quoteFor cs
  let escape (c : Char) : List Char :=
    if c = quote ∨ c = '\\' then ['\\', c]
    else (escapeControl? c).getD
      (if 32 ≤ c.toNat ∧ c.toNat < 127 then [c] else escapeCode c.toNat)
  String.ofList ('b' :: quote :: cs.flatMap escape ++ [quote])

/-!
## Percent-encoding

A character is written as its UTF-8 bytes, each as `%` and two upper-case hexadecimal digits,
unless it is a letter, a digit, one of `_.-~` or listed as safe.
-/

def isUnreserved (c : Char) : Bool :=
  c.isAlphanum || c = '_' || c = '.' || c = '-' || c = '~'

def percentByte (b : UInt8) : List Char := '%' :: (hexDigits 2 b.toNat).map Char.toUpper

def percentEncode (safe : List Char) (s : String) : String :=
  String.ofList (s.toList.flatMap fun c =>
    if isUnreserved c || safe.contains c then [c]
    else (String.singleton c).toUTF8.toList.flatMap percentByte)

end SyntheticRows.Text
