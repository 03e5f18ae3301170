import SyntheticRows.Error

/-!
# YAML tokens

The tokens of a YAML 1.1 stream, and the state in which they are read off the text. The end of the
text reads as NUL, a character that no stream holds.
-/
namespace SyntheticRows.Yaml

inductive Token where
  | version (major : Nat)
  | tagHandle (handle meaning : String)
  | otherDirective
  | documentStart
  | documentEnd
  | blockSequenceStart
  | blockMappingStart
  | blockEnd
  | flowSequenceStart
  | flowSequenceEnd
  | flowMappingStart
  | flowMappingEnd
  | blockEntry
  | flowEntry
  | key
  | value
  | reference (name : String)
  | anchor (name : String)
  | tag (handle : Option String) (suffix : String)
  | scalar (content : String) (plain : Bool)
  deriving DecidableEq, Repr

/-- Characters that a stream may hold. -/
def isAllowed (c : Char) : Bool :=
  let n := c.toNat
  n = 9 || n = 10 || n = 13 || (0x20 ≤ n && n ≤ 0x7e) || n = 0x85 || (0xa0 ≤ n && n ≤ 0xfffd) ||
    0x10000 ≤ n

def isBreak (c : Char) : Bool :=
  c = '\n' || c = '\u0085' || c = '\u2028' || c = '\u2029'

def isBreakOrEnd (c : Char) : Bool := c = '\x00' || isBreak c

def isSpaceOrEnd (c : Char) : Bool := c = ' ' || isBreakOrEnd c

/-- Spaces, tabs, line breaks and the end separate tokens. -/
def isSeparator (c : Char) : Bool := c = '\t' || isSpaceOrEnd c

def isWordChar (c : Char) : Bool := c.isAlphanum || c = '-' || c = '_'

/-- A token before which a key mark may turn out to belong. -/
structure KeyCandidate where
  /-- The number of the token. -/
  place : Nat
  /-- Whether a value mark has to follow. -/
  required : Bool
  index : Nat
  line : Nat
  column : Nat

structure Scanner where
  rest : List Char
  index : Nat := 0
  line : Nat := 0
  column : Nat := 0
  tokens : Array Token := #[]
  flowLevel : Nat := 0
  indent : Int := -1
  /-- The indents of the enclosing blocks, the nearest first. -/
  indents : List Int := []
  keyAllowed : Bool := true
  /-- The candidates of the open flow levels. -/
  candidates : List (Nat × KeyCandidate) := []

abbrev Scan := StateT Scanner (Except Error)

def fail {α : Type} : Scan α := throw .malformedYaml

/-- The character some places ahead. -/
def Scanner.ahead (s : Scanner) (i : Nat) : Char := s.rest.getD i '\x00'

def peek (i : Nat := 0) : Scan Char := do return (← get).ahead i

/-- Moves past one character. A byte order mark takes no column. -/
def Scanner.forward (s : Scanner) : Scanner :=
  match s.rest with
  | [] => s
  | c :: rest =>
    if isBreak c then { s with rest, index := s.index + 1, line := s.line + 1, column := 0 }
    else if c = '\ufeff' then { s with rest, index := s.index + 1 }
    else { s with rest, index := s.index + 1, column := s.column + 1 }

def Scanner.forwards (s : Scanner) : Nat → Scanner
  | 0 => s
  | n + 1 => s.forward.forwards n

def skip (n : Nat := 1) : Scan Unit := modify (·.forwards n)

/-- Moves past the characters of a class and gives them. -/
def takeAll (p : Char → Bool) : Scan (List Char) := do
  let cs := (← get).rest.takeWhile p
  skip cs.length
  return cs

def skipAll (p : Char → Bool) : Scan Unit := discard (takeAll p)

def skipSpaces : Scan Unit := skipAll (· = ' ')

/-- Moves past a line break, if there is one, and gives its text: a line feed for the ordinary
ones, the separators of lines and paragraphs as they are. -/
def lineBreak : Scan (List Char) := do
  let c ← peek
  if !isBreak c then return []
  skip
  return if c = '\u2028' ∨ c = '\u2029' then [c] else ['\n']

/-- Skips a comment and needs the line to end there. -/
def endOfLine : Scan Unit := do
  skipSpaces
  if (← peek) = '#' then skipAll (!isBreakOrEnd ·)
  if !isBreakOrEnd (← peek) then fail
  discard lineBreak

/-- Whether a mark of three equal characters stands alone at this place. -/
def Scanner.atMark (s : Scanner) (c : Char) : Bool :=
  s.ahead 0 = c && s.ahead 1 = c && s.ahead 2 = c && isSeparator (s.ahead 3)

def Scanner.atDocumentMark (s : Scanner) : Bool := s.atMark '-' || s.atMark '.'

/-- How many steps a loop over the remaining text can take. -/
def remaining : Scan Nat := do return (← get).rest.length + 1

end SyntheticRows.Yaml
