import SyntheticRows.Yaml.Token

/-!
# Scalars in YAML text

The forms in which a scalar can be written: plain, in single or double quotes, and the literal and
folded blocks. Each reader gives the content of the scalar.
-/
namespace SyntheticRows.Yaml

/-! ## Blocks -/

/-- What happens to the line breaks at the end of a block. -/
inductive Chomping where
  | clip
  | strip
  | keep
  deriving DecidableEq, Repr

def chomping? (c : Char) : Option Chomping :=
  if c = '+' then some .keep else if c = '-' then some .strip else none

/-- A digit that gives the indent of a block; zero is refused. -/
def indentDigit : Scan (Option Nat) := do
  let c ← peek
  if !isDigit c then return none
  if c = '0' then fail
  skip
  return some (digitValue c)

def chompingMark : Scan (Option Chomping) := do
  match chomping? (← peek) with
  | some c => skip; return some c
  | none => return none

/-- Both marks behind the block indicator, in either order. -/
def blockHeader : Scan (Chomping × Option Nat) := do
  let first ← chompingMark
  let increment ← indentDigit
  let chomping ← match first, increment with
    | none, some _ => chompingMark
    | c, _ => pure c
  if !isSpaceOrEnd (← peek) then fail
  endOfLine
  return (chomping.getD .clip, increment)

/-- The blank lines before a block whose indent is not given, and the widest of them. -/
def leadingBreaks (widest : Nat) (breaks : List (List Char)) :
    Nat → Scan (List (List Char) × Nat)
  | 0 => return (breaks, widest)
  | fuel + 1 => do
    let c ← peek
    if c = ' ' then
      skip
      leadingBreaks (max widest (← get).column) breaks fuel
    else if isBreak c then
      let text ← lineBreak
      leadingBreaks widest (breaks ++ [text]) fuel
    else return (breaks, widest)

/-- Skips spaces up to an indent. -/
def skipIndent (indent : Nat) : Scan Unit := do
  let s ← get
  let spaces := (s.rest.takeWhile (· = ' ')).length
  skip (min spaces (indent - s.column))

/-- The line breaks up to the next line of a block. -/
def blockBreaks (indent : Nat) (breaks : List (List Char)) : Nat → Scan (List (List Char))
  | 0 => return breaks
  | fuel + 1 => do
    skipIndent indent
    if isBreak (← peek) then
      let text ← lineBreak
      blockBreaks indent (breaks ++ [text]) fuel
    else return breaks

def isSpaceOrTab (c : Char) : Bool := c = ' ' || c = '\t'

/-- Whether another line of the block starts here. -/
def inBlock (indent : Nat) : Scan Bool := do
  return (← get).column = indent && (← peek) ≠ '\x00'

/-- The lines of a block: the content so far, the last line break and the breaks after it. In a
folded block a single break between lines that start with no blank is a space. -/
def blockLines (folded : Bool) (indent : Nat) (content : List Char) (breaks : List (List Char)) :
    Nat → Scan (List Char × List Char × List (List Char))
  | 0 => return (content, [], breaks)
  | fuel + 1 => do
    let startsText := !isSpaceOrTab (← peek)
    let line ← takeAll (!isBreakOrEnd ·)
    let content := content ++ breaks.flatten ++ line
    let text ← lineBreak
    let breaks ← blockBreaks indent [] (← remaining)
    if ← inBlock indent then
      let folds := folded && text = ['\n'] && startsText && !isSpaceOrTab (← peek)
      let joint := if !folds then text else if breaks.isEmpty then [' '] else []
      blockLines folded indent (content ++ joint) breaks fuel
    else return (content, text, breaks)

/-- A literal or folded block after its indicator. -/
def blockScalar (folded : Bool) : Scan String := do
  skip
  let (chomping, increment) ← blockHeader
  let least := (max 1 ((← get).indent + 1)).toNat
  let (breaks, indent) ← match increment with
    | none => do
      let (breaks, widest) ← leadingBreaks 0 [] (← remaining)
      pure (breaks, max least widest)
    | some n => do
      let indent := least + n - 1
      pure (← blockBreaks indent [] (← remaining), indent)
  let (content, text, breaks) ←
    if ← inBlock indent then blockLines folded indent [] breaks (← remaining)
    else pure ([], [], breaks)
  let ending := match chomping with
    | .strip => []
    | .clip => text
    | .keep => text ++ breaks.flatten
  return String.ofList (content ++ ending)

/-! ## Quotes -/

def escapeOf? : Char → Option Char
  | '0' => some '\x00'
  | 'a' => some '\x07'
  | 'b' => some '\x08'
  | 't' | '\t' => some '\t'
  | 'n' => some '\n'
  | 'v' => some '\x0b'
  | 'f' => some '\x0c'
  | 'r' => some '\r'
  | 'e' => some '\x1b'
  | ' ' => some ' '
  | '"' => some '"'
  | '\\' => some '\\'
  | '/' => some '/'
  | 'N' => some '\u0085'
  | '_' => some '\u00a0'
  | 'L' => some '\u2028'
  | 'P' => some '\u2029'
  | _ => none

/-- How many hexadecimal digits follow an escape that gives a code point. -/
def escapeWidth? : Char → Option Nat
  | 'x' => some 2
  | 'u' => some 4
  | 'U' => some 8
  | _ => none

/-- The character of a code point; half of a surrogate pair has none of its own. -/
def charOfCode (n : Nat) : Scan Char := do
  if n ≥ twoPow 31 then throw .outOfRange
  if n > 0x10ffff then throw .badValue
  return if n.isValidChar then Char.ofNat n else '\ufffd'

def codeEscape (width : Nat) : Scan Char := do
  let ds := (← get).rest.take width
  if ds.length < width then fail
  match natOfBase? 16 ds with
  | none => fail
  | some n =>
    let c ← charOfCode n
    skip width
    return c

/-- The breaks after the first one inside quotes. -/
def quotedBreaks (breaks : List Char) : Nat → Scan (List Char)
  | 0 => return breaks
  | fuel + 1 => do
    if (← get).atDocumentMark then fail
    skipAll isSpaceOrTab
    if isBreak (← peek) then
      let text ← lineBreak
      quotedBreaks (breaks ++ text) fuel
    else return breaks

/-- An escape after its backslash; an escaped line break disappears. -/
def escape : Scan (List Char) := do
  let c ← peek
  match escapeOf? c, escapeWidth? c with
  | some x, _ => skip; return [x]
  | none, some width => skip; return [← codeEscape width]
  | none, none =>
    if !isBreak c then fail
    discard lineBreak
    quotedBreaks [] (← remaining)

/-- Blanks inside quotes. A single line break among them is a space. -/
def quotedSpaces : Scan (List Char) := do
  let spaces ← takeAll isSpaceOrTab
  let c ← peek
  if c = '\x00' then fail
  if !isBreak c then return spaces
  let text ← lineBreak
  let breaks ← quotedBreaks [] (← remaining)
  if text ≠ ['\n'] then return text ++ breaks
  return if breaks.isEmpty then [' '] else breaks

/-- The content up to the closing quote, which is passed. -/
def quotedContent (double : Bool) (content : List Char) : Nat → Scan (List Char)
  | 0 => fail
  | fuel + 1 => do
    let c ← peek
    let next ← peek 1
    if !double && c = '\'' && next = '\'' then
      skip 2
      quotedContent double (content ++ ['\'']) fuel
    else if c = (if double then '"' else '\'') then
      skip
      return content
    else if double && c = '\\' then
      skip
      let more ← escape
      quotedContent double (content ++ more) fuel
    else if isSeparator c then
      let more ← quotedSpaces
      quotedContent double (content ++ more) fuel
    else
      let run ← takeAll fun x =>
        !(isSeparator x || x = '\'' || x = '"' || x = '\\')
      if run.isEmpty then
        skip
        quotedContent double (content ++ [c]) fuel
      else quotedContent double (content ++ run) fuel

def quotedScalar (double : Bool) : Scan String := do
  skip
  return String.ofList (← quotedContent double [] (← remaining))

/-! ## Plain -/

def isFlowMark (c : Char) : Bool :=
  c = ',' || c = '[' || c = ']' || c = '\x7b' || c = '\x7d'

/-- How long a run of plain text is. It ends at a blank, at a value mark, and in a flow collection
at the marks of one. -/
def plainLength (inFlow : Bool) : List Char → Nat
  | [] => 0
  | c :: rest =>
    let next := rest.headD '\x00'
    if isSeparator c || (c = ':' && (isSeparator next || (inFlow && isFlowMark next))) ||
        (inFlow && (c = '?' || isFlowMark c)) then 0
    else plainLength inFlow rest + 1

/-- The breaks after the first one in a plain scalar; none at a document mark. -/
def plainBreaks (breaks : List Char) : Nat → Scan (Option (List Char))
  | 0 => return some breaks
  | fuel + 1 => do
    let c ← peek
    if c = ' ' then
      skip
      plainBreaks breaks fuel
    else if isBreak c then
      let text ← lineBreak
      if (← get).atDocumentMark then return none
      plainBreaks (breaks ++ text) fuel
    else return some breaks

/-- The blanks between two runs of plain text; none if the scalar ends there. -/
def plainSpaces : Scan (Option (List Char)) := do
  let spaces ← takeAll (· = ' ')
  if !isBreak (← peek) then return if spaces.isEmpty then none else some spaces
  let text ← lineBreak
  modify ({ · with keyAllowed := true })
  if (← get).atDocumentMark then return none
  match ← plainBreaks [] (← remaining) with
  | none => return none
  | some breaks =>
    if text ≠ ['\n'] then return some (text ++ breaks)
    return some (if breaks.isEmpty then [' '] else breaks)

/-- Runs of plain text with blanks between them; blanks at the end do not count. -/
def plainRuns (indent : Int) (content spaces : List Char) : Nat → Scan (List Char)
  | 0 => return content
  | fuel + 1 => do
    let s ← get
    let inFlow := s.flowLevel ≠ 0
    let n := plainLength inFlow s.rest
    if s.ahead 0 = '#' || n = 0 then return content
    modify ({ · with keyAllowed := false })
    let content := content ++ spaces ++ s.rest.take n
    skip n
    match ← plainSpaces with
    | none => return content
    | some spaces =>
      let s ← get
      if s.ahead 0 = '#' || (!inFlow && (s.column : Int) < indent) then return content
      plainRuns indent content spaces fuel

def plainScalar : Scan String := do
  let indent := (← get).indent + 1
  return String.ofList (← plainRuns indent [] [] (← remaining))

end SyntheticRows.Yaml
