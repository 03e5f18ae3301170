import SyntheticRows.Yaml.ScalarText

/-!
# Reading YAML tokens

Indentation opens and closes blocks, and a value mark turns the token before it into a key after
the fact. Such a key has to stand on the line of its mark, within 1024 characters.
-/
namespace SyntheticRows.Yaml

def emit (t : Token) : Scan Unit := modify fun s => { s with tokens := s.tokens.push t }

/-! ## Keys -/

def candidate? : Scan (Option KeyCandidate) := do
  let s ← get
  return (s.candidates.find? (·.1 = s.flowLevel)).map Prod.snd

/-- Gives up the candidate of this flow level; one that was required is an error. -/
def dropCandidate : Scan Unit := do
  if let some k ← candidate? then
    if k.required then fail
    modify fun s => { s with candidates := s.candidates.filter (·.1 ≠ s.flowLevel) }

/-- The next token may be a key, if keys are allowed here. At the indent of its block it has to
be one. -/
def saveCandidate : Scan Unit := do
  let s ← get
  if s.keyAllowed then
    dropCandidate
    let k : KeyCandidate := {
      place := s.tokens.size
      required := s.flowLevel = 0 && s.indent = s.column
      index := s.index
      line := s.line
      column := s.column }
    modify fun s => { s with candidates := (s.flowLevel, k) :: s.candidates }

/-- Gives up the candidates that are too far back. -/
def dropStale : Scan Unit := do
  let s ← get
  let stale (k : KeyCandidate) : Bool := k.line ≠ s.line || k.index + 1024 < s.index
  if s.candidates.any fun c => stale c.2 && c.2.required then fail
  set { s with candidates := s.candidates.filter fun c => !stale c.2 }

def allowKeys (allowed : Bool) : Scan Unit := modify ({ · with keyAllowed := allowed })

/-! ## Blocks -/

/-- Closes the blocks that are indented more than a column. -/
def closeBlocks (column : Int) : Scan Unit := do
  let s ← get
  if s.flowLevel = 0 then
    set (go s column s.indents.length)
where
  go (s : Scanner) (column : Int) : Nat → Scanner
    | 0 => s
    | n + 1 =>
      match s.indents with
      | outer :: rest =>
        if column < s.indent then
          go { s with indent := outer, indents := rest, tokens := s.tokens.push .blockEnd } column n
        else s
      | [] => s

/-- Opens a block if the column is indented more than the block around it. -/
def openBlock (column : Nat) : Scan Bool := do
  let s ← get
  if s.indent < column then
    set { s with indents := s.indent :: s.indents, indent := column }
    return true
  return false

/-- Puts a token before the one with a given number. -/
def insertAt (place : Nat) (t : Token) : Scan Unit :=
  modify fun s => { s with
    tokens := s.tokens.extract 0 place ++ #[t] ++ s.tokens.extract place s.tokens.size }

/-! ## Directives, anchors and tags -/

def digits : Scan Nat := do
  let ds ← takeAll isDigit
  if ds.isEmpty then fail
  return natOfDigits ds

def versionDirective : Scan Token := do
  skipSpaces
  let major ← digits
  if (← peek) ≠ '.' then fail
  skip
  discard digits
  if !isSpaceOrEnd (← peek) then fail
  return .version major

/-- A handle in exclamation marks; a single mark is one too. -/
def tagHandle : Scan String := do
  if (← peek) ≠ '!' then fail
  skip
  if (← peek) = ' ' then return "!"
  let name ← takeAll isWordChar
  if (← peek) ≠ '!' then fail
  skip
  return String.ofList ('!' :: name ++ ['!'])

def isUriChar (c : Char) : Bool := c.isAlphanum || "-;/?:@&=+$,_.!~*'()[]%".toList.contains c

/-- Escaped bytes of a tag, which have to be UTF-8. -/
def uriEscapes (bytes : ByteArray) : Nat → Scan ByteArray
  | 0 => return bytes
  | fuel + 1 => do
    if (← peek) ≠ '%' then return bytes
    skip
    let ds := (← get).rest.take 2
    if ds.length < 2 then fail
    match natOfBase? 16 ds with
    | none => fail
    | some n =>
      skip 2
      uriEscapes (bytes.push n.toUInt8) fuel

def uriParts (content : List Char) : Nat → Scan (List Char)
  | 0 => return content
  | fuel + 1 => do
    let c ← peek
    if c = '%' then
      let bytes ← uriEscapes .empty (← remaining)
      match String.fromUTF8? bytes with
      | none => fail
      | some s => uriParts (content ++ s.toList) fuel
    else if isUriChar c then
      skip
      uriParts (content ++ [c]) fuel
    else return content

def tagUri : Scan String := do
  let content ← uriParts [] (← remaining)
  if content.isEmpty then fail
  return String.ofList content

def tagDirective : Scan Token := do
  skipSpaces
  let handle ← tagHandle
  if (← peek) ≠ ' ' then fail
  skipSpaces
  let meaning ← tagUri
  if !isSpaceOrEnd (← peek) then fail
  return .tagHandle handle meaning

def directive : Scan Unit := do
  skip
  let name ← takeAll isWordChar
  if name.isEmpty || !isSpaceOrEnd (← peek) then fail
  let t ← match String.ofList name with
    | "YAML" => versionDirective
    | "TAG" => tagDirective
    | _ => do
      skipAll (!isBreakOrEnd ·)
      pure .otherDirective
  endOfLine
  emit t

/-- The name behind an anchor or reference mark. -/
def anchorName : Scan String := do
  skip
  let name ← takeAll isWordChar
  let c ← peek
  if name.isEmpty || !(isSeparator c || "?:,]\x7d%@\x60".toList.contains c) then fail
  return String.ofList name

/-- Whether a tag at this place has a handle with a name: another exclamation mark follows. -/
def hasHandle (cs : List Char) : Bool := (cs.takeWhile (!isSpaceOrEnd ·)).contains '!'

def tagToken : Scan Token := do
  let s ← get
  let c := s.ahead 1
  let t ← if c = '<' then do
      skip 2
      let suffix ← tagUri
      if (← peek) ≠ '>' then fail
      skip
      pure (Token.tag none suffix)
    else if isSeparator c then do
      skip
      pure (Token.tag none "!")
    else if hasHandle (s.rest.drop 1) then do
      let handle ← tagHandle
      pure (Token.tag (some handle) (← tagUri))
    else do
      skip
      pure (Token.tag (some "!") (← tagUri))
  if !isSpaceOrEnd (← peek) then fail
  return t

/-! ## Tokens -/

/-- Skips blanks, comments and line breaks. A new line in a block may start a key. -/
def toNextToken : Nat → Scan Unit
  | 0 => return
  | fuel + 1 => do
    skipSpaces
    if (← peek) = '#' then skipAll (!isBreakOrEnd ·)
    if (← lineBreak).isEmpty then return
    if (← get).flowLevel = 0 then allowKeys true
    toNextToken fuel

def documentMark (t : Token) : Scan Unit := do
  closeBlocks (-1)
  dropCandidate
  allowKeys false
  skip 3
  emit t

def openFlow (t : Token) : Scan Unit := do
  saveCandidate
  modify fun s => { s with flowLevel := s.flowLevel + 1, keyAllowed := true }
  skip
  emit t

def closeFlow (t : Token) : Scan Unit := do
  dropCandidate
  modify fun s => { s with flowLevel := s.flowLevel - 1, keyAllowed := false }
  skip
  emit t

def flowEntry : Scan Unit := do
  allowKeys true
  dropCandidate
  skip
  emit .flowEntry

/-- Opens a block of a kind at this column, where a new block may start. -/
def startBlock (t : Token) : Scan Unit := do
  let s ← get
  if s.flowLevel = 0 then
    if !s.keyAllowed then fail
    if ← openBlock s.column then emit t

def blockEntry : Scan Unit := do
  startBlock .blockSequenceStart
  allowKeys true
  dropCandidate
  skip
  emit .blockEntry

def keyMark : Scan Unit := do
  startBlock .blockMappingStart
  allowKeys ((← get).flowLevel = 0)
  dropCandidate
  skip
  emit .key

/-- A value mark; the candidate of its level becomes a key. -/
def valueMark : Scan Unit := do
  match ← candidate? with
  | some k =>
    modify fun s => { s with candidates := s.candidates.filter (·.1 ≠ s.flowLevel) }
    insertAt k.place .key
    if (← get).flowLevel = 0 then
      if ← openBlock k.column then insertAt k.place .blockMappingStart
    allowKeys false
  | none =>
    startBlock .blockMappingStart
    allowKeys ((← get).flowLevel = 0)
    dropCandidate
  skip
  emit .value

/-- A token that may be a key. -/
def mayBeKey (read : Scan Token) : Scan Unit := do
  saveCandidate
  allowKeys false
  emit (← read)

def blockText (folded : Bool) : Scan Unit := do
  allowKeys true
  dropCandidate
  emit (.scalar (← blockScalar folded) false)

/-- Whether a plain scalar can start with this character before that one. -/
def startsPlain (inFlow : Bool) (c next : Char) : Bool :=
  !(isSeparator c || "-?:,[]\x7b\x7d#&*!|>'\"%@\x60".toList.contains c) ||
    (!isSeparator next && (c = '-' || (!inFlow && (c = '?' || c = ':'))))

/-- Reads the tokens that start at this place; false at the end of the text. -/
def nextTokens : Scan Bool := do
  toNextToken (← remaining)
  dropStale
  closeBlocks (← get).column
  let s ← get
  let c := s.ahead 0
  let next := s.ahead 1
  let inFlow := s.flowLevel ≠ 0
  let atStart := s.column = 0
  if c = '\x00' then
    closeBlocks (-1)
    dropCandidate
    return false
  if c = '%' && atStart then
    closeBlocks (-1)
    dropCandidate
    allowKeys false
    directive
  else if atStart && s.atMark '-' then documentMark .documentStart
  else if atStart && s.atMark '.' then documentMark .documentEnd
  else if c = '[' then openFlow .flowSequenceStart
  else if c = '\x7b' then openFlow .flowMappingStart
  else if c = ']' then closeFlow .flowSequenceEnd
  else if c = '\x7d' then closeFlow .flowMappingEnd
  else if c = ',' then flowEntry
  else if c = '-' && isSeparator next then blockEntry
  else if c = '?' && (inFlow || isSeparator next) then keyMark
  else if c = ':' && (inFlow || isSeparator next) then valueMark
  else if c = '*' then mayBeKey (.reference <$> anchorName)
  else if c = '&' then mayBeKey (.anchor <$> anchorName)
  else if c = '!' then mayBeKey tagToken
  else if c = '|' && !inFlow then blockText false
  else if c = '>' && !inFlow then blockText true
  else if c = '\'' then mayBeKey ((.scalar · false) <$> quotedScalar false)
  else if c = '"' then mayBeKey ((.scalar · false) <$> quotedScalar true)
  else if startsPlain inFlow c next then mayBeKey ((.scalar · true) <$> plainScalar)
  else fail
  return true

def allTokens : Nat → Scan Unit
  | 0 => return
  | fuel + 1 => do
    if ← nextTokens then allTokens fuel

/-- Line breaks of all kinds of files read as line feeds. -/
def unifyBreaks : List Char → List Char
  | '\r' :: '\n' :: rest => '\n' :: unifyBreaks rest
  | '\r' :: rest => '\n' :: unifyBreaks rest
  | c :: rest => c :: unifyBreaks rest
  | [] => []

def withoutMark : List Char → List Char
  | '\ufeff' :: rest => rest
  | cs => cs

/-- The tokens of a text; a byte order mark at its start is skipped. -/
def tokens (text : String) : Except Error (List Token) := do
  let cs := unifyBreaks text.toList
  if !cs.all isAllowed then throw .malformedYaml
  let start : Scanner := { rest := withoutMark cs }
  let (_, s) ← (allTokens (cs.length + 1)).run start
  return s.tokens.toList

end SyntheticRows.Yaml
