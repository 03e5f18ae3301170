import SyntheticRows.Yaml.Lexer
import SyntheticRows.Yaml.Resolve

/-!
# YAML nodes

A document as a tree of tagged scalars, sequences and mappings. Aliases are replaced by the nodes
that they stand for; an anchor may be set once.
-/
namespace SyntheticRows.Yaml

inductive Node where
  | scalar (tag content : String)
  | sequence (tag : String) (items : List Node)
  | mapping (tag : String) (entries : List (Node × Node))

structure Parser where
  tokens : List Token
  /-- What the handles of tags mean. -/
  handles : List (String × String) := []
  /-- The anchors set so far; a node that is not complete yet has no content. -/
  anchors : List (String × Option Node) := []

abbrev Parse := StateT Parser (Except Error)

def malformed {α : Type} : Parse α := throw .malformedYaml

def current : Parse (Option Token) := do return (← get).tokens.head?

def advance : Parse Unit := modify fun p => { p with tokens := p.tokens.drop 1 }

/-- Passes a token if it is the next one. -/
def accept (t : Token) : Parse Bool := do
  if (← current) = some t then
    advance
    return true
  return false

/-- Whether one of these tokens, or the end, comes next. -/
def atAny (ts : List Token) : Parse Bool := do
  match ← current with
  | some t => return ts.contains t
  | none => return true

def emptyNode : Node := .scalar (standardTag "null") ""

def declareAnchor (name : Option String) : Parse Unit := do
  if let some n := name then
    if (← get).anchors.any (·.1 == n) then malformed
    modify fun p => { p with anchors := (n, none) :: p.anchors }

def fillAnchor (name : Option String) (node : Node) : Parse Node := do
  if let some n := name then
    modify fun p => { p with anchors := (n, some node) :: p.anchors.filter (·.1 ≠ n) }
  return node

def aliased (name : String) : Parse Node := do
  match (← get).anchors.find? (·.1 == name) with
  | some (_, some node) => return node
  | _ => malformed

/-- The full form of a tag. A lone exclamation mark asks for the ordinary resolution. -/
def fullTag (handle : Option String) (suffix : String) : Parse String := do
  match handle with
  | none => return suffix
  | some h =>
    match (← get).handles.find? (·.1 == h) with
    | some (_, meaning) => return meaning ++ suffix
    | none => malformed

/-- An anchor and a tag in either order. -/
def properties : Parse (Option String × Option String) := do
  let anchor : Parse (Option String) := do
    match ← current with
    | some (.anchor name) => advance; return some name
    | _ => return none
  let tag : Parse (Option String) := do
    match ← current with
    | some (.tag handle suffix) => advance; return some (← fullTag handle suffix)
    | _ => return none
  let first ← anchor
  let t ← tag
  match first with
  | some a => return (some a, t)
  | none => return (← if t.isSome then anchor else pure none, t)

def scalarNode (tag : Option String) (content : String) (plain : Bool) : Node :=
  match tag with
  | none => .scalar (if plain then resolveTag content else standardTag "str") content
  | some "!" => .scalar (resolveTag content) content
  | some t => .scalar t content

/-- The tag of a collection, with the default of its kind. -/
def collectionTag (tag : Option String) (default : String) : String :=
  match tag with
  | none | some "!" => standardTag default
  | some t => t

/-- Where a node stands: inside a flow collection or in a block, and there perhaps as the content
of a key, where a sequence needs no indent. -/
inductive Place where
  | flow
  | block
  | blockOfKey
  deriving DecidableEq, Repr

mutual

/-- One node; the number bounds the depth and length of what follows. -/
def node (place : Place) : Nat → Parse Node
  | 0 => malformed
  | fuel + 1 => do
    if let some (.reference name) ← current then
      advance
      return ← aliased name
    let (anchor, tag) ← properties
    declareAnchor anchor
    let next ← current
    if place = .blockOfKey && next = some .blockEntry then
      let items ← indentlessItems fuel
      return ← fillAnchor anchor (.sequence (collectionTag tag "seq") items)
    match next with
    | some (.scalar content plain) =>
      advance
      fillAnchor anchor (scalarNode tag content plain)
    | some .flowSequenceStart =>
      advance
      let items ← flowItems true fuel
      fillAnchor anchor (.sequence (collectionTag tag "seq") items)
    | some .flowMappingStart =>
      advance
      let entries ← flowEntries true fuel
      fillAnchor anchor (.mapping (collectionTag tag "map") entries)
    | some .blockSequenceStart =>
      if place = .flow then malformed
      advance
      let items ← blockItems fuel
      fillAnchor anchor (.sequence (collectionTag tag "seq") items)
    | some .blockMappingStart =>
      if place = .flow then malformed
      advance
      let entries ← blockEntries fuel
      fillAnchor anchor (.mapping (collectionTag tag "map") entries)
    | _ =>
      if anchor.isNone && tag.isNone then malformed
      fillAnchor anchor (scalarNode tag "" true)

/-- A node, unless one of the given tokens says that it is empty. -/
def nodeUnless (place : Place) (enders : List Token) : Nat → Parse Node
  | 0 => malformed
  | fuel + 1 => do
    if ← atAny enders then return emptyNode
    node place fuel

def blockItems : Nat → Parse (List Node)
  | 0 => malformed
  | fuel + 1 => do
    if ← accept .blockEntry then
      let item ← nodeUnless .block [.blockEntry, .blockEnd] fuel
      return item :: (← blockItems fuel)
    if ← accept .blockEnd then return []
    malformed

def indentlessItems : Nat → Parse (List Node)
  | 0 => malformed
  | fuel + 1 => do
    if ← accept .blockEntry then
      let item ← nodeUnless .block [.blockEntry, .key, .value, .blockEnd] fuel
      return item :: (← indentlessItems fuel)
    return []

def blockEntries : Nat → Parse (List (Node × Node))
  | 0 => malformed
  | fuel + 1 => do
    let enders := [Token.key, .value, .blockEnd]
    if ← accept .blockEnd then return []
    if !(← accept .key) then malformed
    let key ← nodeUnless .blockOfKey enders fuel
    let content ← if ← accept .value then nodeUnless .blockOfKey enders fuel
      else pure emptyNode
    return (key, content) :: (← blockEntries fuel)

/-- The value of an entry of a flow collection. -/
def flowValue (enders : List Token) : Nat → Parse Node
  | 0 => malformed
  | fuel + 1 => do
    if ← accept .value then nodeUnless .flow enders fuel else return emptyNode

/-- The items of a flow sequence. A key mark makes an item a mapping of one entry. -/
def flowItems (first : Bool) : Nat → Parse (List Node)
  | 0 => malformed
  | fuel + 1 => do
    if ← accept .flowSequenceEnd then return []
    if !first then
      if !(← accept .flowEntry) then malformed
      if ← accept .flowSequenceEnd then return []
    if ← accept .key then
      let key ← nodeUnless .flow [.value, .flowEntry, .flowSequenceEnd] fuel
      let content ← flowValue [.flowEntry, .flowSequenceEnd] fuel
      let item := Node.mapping (standardTag "map") [(key, content)]
      return item :: (← flowItems false fuel)
    let item ← node .flow fuel
    return item :: (← flowItems false fuel)

def flowEntries (first : Bool) : Nat → Parse (List (Node × Node))
  | 0 => malformed
  | fuel + 1 => do
    if ← accept .flowMappingEnd then return []
    if !first then
      if !(← accept .flowEntry) then malformed
      if ← accept .flowMappingEnd then return []
    if ← accept .key then
      let key ← nodeUnless .flow [.value, .flowEntry, .flowMappingEnd] fuel
      let content ← flowValue [.flowEntry, .flowMappingEnd] fuel
      return (key, content) :: (← flowEntries false fuel)
    let key ← node .flow fuel
    return (key, emptyNode) :: (← flowEntries false fuel)

end

def defaultHandles : List (String × String) := [("!", "!"), ("!!", standardTags)]

/-- The directives before a document; only YAML 1 is understood. -/
def directives (version : Bool) (handles : List (String × String)) : Nat → Parse Bool
  | 0 => malformed
  | fuel + 1 => do
    match ← current with
    | some (.version major) =>
      if version || major ≠ 1 then malformed
      advance
      discard (directives true handles fuel)
      return true
    | some (.tagHandle handle meaning) =>
      if handles.any (·.1 == handle) then malformed
      advance
      discard (directives version ((handle, meaning) :: handles) fuel)
      return true
    | some .otherDirective =>
      advance
      discard (directives version handles fuel)
      return true
    | _ =>
      modify ({ · with handles := handles ++ defaultHandles })
      return false

def skipDocumentEnds : Parse Unit :=
  modify fun p => { p with tokens := p.tokens.dropWhile (· = .documentEnd) }

/-- The one document of a stream; none if the stream is empty. -/
def document : Parse (Option Node) := do
  let fuel := 4 * (← get).tokens.length + 8
  modify ({ · with handles := defaultHandles })
  let isBare := match ← current with
    | some (.version _) | some (.tagHandle _ _) | some .otherDirective | some .documentStart =>
      false
    | _ => true
  let content ← if isBare then do
      if (← current).isNone then return none
      node .block fuel
    else do
      discard (directives false [] fuel)
      if !(← accept .documentStart) then malformed
      match ← current with
      | none | some .documentStart | some .documentEnd | some .otherDirective
      | some (.version _) | some (.tagHandle _ _) => pure emptyNode
      | _ => node .block fuel
  skipDocumentEnds
  if (← current).isSome then malformed
  return some content

def Node.ofText (text : String) : Except Error (Option Node) := do
  let tokens ← tokens text
  return (← document.run { tokens }).1

end SyntheticRows.Yaml
