import RpcOpenApi.Yaml.ScalarText

/-!
# The layout of a YAML text

A text is cut into tokens from its beginning to its end. A `Layout` is the state on the way: the
tokens so far, the open block containers, and the place where a key may have begun. Block containers
have no indicators of their own: one begins with an entry that is indented further than the
innermost open container, and ends before a token that is indented less (`Layout.enter`,
`Layout.close`). That a node is a key is seen only from the colon after it, so the token for the key
is inserted later, before the node (`Layout.value?`).
-/

namespace RpcOpenApi

namespace Yaml

/-- The beginning of a node that may turn out to be a key. -/
structure KeyStart where
  /-- The number of tokens before the node. -/
  before : Nat
  /-- Only a key may stand here. -/
  isRequired : Bool
  line : Nat
  column : Nat
  offset : Nat

/-- A key has to end on its line, and within 1024 bytes. -/
def KeyStart.reaches (k : KeyStart) (r : Rest) : Bool :=
  r.line ≤ k.line && r.offset ≤ k.offset + 1024

/-- The state of cutting a text into tokens. -/
structure Layout where
  tokens : Array Token
  /-- The columns of the open block containers, the innermost first. -/
  indents : List Nat
  /-- Where a key may have begun in the innermost flow collection, or outside of all. -/
  key : Option KeyStart
  /-- The same for the collections around it. -/
  outer : List (Option KeyStart)
  /-- A key may begin here. -/
  keyAllowed : Bool
  rest : Rest

namespace Layout

/-- The state before a text. -/
def start (cs : List Char) : Layout :=
  { tokens := #[], indents := [], key := none, outer := [], keyAllowed := true,
    rest := ⟨cs, 0, 0, 0⟩ }

/-- The text is within a flow collection. -/
def inFlow (s : Layout) : Bool := !s.outer.isEmpty

/-- The indentation of the innermost block container, -1 outside of all. -/
def indent (s : Layout) : Int :=
  match s.indents with
  | [] => -1
  | n :: _ => n

/-- Adds a token and goes on after it. -/
def emit (s : Layout) (t : Token) (rest : Rest) : Layout :=
  { s with tokens := s.tokens.push t, rest }

/-- Ends the block containers that are indented further than a column. -/
def close (s : Layout) (column : Int) : Layout :=
  if s.inFlow then s
  else
    let closed := s.indents.takeWhile (fun (n : Nat) => decide (column < n))
    { s with
      indents := s.indents.drop closed.length
      tokens := s.tokens ++ (List.replicate closed.length Token.blockEnd).toArray }

/-- Begins a block container at a column, before the tokens from a position on, unless the
innermost one is indented as far. -/
def enter (s : Layout) (column position : Nat) (t : Token) : Layout :=
  if s.inFlow || column ≤ s.indent then s
  else
    { s with
      indents := column :: s.indents
      tokens := s.tokens.insertIdxIfInBounds position t }

/-- Gives up the beginning of a key, which must not be a required one. -/
def dropKey? (s : Layout) : Option Layout :=
  if s.key.any (·.isRequired) then none else some { s with key := none }

/-- Notes that a key may begin here. -/
def noteKey? (s : Layout) : Option Layout :=
  if s.keyAllowed then do
    let s ← s.dropKey?
    let isRequired := !s.inFlow && decide (s.indent = s.rest.column)
    let k : KeyStart := ⟨s.tokens.size, isRequired, s.rest.line, s.rest.column, s.rest.offset⟩
    return { s with key := some k }
  else some s

/-! ## Between tokens -/

/-- Skips blanks, comments and ends of lines, and a byte order mark at the beginning of a line. In
block containers a key may begin on a new line, and before a key there may be no tabulator. -/
def skipSpace (inFlow inComment keyAllowed : Bool) (r : Rest) : List Char → Bool × Rest
  | [] => (keyAllowed, { r with chars := [] })
  | c :: cs =>
    if isBreak c then skipSpace inFlow false (keyAllowed || !inFlow) (r.down cs) cs
    else if inComment || c = ' ' || (c = '\t' && (inFlow || !keyAllowed))
        || (c = byteOrderMark && r.column = 0) then
      skipSpace inFlow inComment keyAllowed (r.right c cs) cs
    else if c = '#' then skipSpace inFlow true keyAllowed (r.right c cs) cs
    else (keyAllowed, { r with chars := c :: cs })

/-- The state at the next token, with the block containers closed that end before it. -/
def advance (s : Layout) : Layout :=
  let (keyAllowed, rest) := skipSpace s.inFlow false s.keyAllowed s.rest s.rest.chars
  { s with keyAllowed, rest }.close rest.column

/-! ## Indicators -/

/-- A directive. -/
def directive? (s : Layout) : Option Layout := do
  let s ← (s.close (-1)).dropKey?
  let (t, rest) ← Yaml.directive? (s.rest.skip 1)
  return { s with keyAllowed := false }.emit t rest

/-- A mark that starts or ends a document. -/
def documentMark? (s : Layout) (t : Token) : Option Layout := do
  let s ← (s.close (-1)).dropKey?
  return { s with keyAllowed := false }.emit t (s.rest.skip 3)

/-- The beginning of a flow collection. -/
def flowStart? (s : Layout) (t : Token) : Option Layout := do
  let s ← s.noteKey?
  let inner := { s with key := none, outer := s.key :: s.outer, keyAllowed := true }
  return inner.emit t (s.rest.skip 1)

/-- The end of a flow collection. -/
def flowEnd? (s : Layout) (t : Token) : Option Layout := do
  let s ← s.dropKey?
  let s := match s.outer with
    | [] => s
    | key :: outer => { s with key, outer }
  return { s with keyAllowed := false }.emit t (s.rest.skip 1)

/-- A comma in a flow collection. -/
def flowEntry? (s : Layout) : Option Layout := do
  let s ← s.dropKey?
  return { s with keyAllowed := true }.emit .flowEntry (s.rest.skip 1)

/-- A hyphen before an item. -/
def blockEntry? (s : Layout) : Option Layout := do
  if !s.inFlow && !s.keyAllowed then none
  let s ← (s.enter s.rest.column s.tokens.size .blockSequenceStart).dropKey?
  return { s with keyAllowed := true }.emit .blockEntry (s.rest.skip 1)

/-- A question mark before a key. -/
def key? (s : Layout) : Option Layout := do
  if !s.inFlow && !s.keyAllowed then none
  let s ← (s.enter s.rest.column s.tokens.size .blockMappingStart).dropKey?
  return { s with keyAllowed := !s.inFlow }.emit .key (s.rest.skip 1)

/-- A colon before a value. If a key may have begun before it, that is a key now; a block mapping
may begin with it. -/
def value? (s : Layout) : Option Layout := do
  match s.key.filter (·.reaches s.rest) with
  | some k =>
    let s := { s with tokens := s.tokens.insertIdxIfInBounds k.before .key }
    let s := s.enter k.column k.before .blockMappingStart
    return { s with key := none, keyAllowed := false }.emit .value (s.rest.skip 1)
  | none =>
    let s ← s.dropKey?
    if !s.inFlow && !s.keyAllowed then none
    let s := s.enter s.rest.column s.tokens.size .blockMappingStart
    return { s with keyAllowed := !s.inFlow }.emit .value (s.rest.skip 1)

/-! ## Nodes -/

/-- The name of an anchor or of an alias. -/
def name? (s : Layout) (token : List Char → Token) : Option Layout := do
  let s ← s.noteKey?
  let (name, rest) ← anchorName? (s.rest.skip 1)
  return { s with keyAllowed := false }.emit (token name) rest

/-- A tag. -/
def tag? (s : Layout) : Option Layout := do
  let s ← s.noteKey?
  let (t, rest) ← Yaml.tag? s.inFlow (s.rest.skip 1)
  return { s with keyAllowed := false }.emit t rest

/-- A block scalar. -/
def block? (s : Layout) (style : ScalarStyle) : Option Layout := do
  let s ← s.dropKey?
  let (text, rest) ← Yaml.block? (style = .literal) s.indent (s.rest.skip 1)
  return { s with keyAllowed := true }.emit (.scalar style text) rest

/-- A scalar in quotes. -/
def quoted? (s : Layout) (style : ScalarStyle) : Option Layout := do
  let s ← s.noteKey?
  let r := s.rest.skip 1
  let (text, rest) ←
    if style = .singleQuoted then singleQuoted? {} r r.chars
    else doubleQuoted? {} .text r r.chars
  return { s with keyAllowed := false }.emit (.scalar style text) rest

/-- A plain scalar. After one that ends with a line a key may begin. -/
def plain? (s : Layout) : Option Layout := do
  let s ← s.noteKey?
  let (text, endsLine, rest) ← Yaml.plain? s.inFlow (s.indent + 1) {} s.rest s.rest.chars
  return { s with keyAllowed := endsLine }.emit (.scalar .plain text) rest

/-- A plain scalar may begin with these characters. -/
def startsPlain (inFlow : Bool) (c : Char) (cs : List Char) : Bool :=
  if c = '-' then !cs.head?.any isBlank
  else if c = '?' || c = ':' then !inFlow && !endsWord cs
  else !isSpace c
    && c ∉ [',', '[', ']', '{', '}', '#', '&', '*', '!', '|', '>', '\'', '"', '%', '@', '\x60']

/-- Takes one token off the text, which begins with a character `c`. -/
def step? (s : Layout) (c : Char) (cs : List Char) : Option Layout :=
  let lineStart := s.rest.column = 0
  if lineStart && c = '%' then s.directive?
  else if lineStart && isDocumentMark '-' (c :: cs) then s.documentMark? .documentStart
  else if lineStart && isDocumentMark '.' (c :: cs) then s.documentMark? .documentEnd
  else if c = '[' then s.flowStart? .flowSequenceStart
  else if c = '{' then s.flowStart? .flowMappingStart
  else if c = ']' then s.flowEnd? .flowSequenceEnd
  else if c = '}' then s.flowEnd? .flowMappingEnd
  else if c = ',' then s.flowEntry?
  else if c = '-' && endsWord cs then s.blockEntry?
  else if c = '?' && (s.inFlow || endsWord cs) then s.key?
  else if c = ':' && (s.inFlow || endsWord cs) then s.value?
  else if c = '*' then s.name? .alias
  else if c = '&' then s.name? .anchor
  else if c = '!' then s.tag?
  else if c = '|' && !s.inFlow then s.block? .literal
  else if c = '>' && !s.inFlow then s.block? .folded
  else if c = '\'' then s.quoted? .singleQuoted
  else if c = '"' then s.quoted? .doubleQuoted
  else if startsPlain s.inFlow c cs then s.plain?
  else none

/-- The tokens of a text that has ended. -/
def finish? (s : Layout) : Option (Array Token) := do return (← (s.close (-1)).dropKey?).tokens

/-- Takes the tokens off the rest of the text, at most `fuel` of them. -/
def run? : Nat → Layout → Option (Array Token)
  | 0, _ => none
  | fuel + 1, s =>
    let s := s.advance
    match s.rest.chars with
    | [] => s.finish?
    | c :: cs => (s.step? c cs).bind (run? fuel)

end Layout

/-- The tokens of a text. Every step takes at least one character. -/
def tokens? (text : String) : Option (Array Token) :=
  if text.toList.all isAllowed then
    let cs := unifyBreaks text.toList
    (Layout.start cs).run? (cs.length + 1)
  else none

end Yaml

end RpcOpenApi
