import RpcOpenApi.Yaml.Layout

/-!
# Nodes of a YAML text

A node is a scalar, a sequence or a mapping, with an anchor and a tag if it has been given them, or
an alias for another node. A node that is left out is an empty plain scalar. A text has at most one
document (`Yaml.document?`).

The functions below read nodes off a list of tokens. They take fuel, which `document?` computes from
the number of tokens: each of them takes a token before it calls another, or calls one that does.
-/

namespace RpcOpenApi

namespace Yaml

/-- What is written before the content of a node. Anchors are names of type `ν`. -/
structure Properties (ν : Type) where
  anchor : Option ν := none
  tag : Option TagBytes := none

/-- A node. Anchors and aliases are names of type `ν`. -/
inductive Node (ν : Type) where
  | scalar (properties : Properties ν) (style : ScalarStyle) (text : List Char)
  | alias (name : ν)
  | sequence (properties : Properties ν) (items : List (Node ν))
  | mapping (properties : Properties ν) (entries : List (Node ν × Node ν))

/-- The node that stands where nothing is written. -/
def Node.empty {ν : Type} : Node ν := .scalar {} .plain []

/-- A node as written. -/
abbrev WrittenNode := Node (List Char)

/-- The handles of tags, with what they stand for. -/
abbrev TagHandles := List (List Char × TagBytes)

/-- The handles that every document has, unless it gives them another meaning. -/
def TagHandles.default : TagHandles :=
  [(['!'], tagBytes "!"), (['!', '!'], tagBytes "tag:yaml.org,2002:")]

namespace TagHandles

/-- The tag that a handle and a suffix make. -/
def tag? (handles : TagHandles) (handle : List Char) (suffix : TagBytes) : Option TagBytes :=
  if handle.isEmpty then some suffix else (handles.lookup handle).map (· ++ suffix)

end TagHandles

/-! ## Properties -/

/-- An anchor and a tag, in either order. -/
def properties? (handles : TagHandles) :
    List Token → Option (Properties (List Char) × List Token)
  | .anchor a :: .tag h s :: ts => do return ({ anchor := a, tag := ← handles.tag? h s }, ts)
  | .tag h s :: .anchor a :: ts => do return ({ anchor := a, tag := ← handles.tag? h s }, ts)
  | .anchor a :: ts => some ({ anchor := a }, ts)
  | .tag h s :: ts => do return ({ tag := ← handles.tag? h s }, ts)
  | ts => some ({}, ts)

/-- The node that has properties and no content. -/
def Properties.alone? {ν : Type} (p : Properties ν) : Option (Node ν) :=
  if p.anchor.isSome || p.tag.isSome then some (.scalar p .plain []) else none

/-! ## Content -/

/-- Where a node stands, as far as it decides which containers it may be. -/
inductive Context where
  | flow
  /-- In a block container, where a sequence has to be indented. -/
  | block
  /-- In a block mapping, where a sequence need not be indented. -/
  | member
  deriving DecidableEq

/-- The next token is one of some. -/
def nextIn (tokens ts : List Token) : Bool := ts.head?.any (· ∈ tokens)

/-- The tokens after the comma before an item of a flow collection, which every item but the first
has. The collection may end after a comma. -/
def flowSeparator? (isFirst : Bool) (last : Token) (ts : List Token) : Option (List Token) :=
  if isFirst || nextIn [last] ts then some ts
  else if nextIn [.flowEntry] ts then some (ts.drop 1)
  else none

mutual

/-- Reads a node. -/
def node? (handles : TagHandles) :
    Nat → Context → List Token → Option (WrittenNode × List Token)
  | 0, _, _ => none
  | fuel + 1, context, ts => do
    if let .alias name :: ts := ts then return (.alias name, ts)
    let (p, ts) ← properties? handles ts
    match context, ts with
    | _, .scalar style text :: ts => return (.scalar p style text, ts)
    | _, .flowSequenceStart :: ts =>
      let (items, ts) ← flowItems? handles fuel true ts
      return (.sequence p items, ts)
    | _, .flowMappingStart :: ts =>
      let (entries, ts) ← flowEntries? handles fuel true ts
      return (.mapping p entries, ts)
    | .block, .blockSequenceStart :: ts | .member, .blockSequenceStart :: ts =>
      let (items, ts) ← blockItems? handles fuel ts
      return (.sequence p items, ts)
    | .block, .blockMappingStart :: ts | .member, .blockMappingStart :: ts =>
      let (entries, ts) ← blockEntries? handles fuel ts
      return (.mapping p entries, ts)
    | .member, .blockEntry :: _ =>
      let (items, ts) ← levelItems? handles fuel ts
      return (.sequence p items, ts)
    | _, ts => return (← p.alone?, ts)

/-- Reads a node, or nothing if one of some tokens is the next. -/
def nodeUnless? (handles : TagHandles) :
    Nat → Context → List Token → List Token → Option (WrittenNode × List Token)
  | 0, _, _, _ => none
  | fuel + 1, context, ends, ts =>
    if nextIn ends ts then some (.empty, ts) else node? handles fuel context ts

/-- Reads the items of a block sequence. -/
def blockItems? (handles : TagHandles) : Nat → List Token → Option (List WrittenNode × List Token)
  | fuel + 1, .blockEntry :: ts => do
    let (item, ts) ← nodeUnless? handles fuel .block [.blockEntry, .blockEnd] ts
    let (items, ts) ← blockItems? handles fuel ts
    return (item :: items, ts)
  | _ + 1, .blockEnd :: ts => some ([], ts)
  | _, _ => none

/-- Reads the items of a block sequence that is not indented further than the mapping around it. -/
def levelItems? (handles : TagHandles) : Nat → List Token → Option (List WrittenNode × List Token)
  | 0, _ => none
  | fuel + 1, .blockEntry :: ts => do
    let (item, ts) ← nodeUnless? handles fuel .block [.blockEntry, .key, .value, .blockEnd] ts
    let (items, ts) ← levelItems? handles fuel ts
    return (item :: items, ts)
  | _ + 1, ts => some ([], ts)

/-- Reads the entries of a block mapping. -/
def blockEntries? (handles : TagHandles) :
    Nat → List Token → Option (List (WrittenNode × WrittenNode) × List Token)
  | fuel + 1, .key :: ts => do
    let (k, ts) ← nodeUnless? handles fuel .member [.key, .value, .blockEnd] ts
    let (v, ts) ← match ts with
      | .value :: ts => nodeUnless? handles fuel .member [.key, .value, .blockEnd] ts
      | ts => some (.empty, ts)
    let (entries, ts) ← blockEntries? handles fuel ts
    return ((k, v) :: entries, ts)
  | _ + 1, .blockEnd :: ts => some ([], ts)
  | _, _ => none

/-- Reads the items of a flow sequence. An item with a colon is a mapping of one entry. -/
def flowItems? (handles : TagHandles) :
    Nat → Bool → List Token → Option (List WrittenNode × List Token)
  | 0, _, _ => none
  | fuel + 1, isFirst, ts => do
    match ← flowSeparator? isFirst .flowSequenceEnd ts with
    | .flowSequenceEnd :: ts => return ([], ts)
    | .key :: ts =>
      let (k, ts) ←
        if nextIn [.value, .flowEntry, .flowSequenceEnd] ts then some (Node.empty, ts.drop 1)
        else node? handles fuel .flow ts
      let (v, ts) ← flowValue? handles fuel .flowSequenceEnd ts
      let (items, ts) ← flowItems? handles fuel false ts
      return (.mapping {} [(k, v)] :: items, ts)
    | ts =>
      let (item, ts) ← node? handles fuel .flow ts
      let (items, ts) ← flowItems? handles fuel false ts
      return (item :: items, ts)

/-- Reads the entries of a flow mapping. -/
def flowEntries? (handles : TagHandles) :
    Nat → Bool → List Token → Option (List (WrittenNode × WrittenNode) × List Token)
  | 0, _, _ => none
  | fuel + 1, isFirst, ts => do
    match ← flowSeparator? isFirst .flowMappingEnd ts with
    | .flowMappingEnd :: ts => return ([], ts)
    | .key :: ts =>
      let (k, ts) ← nodeUnless? handles fuel .flow [.value, .flowEntry, .flowMappingEnd] ts
      let (v, ts) ← flowValue? handles fuel .flowMappingEnd ts
      let (entries, ts) ← flowEntries? handles fuel false ts
      return ((k, v) :: entries, ts)
    | ts =>
      let (k, ts) ← node? handles fuel .flow ts
      let (entries, ts) ← flowEntries? handles fuel false ts
      return ((k, .empty) :: entries, ts)

/-- Reads the value of an entry of a flow collection. -/
def flowValue? (handles : TagHandles) :
    Nat → Token → List Token → Option (WrittenNode × List Token)
  | 0, _, _ => none
  | fuel + 1, last, .value :: ts => nodeUnless? handles fuel .flow [.flowEntry, last] ts
  | _ + 1, _, ts => some (.empty, ts)

end

/-! ## Documents -/

/-- The directives of a document: the handles of its tags, and what is left. A version is given at
most once, and has to be 1.1 or 1.2. -/
def directives? (hasVersion : Bool) (handles : TagHandles) :
    List Token → Option (TagHandles × List Token)
  | .versionDirective major minor :: ts =>
    if hasVersion || major ≠ 1 || (minor ≠ 1 && minor ≠ 2) then none
    else directives? true handles ts
  | .tagDirective handle expansion :: ts =>
    if (handles.lookup handle).isSome then none
    else directives? hasVersion (handles ++ [(handle, expansion)]) ts
  | ts => some (handles, ts)

/-- The only document of a text has been read: nothing follows but marks of its end. -/
def isOver (ts : List Token) : Bool := ts.all (· = .documentEnd)

/-- A token that a document does not begin with unless its start is marked. -/
def isDocumentHead : Token → Bool
  | .versionDirective .. | .tagDirective .. | .documentStart => true
  | _ => false

/-- The root of the only document of a text, `none` if there is no document at all. -/
def document? (tokens : List Token) : Option (Option WrittenNode) := do
  let fuel := 3 * tokens.length + 3
  if tokens.isEmpty then return none
  let (handles, ts) ←
    if tokens.head?.any isDocumentHead then
      match ← directives? false [] tokens with
      | (handles, .documentStart :: ts) => some (handles ++ .default, .documentStart :: ts)
      | _ => none
    else some (.default, tokens)
  let (root, ts) ← match ts with
    | .documentStart :: ts =>
      if ts.isEmpty || ts.head?.any (fun t => isDocumentHead t || t = .documentEnd) then
        some (.empty, ts)
      else node? handles fuel .block ts
    | ts => node? handles fuel .block ts
  if isOver ts then return some root else none

end Yaml

end RpcOpenApi
