import RpcOpenApi.Decode.Shape
import RpcOpenApi.Yaml.Anchor
import RpcOpenApi.Yaml.Scalar

/-!
# Reading YAML

A YAML text is read as a JSON tree, for a place in a document whose shape is known (`Yaml.read?`).
The shape decides what a plain scalar means and which keys a mapping may have. The functions here
give `none` for every text that cannot be read; why is not told.
-/

namespace RpcOpenApi

namespace Yaml

/-- How deep containers may be nested. -/
def depthLimit : Nat := 128

/-- Reading with a bound for the number of times that an alias is followed. -/
abbrev Reader (α : Type) := StateT Nat Option α

/-! ## Scalars -/

/-- The tag of a kind of scalar that has a spelling of its own. -/
def coreTag (name : String) : TagBytes := tagBytes "tag:yaml.org,2002:" ++ tagBytes name

/-- What follows the exclamation mark at the beginning of a tag. -/
def afterMark? : TagBytes → Option TagBytes
  | first :: rest => if first = '!'.toNat.toUInt8 then some rest else none
  | [] => none

/-- The name of a local tag. -/
def localTag? (tag : Option TagBytes) : Option String := do
  String.fromUTF8? ⟨(← afterMark? (← tag)).toArray⟩

/-- A scalar whose text says what it is: a plain one, or a literal one that carries a tag. -/
def isSpelled (tag : TagBytes) (p : Properties Nat) (style : ScalarStyle) : Bool :=
  style = .plain || (style = .literal && p.tag = some tag)

/-- A text that stands for nothing. -/
def isNothing (text : List Char) : Bool := text.isEmpty || isNullWord text

/-- What a scalar says in a tree. -/
def Resolved.json? (text : List Char) : Resolved → Option Json
  | .null => some .null
  | .bool b => some (.bool b)
  | .int i => some (.num (.int i))
  | .wideInt _ => none
  | .float n => some (.num n)
  | .text => some (.str (String.ofList text))

/-- The integer that a text says. -/
def integerJson? (text : List Char) : Option Json := do
  match ← sizedInt? (← integer? text) with
  | .int i => return .num (.int i)
  | _ => none

/-- A scalar without a tag that says what it is. -/
def untaggedScalar? (style : ScalarStyle) (text : List Char) : Option Json :=
  if style = .plain then (resolvePlain text).json? text else some (.str (String.ofList text))

/-- A scalar in a place where any value may stand. A tag may say what it is; a local tag may not be
given, and one whose name is no text says nothing. -/
def anyScalar? (p : Properties Nat) (style : ScalarStyle) (text : List Char) : Option Json :=
  match p.tag with
  | none => untaggedScalar? style text
  | some tag =>
    if (localTag? tag).isSome then none
    else if (afterMark? tag).isSome then untaggedScalar? style text
    else if tag = coreTag "bool" then (boolWord? text).map .bool
    else if tag = coreTag "int" then integerJson? text
    else if tag = coreTag "float" then (float? text).map .num
    else if tag = coreTag "null" then if isNullWord text then some .null else none
    else some (.str (String.ofList text))

/-- The name of a variant: a text, or a local tag before nothing. -/
def variant? (p : Properties Nat) (style : ScalarStyle) (text : List Char) : Option Json :=
  match localTag? p.tag with
  | none => some (.str (String.ofList text))
  | some name =>
    if style = .plain && isNothing text then some (.str name) else none

/-- A scalar that stands for the absence of an optional value; `none` if it cannot be one or the
other. -/
def isAbsent? (p : Properties Nat) (style : ScalarStyle) (text : List Char) : Option Bool :=
  if style ≠ .plain then some false
  else
    match p.tag with
    | none => some (isNothing text)
    | some tag =>
      if tag = coreTag "null" then if isNullWord text then some true else none else some false

/-- A place where nothing at all is written. -/
def nothing? : Shape → Option Json
  | .list _ => some (.arr [])
  | .map _ | .codeMap _ | .record .. => some (.obj [])
  | .free | .generic _ | .genericCodes | .genericList _ | .genericRecord _ | .statusCode
  | .optional _ => some .null
  | .text | .boolean | .integer | .variant => none

/-- A scalar in a place that has to be filled. -/
def scalar? (shape : Shape) (p : Properties Nat) (style : ScalarStyle) (text : List Char) :
    Option Json :=
  match shape with
  | .text => some (.str (String.ofList text))
  | .boolean => if isSpelled (coreTag "bool") p style then (boolWord? text).map .bool else none
  | .integer => if isSpelled (coreTag "int") p style then integerJson? text else none
  | .variant => variant? p style text
  | .free | .generic _ | .genericCodes | .genericList _ | .genericRecord _ | .statusCode =>
    anyScalar? p style text
  | .list _ | .map _ | .codeMap _ | .record .. =>
    if style = .plain && text.isEmpty then nothing? shape else none
  | .optional _ => none

/-! ## Keys -/

/-- Which keys a mapping may have. -/
inductive KeyRule where
  /-- Any scalar, for its text. -/
  | anyScalar
  /-- A scalar that is a text. -/
  | text
  /-- A scalar that is a text or an integer. -/
  | code
  /-- A scalar that is a text, or the position of a name. A position without a name stands for no
  name at all, and so for the empty one. -/
  | position (names : List String)

/-- The key that a scalar is. -/
def key? (rule : KeyRule) (p : Properties Nat) (style : ScalarStyle) (text : List Char) :
    Option String :=
  match rule with
  | .anyScalar => some (String.ofList text)
  | .text => (anyScalar? p style text).bind Json.text?
  | .code =>
    match anyScalar? p style text with
    | some (.str s) => some s
    | some (.num (.int i)) => some (String.ofList (intText i))
    | _ => none
  | .position names =>
    match anyScalar? p style text with
    | some (.str s) => some s
    | some (.num (.int i)) => if i < 0 then none else some ((names[i.toNat]?).getD "")
    | _ => none

/-- What happens to a member of a mapping. -/
inductive MemberRule where
  | kept (shape : Shape)
  /-- The member is not kept, but it has to be readable. -/
  | checked
  | skipped

/-- What happens to a member of a record. -/
def MemberRule.ofShape? : Option Shape → MemberRule
  | some shape => .kept shape
  | none => .skipped

/-- The keys that a mapping may have, and what happens to a member. -/
def mappingRules? : Shape → Option (KeyRule × (String → MemberRule))
  | .free => some (.anyScalar, fun _ => .kept .free)
  | .generic members => some (.text, fun k => .kept ((members.lookup k).getD .whole))
  | .genericCodes => some (.code, fun _ => .kept .whole)
  | .genericRecord fields =>
    some (.position fields, fun k => if k ∈ fields then .kept .whole else .checked)
  | .map value => some (.anyScalar, fun _ => .kept value)
  | .codeMap value => some (.code, fun _ => .kept value)
  | .record fields others => some (.anyScalar, fun k => .ofShape? ((fields.lookup k).or others))
  | _ => none

/-- The shape of the items of a sequence. -/
def itemShape? : Shape → Option Shape
  | .free => some .free
  | .generic _ | .genericCodes | .genericRecord _ => some .whole
  | .list item | .genericList item => some item
  | _ => none

/-- A container in a place where any value may stand may not have a local tag. -/
def allowsTag (shape : Shape) (p : Properties Nat) : Bool :=
  match shape with
  | .free | .generic _ | .genericCodes | .genericList _ | .genericRecord _ =>
    (localTag? p.tag).isNone
  | _ => true

/-! ## Nodes -/

namespace Tree

/-- The node itself, or the one that an alias stands for. -/
def follow (t : Tree) : NumberedNode → Reader NumberedNode
  | .alias i => do
    match ← get with
    | 0 => failure
    | n + 1 =>
      set n
      t.target? i
  | n => return n

/-- Reads a key. -/
def key (t : Tree) (rule : KeyRule) (n : NumberedNode) : Reader String := do
  match ← t.follow n with
  | .scalar p style text => key? rule p style text
  | _ => failure

/-- Looks at a node that is not kept. It may be any value, with any values as keys. -/
def check (t : Tree) (depth : Nat) (n : NumberedNode) : Reader Unit := do
  match ← t.follow n with
  | .alias _ => failure
  | .scalar p style text => discard (anyScalar? p style text)
  | .sequence p items =>
    match depth with
    | depth + 1 =>
      if !allowsTag .whole p then failure
      items.forM (check t depth)
    | 0 => failure
  | .mapping p entries =>
    match depth with
    | depth + 1 =>
      if !allowsTag .whole p then failure
      entries.forM fun (k, v) => do
        check t depth k
        check t depth v
    | 0 => failure

/-- The shape of an optional value when it is there, and whether it may be left out. -/
def required : Shape → Bool × Shape
  | .optional inner => (true, (required inner).2)
  | shape => (false, shape)

/-- Reads a node in a place of a shape, with containers nested at most `depth` deep. -/
def node (t : Tree) (depth : Nat) (shape : Shape) (n : NumberedNode) : Reader Json := do
  let (isOptional, shape) := required shape
  match ← t.follow n with
  | .alias _ => failure
  | .scalar p style text =>
    if isOptional then
      if ← isAbsent? p style text then return .null
    scalar? shape p style text
  | .sequence p items =>
    match depth with
    | depth + 1 =>
      let inner ← itemShape? shape
      if !allowsTag shape p then failure
      return .arr (← items.mapM (node t depth inner))
    | 0 => failure
  | .mapping p entries =>
    match depth with
    | depth + 1 =>
      let (rule, memberRule) ← mappingRules? shape
      if !allowsTag shape p then failure
      let members ← entries.filterMapM fun (k, v) => do
        let name ← t.key rule k
        match memberRule name with
        | .kept inner => return some (name, ← node t depth inner v)
        | .checked => do
          t.check depth v
          return none
        | .skipped => return none
      return .obj members
    | 0 => failure

end Tree

/-- Reads a text as a tree for a place of a shape. -/
def read? (shape : Shape) (text : String) : Option Json := do
  match ← tree? text with
  | none => nothing? shape
  | some t => return (← (t.node depthLimit shape t.root).run t.aliasLimit).1

end Yaml

end RpcOpenApi
