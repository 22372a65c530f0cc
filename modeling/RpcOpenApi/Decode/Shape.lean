/-!
# What a place in a document expects

A `Shape` says what a place in a document expects, as far as that decides how a text is read. In a
record that has a place for its declared fields only, the other members are skipped
(`Shape.member?`).

In a YAML text the type of a plain scalar depends on what its place expects: `1.0` is a text where
a text is expected and a number in a free-form value. The types of the document model give their
shapes beside their readers.

Some parts of a document are first read as a whole and then looked at. In those parts only a text
that is written as one is a text (`Shape.generic`).
-/

namespace RpcOpenApi

/-- What a place in a document expects. -/
inductive Shape where
  /-- The text of any scalar, as it is written. -/
  | text
  | boolean
  | integer
  /-- The name of a variant. -/
  | variant
  /-- A key that is a text or an integer. -/
  | statusCode
  /-- A free-form value. Its keys may be any scalars. -/
  | free
  /-- A value that is read as a whole. Its keys are texts. In a mapping the members with the given
  names have the given shapes. -/
  | generic (members : List (String × Shape))
  /-- A mapping that is read as a whole, with keys that are texts or integers. -/
  | genericCodes
  /-- A list that is read as a whole. -/
  | genericList (item : Shape)
  /-- A record that is read as a whole. Its keys are the names of the fields or their positions;
  other members are not kept. -/
  | genericRecord (fields : List String)
  /-- A value that may be left out. -/
  | optional (inner : Shape)
  | list (item : Shape)
  /-- A map; its keys may be any scalars. -/
  | map (value : Shape)
  /-- A map whose keys are texts or integers. -/
  | codeMap (value : Shape)
  /-- A record with its fields. The other members have a shape of their own, or are skipped. -/
  | record (fields : List (String × Shape)) (others : Option Shape)

namespace Shape

/-- A value that is read as a whole. -/
def whole : Shape := .generic []

/-- What the items of an array expect in a place of a shape. A record may be written as the array of
its fields. -/
def item : Shape → Nat → Shape
  | .optional inner, position => inner.item position
  | .list item, _ => item
  | .record fields _, position => ((fields[position]?).map Prod.snd).getD whole
  | _, _ => whole

/-- What the value of a member with a key expects in a place of a shape, `none` if the member is
skipped. -/
def member? : Shape → String → Option Shape
  | .optional inner, key => inner.member? key
  | .map value, _ | .codeMap value, _ => some value
  | .record fields others, key => (fields.lookup key).or others
  | _, _ => some whole

end Shape

end RpcOpenApi
