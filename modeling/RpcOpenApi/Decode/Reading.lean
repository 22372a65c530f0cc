import RpcOpenApi.Decode.Error

/-!
# Reading the members of an object

A record is read from the members of an object: its fields under their names, and the other
members as a whole. Every part of a record is read on its own, and what is reported is the problem
that stands first in the document (`Reading.seq`). So each field is described by what it is, and no
order of evaluation has to be kept in mind.

A problem has a place (`Problem.place`): the position of the member at which it is noticed. What is
only noticed at the end of the object, a missing field or a problem in the other members, comes
after all members.
-/

namespace RpcOpenApi

/-- The members of an object, as written. -/
abbrev Members := List (String × Json)

/-- An error with the place at which it is noticed. -/
structure Problem where
  place : Nat
  error : DecodeError

/-- The outcome of reading a part of a record. -/
inductive Reading (α : Type) where
  | ok (value : α)
  | problem (p : Problem)

namespace Reading

variable {α β : Type}

/-- Changes the value that was read. -/
def map (f : α → β) : Reading α → Reading β
  | ok a => ok (f a)
  | problem p => problem p

/-- Reads two parts. If both have a problem, the one that stands first is reported, and of two at
the same place that of the part named first. -/
def seq (f : Reading (α → β)) (a : Reading α) : Reading β :=
  match f, a with
  | ok f, ok a => ok (f a)
  | ok _, problem p => problem p
  | problem p, ok _ => problem p
  | problem p, problem q => problem (if q.place < p.place then q else p)

instance : Functor Reading where
  map := map

instance : Seq Reading where
  seq f a := f.seq (a ())

/-- The outcome without the place of the problem. -/
def toExcept : Reading α → Except DecodeError α
  | ok a => .ok a
  | problem p => .error p.error

/-- An outcome whose problem is noticed at a given place. -/
def ofExcept (place : Nat) : Except DecodeError α → Reading α
  | .ok a => ok a
  | .error e => problem ⟨place, e⟩

/-- An outcome whose problem is noticed after a number of members. -/
def after (n : Nat) : Reading α → Reading α
  | ok a => ok a
  | problem p => problem ⟨n + p.place, p.error⟩

/-- The value that was read, or another one instead of `none`. -/
def orElse (default : α) (r : Reading (Option α)) : Reading α := r.map (·.getD default)

end Reading

/-- A field that may be written once: its value, `none` if it is not written. The entries are the
members that carry the field's name, with their places and what reading them gave. A problem of the
first one comes before the fact that there is a second. -/
def Reading.single {α : Type} (field : String) :
    List (Nat × Except DecodeError α) → Reading (Option α)
  | [] => .ok none
  | (place, .error e) :: _ => .problem ⟨place, e⟩
  | [(_, .ok a)] => .ok (some a)
  | (_, .ok _) :: (place, _) :: _ => .problem ⟨place, .duplicateField field⟩

/-- A value that may be `null`. -/
def Decode.optional {α : Type} (decode : Json → Except DecodeError α) :
    Json → Except DecodeError (Option α)
  | .null => .ok none
  | j => return some (← decode j)

namespace Members

variable {α : Type}

/-- The members under some names, with their places, counted from `place` on. -/
def entries (names : List String) : Nat → Members → List (Nat × Json)
  | _, [] => []
  | place, (k, j) :: ms =>
    if k ∈ names then (place, j) :: entries names (place + 1) ms else entries names (place + 1) ms

/-- The members that have none of some names. -/
def others (names : List String) (ms : Members) : Members := ms.filter (fun m => m.1 ∉ names)

/-- A field that may be written once, under its name or under an alias. -/
def field? (ms : Members) (name : String) (decode : Json → Except DecodeError α)
    (aliases : List String) : Reading (Option α) :=
  Reading.single name ((entries (name :: aliases) 0 ms).map (fun e => (e.1, decode e.2)))

/-- A field that has to be written. -/
def required (ms : Members) (name : String) (decode : Json → Except DecodeError α) : Reading α :=
  match ms.field? name decode [] with
  | .ok (some a) => .ok a
  | .ok none => .problem ⟨ms.length, .missingField name⟩
  | .problem p => .problem p

/-- A field with a value for the case that it is not written. -/
def defaulted (ms : Members) (name : String) (decode : Json → Except DecodeError α) (default : α) :
    Reading α := (ms.field? name decode []).orElse default

/-- A field that may be left out; `null` says the same. -/
def optional (ms : Members) (name : String) (decode : Json → Except DecodeError α) :
    Reading (Option α) := ms.defaulted name (Decode.optional decode) none

/-- The free-form values of the members that have none of some names. -/
def extensions (ms : Members) (names : List String) : Reading (OrderedMap String Json) :=
  .ok (OrderedMap.ofPairs (Json.normalizeMembers (ms.others names)))

/-- A record that is read from the members that have none of some names. They are looked at once
all members have been read. -/
def flattened (ms : Members) (names : List String) (read : Members → Reading α) : Reading α :=
  (read (ms.others names)).after (ms.length + 1)

end Members

end RpcOpenApi
