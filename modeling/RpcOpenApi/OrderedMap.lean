/-!
# Maps that keep the order of their keys

A service description keeps the members of its objects in the order in which they were written. A
map is a list of keys with their values, in the order in which the keys were first inserted.
Inserting a present key replaces its value and moves nothing (`OrderedMap.insert`), so of several
entries for one key the first gives the position and the last the value (`OrderedMap.ofPairs`).
-/

namespace RpcOpenApi

/-- Keys with their values, in order of first insertion. -/
abbrev OrderedMap (κ ν : Type) := List (κ × ν)

namespace OrderedMap

variable {κ ν : Type}

/-- The keys, in order. -/
def keys (m : OrderedMap κ ν) : List κ := m.map Prod.fst

/-- The values, in order of their keys. -/
def values (m : OrderedMap κ ν) : List ν := m.map Prod.snd

/-- The keys are pairwise distinct. Maps built by `insert` keep this; a list of members read from a
text need not have it. -/
def Distinct (m : OrderedMap κ ν) : Prop := (keys m).Nodup

variable [DecidableEq κ]

/-- The value of a key, if the map has it. -/
def get? : OrderedMap κ ν → κ → Option ν
  | [], _ => none
  | (k', v) :: m, k => if k' = k then some v else get? m k

/-- The map has the key. -/
def contains (m : OrderedMap κ ν) (k : κ) : Bool := (get? m k).isSome

/-- Sets the value of a key: in place if the map has the key, else at the end. -/
def insert : OrderedMap κ ν → κ → ν → OrderedMap κ ν
  | [], k, v => [(k, v)]
  | (k', v') :: m, k, v => if k' = k then (k, v) :: m else (k', v') :: insert m k v

/-- Inserts the entries of a list one after the other. -/
def insertAll (m : OrderedMap κ ν) (entries : List (κ × ν)) : OrderedMap κ ν :=
  entries.foldl (fun m e => insert m e.1 e.2) m

/-- The map of a list of entries: each key stands where it was first met and has its last value. -/
def ofPairs (entries : List (κ × ν)) : OrderedMap κ ν := insertAll [] entries

/-- The map without a key. -/
def erase (m : OrderedMap κ ν) (k : κ) : OrderedMap κ ν := m.filter (fun e => !decide (e.1 = k))

end OrderedMap

end RpcOpenApi
