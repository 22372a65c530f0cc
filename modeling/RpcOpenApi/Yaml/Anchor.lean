import RpcOpenApi.OrderedMap
import RpcOpenApi.Yaml.Node

/-!
# What aliases stand for

An anchor gives its node a number: how many different names have been given before. An alias stands
for the node of its number, which is the last one in the text that has it (`Tree.target?`). A name
that is given anew gets a new number, and its earlier aliases keep the old one.
-/

namespace RpcOpenApi

namespace Yaml

/-- A node whose anchors and aliases are numbers. -/
abbrev NumberedNode := Node Nat

/-- The names that have been given so far, with their numbers. -/
abbrev AnchorNames := OrderedMap (List Char) Nat

/-- The properties of a node with its anchor as a number. -/
def Properties.number (names : AnchorNames) (p : Properties (List Char)) :
    Properties Nat × AnchorNames :=
  match p.anchor with
  | none => ({ anchor := none, tag := p.tag }, names)
  | some name =>
    ({ anchor := some names.length, tag := p.tag }, OrderedMap.insert names name names.length)

mutual

/-- A node with numbers for names. Every alias needs an anchor before it. -/
def Node.number? (names : AnchorNames) : WrittenNode → Option (NumberedNode × AnchorNames)
  | .scalar p style text =>
    let (p, names) := p.number names
    some (.scalar p style text, names)
  | .alias name => do return (.alias (← OrderedMap.get? names name), names)
  | .sequence p items => do
    let (p, names) := p.number names
    let (items, names) ← numberItems? names items
    return (.sequence p items, names)
  | .mapping p entries => do
    let (p, names) := p.number names
    let (entries, names) ← numberEntries? names entries
    return (.mapping p entries, names)

/-- The items of a sequence with numbers for names. -/
def numberItems? (names : AnchorNames) :
    List WrittenNode → Option (List NumberedNode × AnchorNames)
  | [] => some ([], names)
  | item :: items => do
    let (item, names) ← item.number? names
    let (items, names) ← numberItems? names items
    return (item :: items, names)

/-- The entries of a mapping with numbers for names. -/
def numberEntries? (names : AnchorNames) :
    List (WrittenNode × WrittenNode) → Option (List (NumberedNode × NumberedNode) × AnchorNames)
  | [] => some ([], names)
  | (k, v) :: entries => do
    let (k, names) ← k.number? names
    let (v, names) ← v.number? names
    let (entries, names) ← numberEntries? names entries
    return ((k, v) :: entries, names)

end

namespace NumberedNode

/-- A node with its number, if it has an anchor. -/
def numbered (p : Properties Nat) (n : NumberedNode) : List (Nat × NumberedNode) :=
  (p.anchor.map (fun i => (i, n))).toList

mutual

/-- The nodes that have numbers, in the order of the text. -/
def anchored : NumberedNode → List (Nat × NumberedNode)
  | .scalar p style text => numbered p (.scalar p style text)
  | .alias _ => []
  | .sequence p items => numbered p (.sequence p items) ++ anchoredItems items
  | .mapping p entries => numbered p (.mapping p entries) ++ anchoredEntries entries

/-- The nodes that have numbers, within the items of a sequence. -/
def anchoredItems : List NumberedNode → List (Nat × NumberedNode)
  | [] => []
  | item :: items => anchored item ++ anchoredItems items

/-- The nodes that have numbers, within the entries of a mapping. -/
def anchoredEntries : List (NumberedNode × NumberedNode) → List (Nat × NumberedNode)
  | [] => []
  | (k, v) :: entries => anchored k ++ anchored v ++ anchoredEntries entries

end

mutual

/-- The size of a node: one for a scalar or an alias, and two for a container besides its parts. -/
def size : NumberedNode → Nat
  | .scalar .. => 1
  | .alias _ => 1
  | .sequence _ items => 2 + sizeItems items
  | .mapping _ entries => 2 + sizeEntries entries

/-- The size of the items of a sequence. -/
def sizeItems : List NumberedNode → Nat
  | [] => 0
  | item :: items => size item + sizeItems items

/-- The size of the entries of a mapping. -/
def sizeEntries : List (NumberedNode × NumberedNode) → Nat
  | [] => 0
  | (k, v) :: entries => size k + size v + sizeEntries entries

end

end NumberedNode

/-- The content of a text: a node with what its aliases stand for. -/
structure Tree where
  root : NumberedNode
  /-- The numbered nodes, the last one first. -/
  targets : List (Nat × NumberedNode)

namespace Tree

/-- The tree of a node. -/
def ofNode? (n : WrittenNode) : Option Tree := do
  let (root, _) ← n.number? []
  return { root, targets := (NumberedNode.anchored root).reverse }

/-- The node that an alias stands for. -/
def target? (t : Tree) (i : Nat) : Option NumberedNode := t.targets.lookup i

/-- How often aliases may be followed when the tree is read. -/
def aliasLimit (t : Tree) : Nat := 100 * NumberedNode.size t.root

end Tree

/-- The tree of a text, `none` within if the text has no document. -/
def tree? (text : String) : Option (Option Tree) := do
  match ← document? (← tokens? text).toList with
  | none => return none
  | some n => return some (← Tree.ofNode? n)

end Yaml

end RpcOpenApi
