import UpgradeSafety.Json.Display
import UpgradeSafety.Json.Equality
import UpgradeSafety.Syntax.Search

/-!
# Nodes by id

Nodes refer to other nodes by id. A node that was looked up once is remembered under its id, and is
taken again for any lookup that its type satisfies; otherwise the trees of all source files are
searched in order.
-/

namespace UpgradeSafety.Syntax

/-- The trees of a compilation and the nodes looked up so far, the latest first. -/
structure Nodes where
  trees : List Json
  known : List (Json × Json) := []

/-- Reading a compilation's trees: lookups are remembered. -/
abbrev Reading := StateT Nodes (Except Failure)

/-- Whether a source file's entry has a tree. -/
def hasTree : Json → Except Failure Bool
  | .obj fields => .ok (fields.lookup "ast").isSome
  | .arr items => .ok (items.any fun v => v.text? == some "ast")
  | .str s => .ok ((s.splitOn "ast").length != 1)
  | _ => .error (.fault .wrongSort)

/-- The trees of a compilation. -/
def Nodes.ofCompilation (output : Json) : Except Failure Nodes := do
  let sources ← (← output.getOr "sources" (.obj [])).entries
  let trees ← sources.filterMapM fun (_, source) => do
    if ← hasTree source then return some (← source.need "ast") else return none
  return ⟨trees, []⟩

/-- Whether a node has one of some types. -/
def hasType (wanted : List String) (node : Json) : Bool :=
  wanted.any fun w => (node.field "nodeType").text? == some w

/-- A list of words without repetitions, in increasing order. -/
def sortedWords (words : List String) : List String := (words.mergeSort (· ≤ ·)).eraseDups

/-- The first node of some types with an id in the trees. -/
def findNode (wanted : List String) (id : Json) : List Json → Except Failure Json
  | [] =>
    let types : Json := .arr ((sortedWords wanted).map .str)
    .error (.refused (.nodeNotFound id.display types.inspect))
  | tree :: rest =>
    let found := search wanted tree
    match found.nodes.find? fun node => (node.field "id").same id with
    | some node => .ok node
    | none =>
      match found.stop with
      | some e => .error e
      | none => findNode wanted id rest

/-- Looks up the node of some types with an id. -/
def lookUp (wanted : List String) (id : Json) : Reading Json := do
  let nodes ← get
  if !id.hashable then throw (.fault .wrongSort)
  let known := nodes.known.find? fun (k, _) => k.same id
  match known.filter fun (_, node) => hasType wanted node with
  | some (_, node) => return node
  | none =>
    let node ← findNode wanted id nodes.trees
    set { nodes with known := (id, node) :: nodes.known }
    return node

end UpgradeSafety.Syntax
