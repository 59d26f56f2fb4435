import TwigLayout.Value.Yaml.Document

/-!
# Values of YAML graphs

A collection takes its shape from its node: its parts are values if they are scalars, and the
numbers of nodes otherwise. The collections of a document are shaped in the order in which they are
found, from the root on, so of several faults the one nearest to the root counts. A value is then
put together from the shapes. One that holds itself goes on without end, and is cut off where
nothing looks at it any more.
-/

namespace TwigLayout.Yaml

/-! ## Shapes -/

/-- A part of a collection. -/
inductive Part where
  | value (v : Value)
  | node (id : Id)
  deriving DecidableEq, Repr

inductive Shape where
  | list (items : List Part)
  | map (entries : List (Value × Part))
  | set (items : List Value)
  | pairs (items : List (Part × Part))
  deriving DecidableEq, Repr

/-- The nodes among the parts of a shape. -/
def Shape.nodes (shape : Shape) : List Id :=
  let node? : Part → Option Id
    | .node id => some id
    | .value _ => none
  match shape with
  | .list items => items.filterMap node?
  | .map entries => entries.filterMap fun (_, v) => node? v
  | .set _ => []
  | .pairs items => items.flatMap fun (k, v) => [k, v].filterMap node?

/-- The value of a shape whose nodes have values. The last value of a repeated key counts. -/
def Shape.value? (shape : Shape) (valueOf? : Id → Option Value) : Option Value :=
  let part? : Part → Option Value
    | .node id => valueOf? id
    | .value v => some v
  match shape with
  | .list items => do return .list (← items.mapM part?)
  | .map entries => do
    return .map (Entries.ofPairs (← entries.mapM fun (k, v) => do return (k, ← part? v)))
  | .set items => some (.set ((Entries.ofPairs (items.map fun v => (v, .null))).map (·.1)))
  | .pairs items => do
    return .list (← items.mapM fun (k, v) => do return .tuple [← part? k, ← part? v])

/-! ## From nodes to shapes -/

/-- What is known while the collections of a graph are shaped: those found so far in their order,
and the shapes by the numbers of the nodes. -/
structure Draft where
  graph : Graph
  found : Array Id
  isFound : Array Bool
  shapes : Array (Option Shape)

namespace Draft

def start (g : Graph) : Draft :=
  ⟨g, #[], Array.replicate g.size false, Array.replicate g.size none⟩

/-- A node as a part. A scalar is read, and a collection is noted for later. -/
def part (d : Draft) (id : Id) : Reading (Part × Draft) := do
  let n := d.graph.node id
  if n.tag.isCollection then
    if d.isFound[id]?.getD true then return (.node id, d)
    else
      return (.node id,
        { d with found := d.found.push id, isFound := d.isFound.setIfInBounds id true })
  else if !n.tag.isReadable then .error .malformed
  else
    let s ← d.graph.scalarText (d.graph.size + 1) id
    match n.tag, n.content with
    | .time, .mapping _ =>
      .error (.fault (.wrongType "expected string or bytes-like object, got 'list'"))
    | tag, _ => return (.value (← tag.read s), d)

/-- A node as a key, which has to be a scalar. -/
def key (d : Draft) (id : Id) : Reading (Value × Draft) := do
  match ← d.part id with
  | (.value v, d) => return (v, d)
  | (.node _, _) => .error .malformed

def parts (d : Draft) : List Id → Reading (List Part × Draft)
  | [] => .ok ([], d)
  | id :: ids => do
    let (p, d) ← d.part id
    let (ps, d) ← parts d ids
    return (p :: ps, d)

def entries (d : Draft) : List Pair → Reading (List (Value × Part) × Draft)
  | [] => .ok ([], d)
  | (k, v) :: pairs => do
    let (key, d) ← d.key k
    let (p, d) ← d.part v
    let (es, d) ← entries d pairs
    return ((key, p) :: es, d)

/-- The pairs of a sequence of mappings, each of which has one entry. -/
def pairs (d : Draft) : List Id → Reading (List (Part × Part) × Draft)
  | [] => .ok ([], d)
  | id :: ids => do
    match (d.graph.node id).content with
    | .mapping [(k, v)] =>
      let (key, d) ← d.part k
      let (value, d) ← d.part v
      let (ps, d) ← pairs d ids
      return ((key, value) :: ps, d)
    | _ => .error .malformed

/-- The entries of a mapping after its merge keys were followed. -/
def mapping (d : Draft) (fuel : Nat) (id : Id) : Reading (List (Value × Part) × Draft) := do
  match (d.graph.node id).content with
  | .mapping _ =>
    let g ← Graph.spread fuel [] id d.graph
    { d with graph := g }.entries (g.entries id)
  | _ => .error .malformed

/-- The shape of a collection, which has to be of the kind that its tag tells. -/
def shape (d : Draft) (fuel : Nat) (id : Id) : Reading (Shape × Draft) := do
  let n := d.graph.node id
  match n.tag, n.content with
  | .seq, .sequence items =>
    let (items, d) ← d.parts items
    return (.list items, d)
  | .pairs, .sequence items =>
    let (items, d) ← d.pairs items
    return (.pairs items, d)
  | .map, _ =>
    let (entries, d) ← d.mapping fuel id
    return (.map entries, d)
  | .set, _ =>
    let (entries, d) ← d.mapping fuel id
    return (.set (entries.map (·.1)), d)
  | _, _ => .error .malformed

/-- Shapes the collections from the `n`-th found one on. No collection is found twice, so `fuel`
above the number of nodes is enough. -/
def finish (merges : Nat) : (fuel n : Nat) → Draft → Reading Draft
  | 0, _, d => .ok d
  | fuel + 1, n, d =>
    match d.found[n]? with
    | none => .ok d
    | some id => do
      let (shape, d) ← d.shape merges id
      finish merges fuel (n + 1)
        { d with shapes := d.shapes.setIfInBounds id (some shape) }

end Draft

/-! ## From shapes to values -/

/-- How far the value of a collection is known: not at all, being looked for, or done. A collection
from which one can come back to itself, or to another such one, is endless. -/
inductive Progress where
  | fresh
  | begun
  | finite (v : Value)
  | endless

def Progress.value? : Progress → Option Value
  | .finite v => some v
  | _ => none

/-- Finds the value of a collection, and of all that it holds. A way without repetition is no longer
than there are nodes, so `fuel` above their number is enough. -/
def explore (shapes : Array (Option Shape)) :
    (fuel : Nat) → Id → Array Progress → Array Progress
  | 0, _, known => known
  | fuel + 1, id, known =>
    match known[id]?, shapes[id]? with
    | some .fresh, some (some shape) =>
      let known := shape.nodes.foldl (fun known part => explore shapes fuel part known)
        (known.setIfInBounds id .begun)
      let value := shape.value? fun part => known[part]?.bind Progress.value?
      known.setIfInBounds id ((value.map Progress.finite).getD .endless)
    | _, _ => known

/-- The values of all collections to a depth, below which endless ones are cut off. -/
def written (shapes : Array (Option Shape)) (known : Array Progress) : (depth : Nat) → Array Value
  | 0 => known.map fun p => p.value?.getD .endless
  | depth + 1 =>
    let inner := written shapes known depth
    known.mapIdx fun id p =>
      match p, shapes[id]? with
      | .endless, some (some shape) => (shape.value? fun part => inner[part]?).getD .endless
      | p, _ => p.value?.getD .endless

/-- How deep a value is looked into, at most. -/
def visibleDepth : Nat := 10

/-- The value of a collection whose shape is known with those of all that it holds. An endless value
is written out so far that every way through it has come back to where it was. -/
def assemble (shapes : Array (Option Shape)) (id : Id) : Value :=
  let known := explore shapes (shapes.size + 1) id (Array.replicate shapes.size .fresh)
  match known[id]?.bind Progress.value? with
  | some v => v
  | none =>
    let cycles := known.foldl (fun n p => if p matches .endless then n + 1 else n) 0
    (written shapes known (cycles + visibleDepth))[id]?.getD .endless

/-- The value of a node. -/
def Graph.toValue (g : Graph) (root : Id) : Reading Value := do
  match ← (Draft.start g).part root with
  | (.value v, _) => return v
  | (.node id, d) =>
    let d ← d.finish (g.pairCount + 1) (g.size + 1) 0
    return assemble d.shapes id

/-- The value of a YAML text. -/
def parse (s : Text) : Reading Value := do
  let (root, g) ← readDocument s
  g.toValue root

/-- The reader of the program. -/
instance : YamlReader := ⟨parse⟩

end TwigLayout.Yaml
