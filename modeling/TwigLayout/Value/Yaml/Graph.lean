import TwigLayout.Value.Yaml.Scalar

/-!
# YAML graphs

The nodes of a document: scalars, sequences and mappings, each with its tag. A node goes by its
number, so it may be a part of several others, and even of itself. A mapping may take over the
entries of others under the merge key.
-/

namespace TwigLayout.Yaml

/-- The number of a node. -/
abbrev Id := Nat

/-- An entry of a mapping: its key and its value. -/
abbrev Pair := Id × Id

inductive Content where
  | scalar (text : Text)
  | sequence (items : List Id)
  | mapping (pairs : List Pair)
  deriving DecidableEq, Repr

structure Node where
  tag : Tag
  content : Content
  deriving DecidableEq, Repr

/-- The node of a part that is left out. -/
def Node.absent : Node := ⟨.null, .scalar []⟩

/-- The nodes of a document by their numbers. -/
abbrev Graph := Array Node

namespace Graph

def node (g : Graph) (id : Id) : Node := g[id]?.getD .absent

def tag (g : Graph) (id : Id) : Tag := (g.node id).tag

/-- The entries of a mapping. Any other node has none. -/
def entries (g : Graph) (id : Id) : List Pair :=
  match (g.node id).content with
  | .mapping pairs => pairs
  | _ => []

def setContent (g : Graph) (id : Id) (content : Content) : Graph :=
  g.modify id fun n => { n with content := content }

def setTag (g : Graph) (id : Id) (tag : Tag) : Graph := g.modify id fun n => { n with tag := tag }

/-- The number of entries of all mappings. -/
def pairCount (g : Graph) : Nat :=
  (List.range g.size).foldl (fun n id => n + (g.entries id).length) 0

/-- The text of a node that stands for a scalar: its own, or that of a mapping's own value. A
mapping may be its own value, and then there is no end to it. -/
def scalarText (g : Graph) : (fuel : Nat) → Id → Reading Text
  | 0, _ => .error (.fault .tooDeep)
  | fuel + 1, id =>
    match (g.node id).content with
    | .scalar s => .ok s
    | .sequence _ => .error .malformed
    | .mapping pairs =>
      match pairs.find? fun (k, _) => g.tag k = .default with
      | some (_, v) => scalarText g fuel v
      | none => .error .malformed

/-! ## Merge keys -/

/-- The first merge key of a mapping: its value, and the other entries. -/
def takeMerge? (g : Graph) (pairs : List Pair) : Option (Id × List Pair) :=
  (pairs.find? fun (k, _) => g.tag k = .merge).map fun (_, v) =>
    (v, pairs.eraseP fun (k, _) => g.tag k = .merge)

/-- Makes the sign for a mapping's own value an ordinary text where it is a key. -/
def nameDefaults (g : Graph) (pairs : List Pair) : Graph :=
  pairs.foldl (fun g (k, _) => if g.tag k = .default then g.setTag k .str else g) g

/-- Replaces the merge keys of a mapping by the entries that they stand for, which come before the
mapping's own: those of a mapping, or of several in a sequence, where the entries of an earlier one
come later, so that they count. Each merge key is taken out before it is followed, so `fuel` above
the number of entries is enough also for mappings that take over their own entries. -/
def spread : (fuel : Nat) → (merged : List Pair) → Id → Graph → Reading Graph
  | 0, _, _, g => .ok g
  | fuel + 1, merged, id, g =>
    match g.takeMerge? (g.entries id) with
    | none =>
      let own := g.entries id
      .ok ((g.nameDefaults own).setContent id (.mapping (merged ++ own)))
    | some (source, others) => do
      let g := g.setContent id (.mapping others)
      match (g.node source).content with
      | .mapping _ =>
        let g ← spread fuel [] source g
        spread fuel (merged ++ g.entries source) id g
      | .sequence items =>
        let follow := fun (parts, g) item =>
          match (node g item).content with
          | .mapping _ => do
            let g ← spread fuel [] item g
            return (g.entries item ++ parts, g)
          | _ => .error Unread.malformed
        let (parts, g) ← items.foldlM follow ([], g)
        spread fuel (merged ++ parts) id g
      | .scalar _ => .error .malformed

end Graph

end TwigLayout.Yaml
