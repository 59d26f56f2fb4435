import TwigLayout.Value.Yaml.Graph
import TwigLayout.Value.Yaml.Token

/-!
# YAML documents

The graph of a document from its tokens. A node may have a name, its anchor, by which later parts of
the document stand for the same node, its own parts included. Tokens are looked at one by one, and
what is wrong with the document shows before what is wrong with a token that was not yet needed.
-/

namespace TwigLayout.Yaml

open Text

/-! ## Sources -/

/-- What is left of a document, the nodes read so far, and those of them that have a name. -/
structure Source where
  stream : Stream
  nodes : Graph
  anchors : List (Text × Id)

namespace Source

/-- The next token, or none at the end of the text. -/
def peek (src : Source) : Reading (Option Token) :=
  match src.stream.tokens, src.stream.stop with
  | t :: _, _ => .ok (some t)
  | [], some e => .error e
  | [], none => .ok none

/-- What is left after the next token. -/
def next (src : Source) : Source :=
  { src with stream := { src.stream with tokens := src.stream.tokens.drop 1 } }

/-- Whether one of the given tokens comes next, or none at all. -/
def comes (src : Source) (options : List Token) : Reading Bool := do
  return (← src.peek).all options.contains

/-- Adds a node, under its name if it has one. -/
def add (src : Source) (anchor : Option Text) (n : Node) : Id × Source :=
  let id := src.nodes.size
  (id, { src with
    nodes := src.nodes.push n
    anchors := (anchor.map fun name => (name, id)).toList ++ src.anchors })

/-- Fills in the parts of a node. -/
def fill (src : Source) (id : Id) (content : Content) : Source :=
  { src with nodes := src.nodes.setContent id content }

end Source

/-! ## Properties of nodes -/

/-- What stands before a node: its name, and its tag. -/
structure Properties where
  anchor : Option Text
  tag : Option Text

/-- What the handles of tags stand for. -/
abbrev Handles := List (Text × Text)

def Handles.standard : Handles := [(['!'], ['!']), (['!', '!'], Tag.space)]

/-- The name of a tag in full. -/
def Handles.expand? (handles : Handles) : Option Text → Text → Option Text
  | none, suffix => some suffix
  | some handle, suffix => (handles.lookup handle).map (· ++ suffix)

/-- The properties that stand before a node, in any order. -/
def Source.readProperties (src : Source) (handles : Handles) : Reading (Properties × Source) := do
  match ← src.peek with
  | some (.anchor name) =>
    let src := src.next
    match ← src.peek with
    | some (.tag handle suffix) =>
      return (⟨some name, some (← handles.expand? handle suffix)⟩, src.next)
    | _ => return (⟨some name, none⟩, src)
  | some (.tag handle suffix) =>
    let src := src.next
    match ← src.peek with
    | some (.anchor name) =>
      return (⟨some name, some (← handles.expand? handle suffix)⟩, src.next)
    | _ => return (⟨none, some (← handles.expand? handle suffix)⟩, src)
  | _ => return (⟨none, none⟩, src)

/-- The tag that leaves the choice to the form of the node. -/
def openTag : Text := ['!']

/-- The tag of a scalar. Without one of its own a plain scalar is judged by its form, and any other
scalar is a text. -/
def Properties.scalarTag (properties : Properties) (plain : Bool) (s : Text) : Tag :=
  match properties.tag with
  | none => if plain then .ofPlain s else .str
  | some name => if name = openTag then .ofPlain s else .ofName name

/-- The tag of a collection, which is of one kind without one of its own. -/
def Properties.tagOr (properties : Properties) (kind : Tag) : Tag :=
  match properties.tag with
  | none => kind
  | some name => if name = openTag then kind else .ofName name

/-- Adds the node after its properties. No other node has its name. -/
def Source.bind (src : Source) (properties : Properties) (n : Node) : Reading (Id × Source) :=
  match properties.anchor with
  | none => .ok (src.add none n)
  | some name =>
    if (src.anchors.lookup name).isSome then .error .malformed else .ok (src.add (some name) n)

/-! ## Nodes -/

/-- The number of collections that may stand inside one another. -/
def depthBound : Nat := 485

/-- Where a node stands: the handles of its document, and how deep it may be nested. -/
structure Context where
  handles : Handles
  room : Nat

/-- Where the parts of a node stand. -/
def Context.inner (ctx : Context) : Reading Context :=
  if ctx.room = 0 then .error (.fault .tooDeep) else .ok { ctx with room := ctx.room - 1 }

/-- What follows the comma between two parts of a flow collection. -/
def Source.afterEntry (src : Source) : Reading Source := do
  if (← src.peek) == some .flowEntry then return src.next else .error .malformed

mutual

/-- A node. A sequence without indentation of its own may stand only as a part of a mapping. Of four
steps down at least one uses up a token, so `fuel` of four times their number is enough. -/
def readNode (ctx : Context) (block indentless : Bool) :
    (fuel : Nat) → Source → Reading (Id × Source)
  | 0, _ => .error .malformed
  | fuel + 1, src => do
    match ← src.peek with
    | some (.alias name) => return (← src.anchors.lookup name, src.next)
    | _ =>
      let (properties, src) ← src.readProperties ctx.handles
      readContent (← ctx.inner) block indentless properties fuel src

/-- A node after its properties. Nothing at all is the empty scalar if there are any. -/
def readContent (ctx : Context) (block indentless : Bool) (properties : Properties) :
    (fuel : Nat) → Source → Reading (Id × Source)
  | 0, _ => .error .malformed
  | fuel + 1, src => do
    let sequence (src : Source) (read : Source → Reading (List Id × Source)) := do
      let (id, src) ← src.bind properties ⟨properties.tagOr .seq, .sequence []⟩
      let (items, src) ← read src
      return (id, src.fill id (.sequence items))
    let mapping (src : Source) (read : Source → Reading (List Pair × Source)) := do
      let (id, src) ← src.bind properties ⟨properties.tagOr .map, .mapping []⟩
      let (pairs, src) ← read src
      return (id, src.fill id (.mapping pairs))
    match ← src.peek, block, indentless with
    | some (.scalar s plain), _, _ =>
      src.next.bind properties ⟨properties.scalarTag plain s, .scalar s⟩
    | some .flowSequenceStart, _, _ => sequence src.next (readFlowSequence ctx true fuel)
    | some .flowMappingStart, _, _ => mapping src.next (readFlowMapping ctx true fuel)
    | some .sequenceStart, true, _ => sequence src.next (readSequence ctx fuel)
    | some .mappingStart, true, _ => mapping src.next (readMapping ctx fuel)
    | some .blockEntry, _, true => sequence src (readIndentless ctx fuel)
    | _, _, _ =>
      if properties.anchor.isSome || properties.tag.isSome then
        src.bind properties ⟨properties.scalarTag true [], .scalar []⟩
      else .error .malformed

/-- A node, or an absent one before one of the given tokens. -/
def readPart (ctx : Context) (block indentless : Bool) (ends : List Token) :
    (fuel : Nat) → Source → Reading (Id × Source)
  | 0, _ => .error .malformed
  | fuel + 1, src => do
    if ← src.comes ends then return src.add none .absent
    else readNode ctx block indentless fuel src

/-- A value after its colon, or an absent one without any. -/
def readValue (ctx : Context) (block : Bool) (ends : List Token) :
    (fuel : Nat) → Source → Reading (Id × Source)
  | 0, _ => .error .malformed
  | fuel + 1, src => do
    if (← src.peek) == some .value then readPart ctx block block ends fuel src.next
    else return src.add none .absent

/-- The entries of a block sequence up to its end. -/
def readSequence (ctx : Context) : (fuel : Nat) → Source → Reading (List Id × Source)
  | 0, _ => .error .malformed
  | fuel + 1, src => do
    match ← src.peek with
    | some .blockEntry =>
      let (n, src) ← readPart ctx true false [.blockEntry, .blockEnd] fuel src.next
      let (items, src) ← readSequence ctx fuel src
      return (n :: items, src)
    | some .blockEnd => return ([], src.next)
    | _ => .error .malformed

/-- The entries of a sequence that ends with the mapping around it. -/
def readIndentless (ctx : Context) : (fuel : Nat) → Source → Reading (List Id × Source)
  | 0, _ => .error .malformed
  | fuel + 1, src => do
    match ← src.peek with
    | some .blockEntry =>
      let ends := [Token.blockEntry, .key, .value, .blockEnd]
      let (n, src) ← readPart ctx true false ends fuel src.next
      let (items, src) ← readIndentless ctx fuel src
      return (n :: items, src)
    | _ => return ([], src)

/-- The entries of a block mapping up to its end. -/
def readMapping (ctx : Context) : (fuel : Nat) → Source → Reading (List Pair × Source)
  | 0, _ => .error .malformed
  | fuel + 1, src => do
    match ← src.peek with
    | some .key =>
      let ends := [Token.key, .value, .blockEnd]
      let (k, src) ← readPart ctx true true ends fuel src.next
      let (v, src) ← readValue ctx true ends fuel src
      let (pairs, src) ← readMapping ctx fuel src
      return ((k, v) :: pairs, src)
    | some .blockEnd => return ([], src.next)
    | _ => .error .malformed

/-- The items of a flow sequence up to its end. An item with a colon is a mapping of one entry. -/
def readFlowSequence (ctx : Context) (first : Bool) :
    (fuel : Nat) → Source → Reading (List Id × Source)
  | 0, _ => .error .malformed
  | fuel + 1, src => do
    let ends := [Token.flowEntry, .flowSequenceEnd]
    if (← src.peek) == some .flowSequenceEnd then return ([], src.next)
    let src ← if first then Except.ok src else src.afterEntry
    match ← src.peek with
    | some .flowSequenceEnd => return ([], src.next)
    | some .key =>
      let inner ← ctx.inner
      let (id, src) := src.next.add none ⟨.map, .mapping []⟩
      let (k, src) ← readPart inner false false (.value :: ends) fuel src
      let (v, src) ← readValue inner false ends fuel src
      let (items, src) ← readFlowSequence ctx false fuel (src.fill id (.mapping [(k, v)]))
      return (id :: items, src)
    | _ =>
      let (n, src) ← readNode ctx false false fuel src
      let (items, src) ← readFlowSequence ctx false fuel src
      return (n :: items, src)

/-- The entries of a flow mapping up to its end. A node without a colon is a key without value. -/
def readFlowMapping (ctx : Context) (first : Bool) :
    (fuel : Nat) → Source → Reading (List Pair × Source)
  | 0, _ => .error .malformed
  | fuel + 1, src => do
    let ends := [Token.flowEntry, .flowMappingEnd]
    if (← src.peek) == some .flowMappingEnd then return ([], src.next)
    let src ← if first then Except.ok src else src.afterEntry
    match ← src.peek with
    | some .flowMappingEnd => return ([], src.next)
    | some .key =>
      let (k, src) ← readPart ctx false false (.value :: ends) fuel src.next
      let (v, src) ← readValue ctx false ends fuel src
      let (pairs, src) ← readFlowMapping ctx false fuel src
      return ((k, v) :: pairs, src)
    | _ =>
      let (k, src) ← readNode ctx false false fuel src
      let (v, src) := src.add none .absent
      let (pairs, src) ← readFlowMapping ctx false fuel src
      return ((k, v) :: pairs, src)

end

/-! ## Documents -/

/-- The root of a document. -/
def Source.readRoot (src : Source) (handles : Handles) : Reading (Id × Source) :=
  readNode ⟨handles, depthBound⟩ true false (4 * src.stream.tokens.length + 4) src

/-- The directives before a document: the handles that they give, and what is left after them. The
version is given but once, and so is what a handle stands for. -/
def readDirectives : (fuel : Nat) → Handles → (versioned : Bool) → Source →
    Reading (Handles × Source)
  | 0, _, _, _ => .error .malformed
  | fuel + 1, handles, versioned, src => do
    match ← src.peek with
    | some (.version major) =>
      if versioned || major != 1 then .error .malformed
      else readDirectives fuel handles true src.next
    | some (.tagHandle handle start) =>
      if (handles.lookup handle).isSome then .error .malformed
      else readDirectives fuel ((handle, start) :: handles) versioned src.next
    | some .directive => readDirectives fuel handles versioned src.next
    | _ => return (handles ++ Handles.standard, src)

/-- The directives and the marker that start a document. -/
def Source.readStart (src : Source) : Reading (Handles × Source) := do
  let (handles, src) ← readDirectives (src.stream.tokens.length + 1) [] false src
  if (← src.peek) == some .documentStart then return (handles, src.next) else .error .malformed

/-- Whether a token stands outside of documents. -/
def Token.isOutside : Token → Bool
  | .documentStart | .documentEnd | .directive | .version _ | .tagHandle _ _ => true
  | _ => false

/-- The root of the first document, with or without a marker before it. -/
def Source.readFirst (src : Source) : Reading (Id × Source) := do
  match ← src.peek with
  | none => return src.add none .absent
  | some t =>
    if t.isOutside && t != .documentEnd then
      let (handles, src) ← src.readStart
      if (← src.peek).all Token.isOutside then return src.add none .absent
      else src.readRoot handles
    else src.readRoot .standard

/-- Checks that no other document follows. -/
def Source.finish (src : Source) : Reading Unit := do
  let tokens := src.stream.tokens.dropWhile (· == .documentEnd)
  let src := { src with stream := { src.stream with tokens := tokens } }
  match ← src.peek with
  | none => return
  | some _ =>
    let _ ← src.readStart
    .error .malformed

/-- The graph of the only document of a text, and the number of its root. Without a document there
is nothing to read but null. -/
def readDocument (s : Text) : Reading (Id × Graph) := do
  let (root, src) ← Source.readFirst ⟨Stream.ofText s, #[], []⟩
  src.finish
  return (root, src.nodes)

end TwigLayout.Yaml
