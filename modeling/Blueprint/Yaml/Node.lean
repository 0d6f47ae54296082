import Blueprint.Yaml.Token

/-!
YAML documents as trees. A reference stays a node of its own that names the anchored node by number,
so that a node may refer to one around it. `Document.ofText?` reads the one document of a text.
-/

set_option autoImplicit false

namespace Blueprint.Yaml

inductive Node where
  | scalar (plain : Bool) (tag : Option String) (text : String)
  | sequence (tag : Option String) (items : List Node)
  | mapping (tag : Option String) (entries : List (Node × Node))
  /-- The node with a number among those that have an anchor. -/
  | reference (number : Nat)
deriving Inhabited

structure Document where
  root : Node
  /-- The nodes with an anchor, by their numbers. -/
  anchored : List (Nat × Node) := []

namespace Node

/-- The scalar that stands where nothing is written. -/
def blank : Node := .scalar true none ""

end Node

/-- What is left to read, and what is known of the document. -/
structure Reader where
  tokens : List Token
  /-- What the handles of tags stand for. -/
  handles : List (String × String) := []
  /-- The numbers of anchors, latest first. -/
  anchors : List (String × Nat) := []
  anchored : List (Nat × Node) := []

namespace Reader

/-- Reading fails without saying why. -/
abbrev Read (α : Type) : Type := StateT Reader Option α

def fail {α : Type} : Read α := fun _ ↦ none

def peek : Read (Option Token) := do return (← get).tokens.head?

def drop : Read Unit := modify fun r ↦ { r with tokens := r.tokens.drop 1 }

/-- Takes the next token if it is this one. -/
def accept (token : Token) : Read Bool := do
  if (← peek) == some token then
    drop
    return true
  else return false

/-- The next token is one of these. -/
def isAt (tokens : List Token) : Read Bool := do return (← peek).any tokens.contains

/-- The tag that a handle and a suffix write. -/
def resolveTag (handle suffix : String) : Read String := do
  if handle == "" then return suffix
  match (← get).handles.lookup handle with
  | some expansion => return expansion ++ suffix
  | none => fail

/-- Reads an anchor and a tag, in either order. -/
def properties : Read (Option String × Option String) := do
  match ← peek with
  | some (.anchor name) =>
    drop
    match ← peek with
    | some (.tag handle suffix) => drop; return (some name, some (← resolveTag handle suffix))
    | _ => return (some name, none)
  | some (.tag handle suffix) =>
    drop
    let tag ← resolveTag handle suffix
    match ← peek with
    | some (.anchor name) => drop; return (some name, some tag)
    | _ => return (none, some tag)
  | _ => return (none, none)

/-- Numbers an anchor. -/
def announce (name : String) : Read Nat :=
  modifyGet fun r ↦ (r.anchors.length, { r with anchors := (name, r.anchors.length) :: r.anchors })

/-- What may follow an item of each collection without a node between. -/
def afterBlockItem : List Token := [.entry, .blockEnd]

def afterPlainItem : List Token := [.entry, .key, .value, .blockEnd]

def afterBlockField : List Token := [.key, .value, .blockEnd]

def afterFlowItem : List Token := [.comma, .flowSequenceEnd]

def afterFlowField : List Token := [.comma, .flowMappingEnd]

mutual

/-- Reads a node. Blocks stand only outside of brackets, and a sequence at its key's column only as
that key's value. -/
def node (inBlock afterKey : Bool) : Nat → Read Node
  | 0 => fail
  | fuel + 1 => do
    if let some (.reference name) ← peek then
      drop
      match (← get).anchors.lookup name with
      | some number => return .reference number
      | none => fail
    else
      let (anchor, tag) ← properties
      let number ← anchor.mapM announce
      let n ← content inBlock afterKey (anchor.isSome || tag.isSome) tag fuel
      if let some number := number then
        modify fun r ↦ { r with anchored := (number, n) :: r.anchored }
      return n

/-- Reads a node behind its properties. -/
def content (inBlock afterKey mayBeBlank : Bool) (tag : Option String) : Nat → Read Node
  | 0 => fail
  | fuel + 1 => do
    match ← peek with
    | some (.scalar plain text) =>
      drop
      return .scalar plain tag text
    | some .flowSequence =>
      drop
      if ← accept .flowSequenceEnd then return .sequence tag []
      return .sequence tag (← flowItems fuel)
    | some .flowMapping =>
      drop
      if ← accept .flowMappingEnd then return .mapping tag []
      return .mapping tag (← flowFields fuel)
    | some .entry =>
      if inBlock && afterKey then return .sequence tag (← plainItems fuel)
      else blankOr
    | some .blockSequence =>
      if inBlock then
        drop
        return .sequence tag (← blockItems fuel)
      else blankOr
    | some .blockMapping =>
      if inBlock then
        drop
        return .mapping tag (← blockFields fuel)
      else blankOr
    | _ => blankOr
where
  blankOr : Read Node := if mayBeBlank then return .scalar true tag "" else fail

/-- Reads the items of a block, to its end. -/
def blockItems : Nat → Read (List Node)
  | 0 => fail
  | fuel + 1 => do
    if ← accept .blockEnd then return []
    if !(← accept .entry) then fail
    let item ← if ← isAt afterBlockItem then pure Node.blank else node true false fuel
    return item :: (← blockItems fuel)

/-- Reads items that stand at their key's column, as long as there are any. -/
def plainItems : Nat → Read (List Node)
  | 0 => fail
  | fuel + 1 => do
    if ← accept .entry then
      let item ← if ← isAt afterPlainItem then pure Node.blank else node true false fuel
      return item :: (← plainItems fuel)
    else return []

/-- Reads the fields of a block, to its end. -/
def blockFields : Nat → Read (List (Node × Node))
  | 0 => fail
  | fuel + 1 => do
    if ← accept .blockEnd then return []
    if !(← accept .key) then fail
    let key ← if ← isAt afterBlockField then pure Node.blank else node true true fuel
    let value ←
      if ← accept .value then
        if ← isAt afterBlockField then pure Node.blank else node true true fuel
      else pure Node.blank
    return (key, value) :: (← blockFields fuel)

/-- Reads the items between brackets, to the closing one. -/
def flowItems : Nat → Read (List Node)
  | 0 => fail
  | fuel + 1 => do
    let item ←
      if ← accept .key then do
        let key ← if ← isAt (.value :: afterFlowItem) then drop *> pure Node.blank
          else node false false fuel
        let value ← flowValue afterFlowItem fuel
        pure (Node.mapping none [(key, value)])
      else node false false fuel
    if ← accept .flowSequenceEnd then return [item]
    if !(← accept .comma) then fail
    if ← accept .flowSequenceEnd then return [item]
    return item :: (← flowItems fuel)

/-- Reads the fields between braces, to the closing one. -/
def flowFields : Nat → Read (List (Node × Node))
  | 0 => fail
  | fuel + 1 => do
    let field ←
      if ← accept .key then do
        let key ← if ← isAt (.value :: afterFlowField) then pure Node.blank
          else node false false fuel
        pure (key, ← flowValue afterFlowField fuel)
      else pure (← node false false fuel, Node.blank)
    if ← accept .flowMappingEnd then return [field]
    if !(← accept .comma) then fail
    if ← accept .flowMappingEnd then return [field]
    return field :: (← flowFields fuel)

/-- Reads the value of a field inside brackets; without a colon it is blank. -/
def flowValue (after : List Token) : Nat → Read Node
  | 0 => fail
  | fuel + 1 => do
    if ← accept .value then
      if ← isAt after then pure Node.blank else node false false fuel
    else pure Node.blank

end

/-- Reads the directives before a document, each at most once. -/
def directives (hasVersion : Bool) : Nat → Read Bool
  | 0 => fail
  | fuel + 1 => do
    match ← peek with
    | some (.yamlVersion major minor) =>
      drop
      if hasVersion || major ≠ 1 || (minor ≠ 1 && minor ≠ 2) then fail
      discard <| directives true fuel
      return true
    | some (.tagHandle handle expansion) =>
      drop
      if ((← get).handles.lookup handle).isSome then fail
      modify fun r ↦ { r with handles := (handle, expansion) :: r.handles }
      discard <| directives hasVersion fuel
      return true
    | _ => return false

/-- What handles stand for that no directive defines. -/
def standardHandles : List (String × String) := [("!", "!"), ("!!", "tag:yaml.org,2002:")]

/-- Reads the one document, to the end of the text. Without a word in it, it is blank. -/
def document : Read Node := do
  let fuel := 4 * (← get).tokens.length + 4
  let directed ← directives false fuel
  modify fun r ↦ { r with
    handles := r.handles ++ standardHandles.filter fun h ↦ (r.handles.lookup h.1).isNone }
  let root ←
    if ← accept .documentStart then
      if (← peek).all fun token ↦ token matches
          .yamlVersion .. | .tagHandle .. | .documentStart | .documentEnd then
        pure Node.blank
      else node true false fuel
    else if directed then fail
    else if (← peek).isNone then pure Node.blank
    else node true false fuel
  modify fun r ↦ { r with tokens := r.tokens.dropWhile (· == .documentEnd) }
  if (← get).tokens.isEmpty then return root else fail

end Reader

namespace Document

/-- Reads the one document of a text. -/
def ofText? (text : String) : Option Document := do
  let (root, r) ← Reader.document.run { tokens := ← Token.ofText? text }
  return { root, anchored := r.anchored }

/-- The node that a node stands for; a reference stands for the one it names. -/
def deref (d : Document) : Node → Node
  | .reference number => (d.anchored.lookup number).getD .blank
  | n => n

end Document

end Blueprint.Yaml
