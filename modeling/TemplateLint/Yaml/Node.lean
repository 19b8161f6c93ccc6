import TemplateLint.Yaml.Token

/-!
# Nodes of YAML

A document is a tree of scalars, lists and maps, written in blocks by indentation or between
brackets and braces. `document?` builds the tree of the first document from the tokens of a
text; a text may hold none. An alias stands for the node its anchor names.
-/
namespace TemplateLint.Yaml

/-- A node of a document. -/
inductive Node where
  /-- A scalar with the tag it has been given, empty if it has none. -/
  | scalar (tag : List Char) (style : Style) (text : List Char)
  | list (items : List Node)
  | map (entries : List (Node × Node))

/-- A missing value. -/
def Node.nothing : Node := .scalar [] .plain []

/-- What is left of the tokens, and the nodes that have been named. -/
structure Feed where
  tokens : List Token
  anchors : List (List Char × Node) := []

/-- Building nodes from tokens. -/
abbrev Build := StateT Feed (Except Problem)

namespace Build

/-- The next token. A fault among the tokens is a failure. -/
def peek : Build Token := do
  match (← get).tokens with
  | [] => return .streamEnd
  | .fault p :: _ => throw p
  | t :: _ => return t

/-- Pass over the next token. -/
def skip : Build Unit := modify fun f => { f with tokens := f.tokens.drop 1 }

/-- Pass over the next token if it is the given one. -/
def skipIf (t : Token) : Build Bool := do
  if (← peek) = t then
    skip
    return true
  else return false

/-- The properties before a node. -/
structure Properties where
  anchor : Option (List Char) := none
  tag : List Char := []

/-- Read an anchor and a tag, either first. -/
def properties : Build Properties := do
  match ← peek with
  | .anchor name =>
    skip
    match ← peek with
    | .tag text =>
      skip
      return ⟨some name, text⟩
    | _ => return ⟨some name, []⟩
  | .tag text =>
    skip
    match ← peek with
    | .anchor name =>
      skip
      return ⟨some name, text⟩
    | _ => return ⟨none, text⟩
  | _ => return {}

/-- Name a node. -/
def register (p : Properties) (n : Node) : Build Node := do
  match p.anchor with
  | some name => modify fun f => { f with anchors := (name, n) :: f.anchors }
  | none => pure ()
  return n

/-- The node that a name stands for. -/
def named (name : List Char) : Build Node := do
  match (← get).anchors.lookup name with
  | some n => return n
  | none => throw .unknownAnchor

/-- Whether a value is missing between two parts of a block map. -/
def endsBlockPart (t : Token) : Bool := t = .key || t = .value || t = .blockEnd

mutual
/-- Read a node, which may be a block or not, and a list that is not indented or not. The bound
is a number of tokens. -/
def node : (bound : Nat) → (block loose : Bool) → Build Node
  | 0, _, _ => throw .content
  | bound + 1, block, loose => do
    match ← peek with
    | .alias name =>
      skip
      named name
    | _ =>
      let p ← properties
      match ← peek with
      | .item =>
        if loose then register p (.list (← looseItems bound)) else bare p
      | .scalar style text =>
        skip
        register p (.scalar p.tag style text)
      | .flowListStart =>
        skip
        register p (.list (← flowItems bound true))
      | .flowMapStart =>
        skip
        register p (.map (← flowEntries bound true))
      | .blockListStart =>
        if block then
          skip
          register p (.list (← blockItems bound))
        else bare p
      | .blockMapStart =>
        if block then
          skip
          register p (.map (← blockEntries bound))
        else bare p
      | _ => bare p

/-- A node of nothing but properties. -/
def bare (p : Properties) : Build Node :=
  if p.anchor.isNone && p.tag.isEmpty then throw .content
  else register p (.scalar p.tag .plain [])

/-- The items of a list in a block. -/
def blockItems : (bound : Nat) → Build (List Node)
  | 0 => throw .content
  | bound + 1 => do
    if ← skipIf .item then
      let t ← peek
      let first ← if t = .item || t = .blockEnd then pure Node.nothing else node bound true false
      return first :: (← blockItems bound)
    else if ← skipIf .blockEnd then return []
    else throw .alignment

/-- The items of a list that stands no further right than the key before it. -/
def looseItems : (bound : Nat) → Build (List Node)
  | 0 => throw .content
  | bound + 1 => do
    if ← skipIf .item then
      let t ← peek
      let first ←
        if t = .item || endsBlockPart t then pure Node.nothing else node bound true false
      return first :: (← looseItems bound)
    else return []

/-- The entries of a map in a block. -/
def blockEntries : (bound : Nat) → Build (List (Node × Node))
  | 0 => throw .content
  | bound + 1 => do
    if ← skipIf .key then
      let k ← if endsBlockPart (← peek) then pure Node.nothing else node bound true true
      let v ← blockValue bound
      return (k, v) :: (← blockEntries bound)
    else if ← skipIf .blockEnd then return []
    else throw .alignment

/-- The value of an entry in a block. -/
def blockValue : (bound : Nat) → Build Node
  | 0 => throw .content
  | bound + 1 => do
    if ← skipIf .value then
      if endsBlockPart (← peek) then return Node.nothing else node bound true true
    else return Node.nothing

/-- The items of a list in brackets, behind the opening one or behind an item. -/
def flowItems : (bound : Nat) → (first : Bool) → Build (List Node)
  | 0, _ => throw .content
  | bound + 1, first => do
    if ← skipIf .flowListEnd then return []
    else if first || (← skipIf .comma) then
      if ← skipIf .flowListEnd then return []
      else
        let item ← if ← skipIf .key then flowPair bound else node bound false false
        return item :: (← flowItems bound false)
    else throw .comma

/-- A map of one entry inside a list in brackets, behind the mark of its key. -/
def flowPair : (bound : Nat) → Build Node
  | 0 => throw .content
  | bound + 1 => do
    let t ← peek
    let k ←
      if t = .value || t = .comma || t = .flowListEnd then
        skip
        pure Node.nothing
      else node bound false false
    let v ← flowValue bound .flowListEnd
    return .map [(k, v)]

/-- The value of an entry in brackets or braces, which ends before a token. -/
def flowValue : (bound : Nat) → (ending : Token) → Build Node
  | 0, _ => throw .content
  | bound + 1, ending => do
    if ← skipIf .value then
      let t ← peek
      if t = .comma || t = ending then return Node.nothing else node bound false false
    else return Node.nothing

/-- The entries of a map in braces, behind the opening one or behind an entry. -/
def flowEntries : (bound : Nat) → (first : Bool) → Build (List (Node × Node))
  | 0, _ => throw .content
  | bound + 1, first => do
    if ← skipIf .flowMapEnd then return []
    else if first || (← skipIf .comma) then
      if ← skipIf .flowMapEnd then return []
      else if ← skipIf .key then
        let t ← peek
        let k ←
          if t = .value || t = .comma || t = .flowMapEnd then pure Node.nothing
          else node bound false false
        let v ← flowValue bound .flowMapEnd
        return (k, v) :: (← flowEntries bound false)
      else
        let k ← node bound false false
        return (k, Node.nothing) :: (← flowEntries bound false)
    else throw .comma
end

/-- Pass over the lines about the documents. -/
def skipDirectives : (bound : Nat) → Build Unit
  | 0 => pure ()
  | bound + 1 => do
    if ← skipIf .directive then skipDirectives bound

/-- Fail if a fault is among the next tokens. -/
def lookAhead (count : Nat) : Build Unit := do
  match ((← get).tokens.take count).findSome? fun | .fault p => some p | _ => none with
  | some p => throw p
  | none => pure ()

/-- Read the first document of a text. -/
def document : Build (Option Node) := do
  let bound := 4 * (← get).tokens.length + 8
  let t ← peek
  if t = .streamEnd then return none
  else
    let root ←
      if t = .directive || t = .documentStart then do
        skipDirectives bound
        if ← skipIf .documentStart then
          let t ← peek
          if t = .directive || t = .documentStart || t = .documentEnd || t = .streamEnd then
            pure Node.nothing
          else node bound true false
        else throw .directive
      else node bound true false
    lookAhead 3
    return some root

end Build

/-- The first document of a text. -/
def document? (text : List Char) : Except Problem (Option Node) := do
  return (← Build.document.run { tokens := tokens text }).1

end TemplateLint.Yaml
