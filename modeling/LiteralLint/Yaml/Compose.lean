import LiteralLint.Yaml.Resolve
import LiteralLint.Yaml.Scan

/-! # Values from YAML texts

Reads the nodes of a document off its tokens. An alias stands for the node of its anchor; how often
aliases are followed and how deeply nodes are nested is bounded. -/

set_option autoImplicit false

namespace LiteralLint.Yaml

open Config (Value Table)

/-- A node: its value, what it is without its tag, its text if it is a scalar, and its size.
`height` counts the collections within each other, `jumps` the aliases that are followed in its
value, and `events` what is written for it. -/
structure Composed where
  value : Value
  content : Value
  text : Option String := none
  plain : Bool := false
  height : Nat := 0
  jumps : Nat := 0
  events : Nat := 1
deriving Inhabited

/-- The anchors that are set, the newest first; `none` while the node of an anchor is being read. -/
structure Anchors where
  nodes : List (String × Option Composed) := []

def Anchors.set (a : Anchors) (name : Option String) (node : Option Composed) : Anchors :=
  match name with
  | some name => ⟨(name, node) :: a.nodes⟩
  | none => a

def Anchors.get? (a : Anchors) (name : String) : Option Composed :=
  (List.lookup name a.nodes).join

structure Properties where
  anchor : Option String := none
  tag : Option (String × String) := none

def readProperties : List Token → Properties × List Token
  | .anchor a :: .tag h s :: ts => (⟨some a, some (h, s)⟩, ts)
  | .tag h s :: .anchor a :: ts => (⟨some a, some (h, s)⟩, ts)
  | .anchor a :: ts => (⟨some a, none⟩, ts)
  | .tag h s :: ts => (⟨none, some (h, s)⟩, ts)
  | ts => ({}, ts)

abbrev Handles := List (String × String)

def standardHandles : Handles := [("!", "!"), ("!!", "tag:yaml.org,2002:")]

def resolveTag? (handles : Handles) : Option (String × String) → Option (Option String)
  | none => some none
  | some (handle, suffix) =>
    if handle.isEmpty then some (some suffix)
    else (List.lookup handle handles).map fun expansion => some (expansion ++ suffix)

def scalarNode? (tag : Option String) (text : String) (plain : Bool) : Option Composed := do
  let value ← resolve? tag text plain
  return { value, content := value, text := some text, plain }

def emptyNode : Composed := { value := .unit, content := .unit, text := some "", plain := true }

def collection (tag : Option String) (content : Value) (parts : List Composed) : Composed where
  value :=
    match tag.bind localTag? with
    | some name => .table [(name, content)]
    | none => content
  content
  height := 1 + (parts.map (·.height)).foldl max 0
  jumps := (parts.map (·.jumps)).foldl (· + ·) 0
  events := 2 + (parts.map (·.events)).foldl (· + ·) 0

def sequenceNode (tag : Option String) (items : List Composed) : Composed :=
  collection tag (.list (items.map (·.value))) items

/-- Keys are scalars, and stand for their text whatever it looks like. -/
def mappingNode? (tag : Option String) (entries : List (Composed × Composed)) :
    Option Composed := do
  let pairs ← entries.mapM fun (key, value) => do return (← key.text, value.value)
  return collection tag (.table (Table.ofList pairs)) (entries.flatMap fun (k, v) => [k, v])

def endsEntry (ends : List Token) : List Token → Bool
  | [] => true
  | t :: _ => ends.contains t

mutual

/-- Reads a node. `block` admits block collections, and `indentless` a sequence that is not indented
more than the mapping it stands in. -/
def readNode (handles : Handles) (block indentless : Bool) :
    Nat → Anchors → List Token → Option (Composed × Anchors × List Token)
  | 0, _, _ => none
  | _ + 1, anchors, .alias name :: ts => do
    let node ← anchors.get? name
    return ({ node with jumps := node.jumps + 1, events := 1 }, anchors, ts)
  | fuel + 1, anchors, ts => do
    let (properties, ts) := readProperties ts
    let tag ← resolveTag? handles properties.tag
    let anchors := anchors.set properties.anchor none
    let (node, anchors, ts) ←
      match ts with
      | .blockEntry :: _ =>
        if indentless then do
          let (items, anchors, ts) ← readIndentless handles fuel anchors ts
          some (sequenceNode tag items, anchors, ts)
        else if properties.anchor.isSome ∨ tag.isSome then do
          some (← scalarNode? tag "" true, anchors, ts)
        else none
      | .scalar text plain :: ts => do some (← scalarNode? tag text plain, anchors, ts)
      | .flowSequenceStart :: ts => do
        let (items, anchors, ts) ← readFlowItems handles true fuel anchors ts
        some (sequenceNode tag items, anchors, ts)
      | .flowMappingStart :: ts => do
        let (entries, anchors, ts) ← readFlowEntries handles true fuel anchors ts
        some (← mappingNode? tag entries, anchors, ts)
      | t :: rest =>
        if block ∧ t = .blockSequenceStart then do
          let (items, anchors, ts) ← readBlockItems handles fuel anchors rest
          some (sequenceNode tag items, anchors, ts)
        else if block ∧ t = .blockMappingStart then do
          let (entries, anchors, ts) ← readBlockEntries handles fuel anchors rest
          some (← mappingNode? tag entries, anchors, ts)
        else if properties.anchor.isSome ∨ tag.isSome then do
          some (← scalarNode? tag "" true, anchors, t :: rest)
        else none
      | [] =>
        if properties.anchor.isSome ∨ tag.isSome then do
          some (← scalarNode? tag "" true, anchors, [])
        else none
    return (node, anchors.set properties.anchor (some node), ts)

def readOptional (handles : Handles) (block indentless : Bool) (ends : List Token) :
    Nat → Anchors → List Token → Option (Composed × Anchors × List Token)
  | 0, _, _ => none
  | fuel + 1, anchors, ts =>
    if endsEntry ends ts then some (emptyNode, anchors, ts)
    else readNode handles block indentless fuel anchors ts

def readBlockItems (handles : Handles) :
    Nat → Anchors → List Token → Option (List Composed × Anchors × List Token)
  | 0, _, _ => none
  | fuel + 1, anchors, ts =>
    match ts with
    | .blockEntry :: ts => do
      let (item, anchors, ts) ←
        readOptional handles true false [.blockEntry, .blockEnd] fuel anchors ts
      let (items, anchors, ts) ← readBlockItems handles fuel anchors ts
      return (item :: items, anchors, ts)
    | .blockEnd :: ts => some ([], anchors, ts)
    | _ => none

def readIndentless (handles : Handles) :
    Nat → Anchors → List Token → Option (List Composed × Anchors × List Token)
  | 0, _, _ => none
  | fuel + 1, anchors, ts =>
    match ts with
    | .blockEntry :: ts => do
      let (item, anchors, ts) ←
        readOptional handles true false [.blockEntry, .key, .value, .blockEnd] fuel anchors ts
      let (items, anchors, ts) ← readIndentless handles fuel anchors ts
      return (item :: items, anchors, ts)
    | ts => some ([], anchors, ts)

def readBlockEntries (handles : Handles) :
    Nat → Anchors → List Token → Option (List (Composed × Composed) × Anchors × List Token)
  | 0, _, _ => none
  | fuel + 1, anchors, ts =>
    match ts with
    | .blockEnd :: ts => some ([], anchors, ts)
    | .key :: ts => do
      let ends := [.key, .value, .blockEnd]
      let (key, anchors, ts) ← readOptional handles true true ends fuel anchors ts
      let (value, anchors, ts) ←
        match ts with
        | .value :: ts => readOptional handles true true ends fuel anchors ts
        | ts => some (emptyNode, anchors, ts)
      let (entries, anchors, ts) ← readBlockEntries handles fuel anchors ts
      return ((key, value) :: entries, anchors, ts)
    | _ => none

def readFlowItems (handles : Handles) (first : Bool) :
    Nat → Anchors → List Token → Option (List Composed × Anchors × List Token)
  | 0, _, _ => none
  | fuel + 1, anchors, ts =>
    match ts with
    | .flowSequenceEnd :: ts => some ([], anchors, ts)
    | ts => do
      let ts ←
        match first, ts with
        | true, ts => some ts
        | false, .flowEntry :: ts => some ts
        | false, _ => none
      match ts with
      | .flowSequenceEnd :: ts => return ([], anchors, ts)
      | ts =>
        let (item, anchors, ts) ←
          match ts with
          | .key :: ts => readPair handles fuel anchors ts
          | ts => readNode handles false false fuel anchors ts
        let (items, anchors, ts) ← readFlowItems handles false fuel anchors ts
        return (item :: items, anchors, ts)

/-- Reads a mapping of one entry within a flow sequence. A key that is left out takes the token
behind it away. -/
def readPair (handles : Handles) :
    Nat → Anchors → List Token → Option (Composed × Anchors × List Token)
  | 0, _, _ => none
  | fuel + 1, anchors, ts => do
    let (key, anchors, ts) ←
      if endsEntry [.value, .flowEntry, .flowSequenceEnd] ts then
        some (emptyNode, anchors, ts.drop 1)
      else readNode handles false false fuel anchors ts
    let (value, anchors, ts) ←
      match ts with
      | .value :: ts =>
        readOptional handles false false [.flowEntry, .flowSequenceEnd] fuel anchors ts
      | ts => some (emptyNode, anchors, ts)
    return (← mappingNode? none [(key, value)], anchors, ts)

def readFlowEntries (handles : Handles) (first : Bool) :
    Nat → Anchors → List Token → Option (List (Composed × Composed) × Anchors × List Token)
  | 0, _, _ => none
  | fuel + 1, anchors, ts =>
    match ts with
    | .flowMappingEnd :: ts => some ([], anchors, ts)
    | ts => do
      let ts ←
        match first, ts with
        | true, ts => some ts
        | false, .flowEntry :: ts => some ts
        | false, _ => none
      match ts with
      | .flowMappingEnd :: ts => return ([], anchors, ts)
      | .key :: ts =>
        let (key, anchors, ts) ←
          readOptional handles false false [.value, .flowEntry, .flowMappingEnd] fuel anchors ts
        let (value, anchors, ts) ←
          match ts with
          | .value :: ts =>
            readOptional handles false false [.flowEntry, .flowMappingEnd] fuel anchors ts
          | ts => some (emptyNode, anchors, ts)
        let (entries, anchors, ts) ← readFlowEntries handles false fuel anchors ts
        return ((key, value) :: entries, anchors, ts)
      | ts =>
        let (key, anchors, ts) ← readNode handles false false fuel anchors ts
        let (entries, anchors, ts) ← readFlowEntries handles false fuel anchors ts
        return ((key, emptyNode) :: entries, anchors, ts)

end

def readDirectives (versioned : Bool) (handles : Handles) :
    List Token → Option (Handles × List Token)
  | .version major minor :: ts => do
    guard (!versioned && major == 1 && (minor == 1 || minor == 2))
    readDirectives true handles ts
  | .tagDirective handle expansion :: ts => do
    guard (List.lookup handle handles).isNone
    readDirectives versioned ((handle, expansion) :: handles) ts
  | ts => some (handles, ts)

def greatestHeight : Nat := 128

/-- Each thing that is written may be reached through aliases this many times on average. -/
def greatestRepetition : Nat := 100

def compose? (ts : List Token) : Option (Option Composed) := do
  if ts.isEmpty then return none
  let fuel := 3 * ts.length + 3
  let (handles, content) ← readDirectives false [] ts
  let handles := handles ++ standardHandles
  let (node, _, rest) ←
    match content with
    | .documentStart :: content =>
      let ends := [.documentStart, .documentEnd]
      let opensDirective :=
        match content with
        | .version .. :: _ => true
        | .tagDirective .. :: _ => true
        | _ => false
      if opensDirective then some (emptyNode, {}, content)
      else readOptional handles true false ends fuel {} content
    | content =>
      if content.length < ts.length then none else readNode handles true false fuel {} content
  guard (rest.dropWhile (· == .documentEnd)).isEmpty
  guard (node.height ≤ greatestHeight ∧ node.jumps ≤ greatestRepetition * node.events)
  return some node

/-- The table that a text describes; `none` if it is no YAML or describes something else. A text
without any value describes the empty table. A byte order mark in front is skipped. -/
def read? (text : String) : Option Config.Table := do
  let cs :=
    match text.toList with
    | '\ufeff' :: cs => cs
    | cs => cs
  match ← compose? (← Token.ofText? cs) with
  | none => return []
  | some node =>
    match node.text, node.content with
    | none, .table entries => return entries
    | some "", _ =>
      guard node.plain
      return []
    | _, _ => none

end LiteralLint.Yaml
