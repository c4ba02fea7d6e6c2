import UpdaterBootstrap.Yaml.Lexer

/-!
# Nodes of a YAML document

The tokens of a text are read as at most one document: a node with tags, and aliases that refer to
anchored nodes by number.
-/

namespace UpdaterBootstrap

namespace Yaml

inductive Node
  | scalar (tag : Option TagText) (plain : Bool) (text : List Char)
  | sequence (tag : Option TagText) (items : List Node)
  | mapping (tag : Option TagText) (entries : List (Node × Node))
  | reference (anchor : Nat)
  deriving Repr, Inhabited

def Node.empty : Node :=
  .scalar none true []

structure Anchors where
  /-- The numbers of the names, the latest first. -/
  numbers : List (List Char × Nat)
  /-- How many anchors have been met. -/
  count : Nat
  /-- Anchored nodes: how many anchors were met before, the number, and the node. -/
  nodes : List (Nat × Nat × Node)
  deriving Repr

namespace Anchors

def none : Anchors :=
  ⟨[], 0, []⟩

/-- The number of different names so far, which is the number of the next anchor. -/
def next (a : Anchors) : Nat :=
  (a.numbers.map Prod.fst).eraseDups.length

def declare (a : Anchors) (name : List Char) : Anchors :=
  { a with numbers := (name, a.next) :: a.numbers, count := a.count + 1 }

def node? (a : Anchors) (number : Nat) : Option Node :=
  let same := a.nodes.filter fun n => n.2.1 == number
  (same.foldl (fun (best : Option (Nat × Node)) n =>
    match best with
    | some b => if b.1 < n.1 then some (n.1, n.2.2) else best
    | .none => some (n.1, n.2.2)) .none).map Prod.snd

end Anchors

/-! ## Nodes -/

structure Properties where
  anchor : Option (List Char)
  tag : Option TagText
  deriving Repr

def readProperties (handles : TagHandles) : List Token → Reads (Properties × List Token)
  | .anchor name :: .tag handle suffix :: ts | .tag handle suffix :: .anchor name :: ts => do
    let tag ← expandTag handles handle suffix
    return (⟨some name, some tag⟩, ts)
  | .anchor name :: ts => .ok (⟨some name, none⟩, ts)
  | .tag handle suffix :: ts => do
    let tag ← expandTag handles handle suffix
    return (⟨none, some tag⟩, ts)
  | ts => .ok (⟨none, none⟩, ts)

/-- Where a node stands: what else than a plain start of content may begin it. -/
inductive Place
  | block
  /-- In a block mapping, where a sequence need not be indented. -/
  | blockEntry
  | flow
  deriving DecidableEq, Repr

def Place.isFlow : Place → Bool
  | .flow => true
  | _ => false

def endsBlockItem : List Token → Bool
  | .blockEntry :: _ | .blockEnd :: _ => true
  | _ => false

/-- Whether the next token cannot begin a key or value of a block mapping, or an item of a sequence
that stands in one. -/
def endsBlockEntry : List Token → Bool
  | .key :: _ | .value :: _ | .blockEnd :: _ => true
  | _ => false

def endsFlowValue (close : Token) : List Token → Bool
  | t :: _ => t == .flowEntry || t == close
  | [] => true

def skipComma (first : Bool) (ts : List Token) : Reads (List Token) :=
  if first then .ok ts
  else match ts with
    | .flowEntry :: ts => .ok ts
    | _ => malformed

mutual

/-- A node at a place; `fuel` bounds the nesting. -/
def readNode (handles : TagHandles) : Nat → Place → Anchors → List Token →
    Except Malformed (Node × Anchors × List Token)
  | 0, _, _, _ => malformed
  | fuel + 1, place, a, ts =>
    match ts with
    | .reference name :: ts =>
      match a.numbers.lookup name with
      | some number => .ok (.reference number, a, ts)
      | none => malformed
    | ts => do
      let (properties, ts) ← readProperties handles ts
      let before := a.count
      let number := a.next
      let a := match properties.anchor with
        | some name => a.declare name
        | none => a
      let (node, a, ts) ← readContent handles fuel place properties a ts
      let a := match properties.anchor with
        | some _ => { a with nodes := (before, number, node) :: a.nodes }
        | none => a
      return (node, a, ts)

def readContent (handles : TagHandles) : Nat → Place → Properties → Anchors → List Token →
    Except Malformed (Node × Anchors × List Token)
  | 0, _, _, _, _ => malformed
  | fuel + 1, place, p, a, ts =>
    match place, ts with
    | .blockEntry, .blockEntry :: _ => do
      let (items, a, ts) ← readItems handles fuel false [] a ts
      return (.sequence p.tag items, a, ts)
    | _, .scalar plain body :: ts => .ok (.scalar p.tag plain body, a, ts)
    | _, .flowSequenceStart :: ts => do
      let (items, a, ts) ← readFlowItems handles fuel true [] a ts
      return (.sequence p.tag items, a, ts)
    | _, .flowMappingStart :: ts => do
      let (entries, a, ts) ← readFlowEntries handles fuel true [] a ts
      return (.mapping p.tag entries, a, ts)
    | place, ts =>
      match place.isFlow, ts with
      | false, .blockSequenceStart :: ts => do
        let (items, a, ts) ← readItems handles fuel true [] a ts
        return (.sequence p.tag items, a, ts)
      | false, .blockMappingStart :: ts => do
        let (entries, a, ts) ← readEntries handles fuel [] a ts
        return (.mapping p.tag entries, a, ts)
      | _, ts =>
        if p.anchor.isSome || p.tag.isSome then .ok (.scalar p.tag true [], a, ts) else malformed

/-- Items of a block sequence after those read; one that is not indented has no end of its own. -/
def readItems (handles : TagHandles) : Nat → Bool → List Node → Anchors → List Token →
    Except Malformed (List Node × Anchors × List Token)
  | 0, _, _, _, _ => malformed
  | fuel + 1, indented, items, a, ts =>
    match ts with
    | .blockEntry :: ts =>
      if endsBlockItem ts || (!indented && endsBlockEntry ts) then
        readItems handles fuel indented (items ++ [.empty]) a ts
      else do
        let (item, a, ts) ← readNode handles fuel .block a ts
        readItems handles fuel indented (items ++ [item]) a ts
    | ts =>
      if !indented then .ok (items, a, ts)
      else match ts with
        | .blockEnd :: ts => .ok (items, a, ts)
        | _ => malformed

def readEntries (handles : TagHandles) : Nat → List (Node × Node) → Anchors → List Token →
    Except Malformed (List (Node × Node) × Anchors × List Token)
  | 0, _, _, _ => malformed
  | fuel + 1, entries, a, ts =>
    match ts with
    | .blockEnd :: ts => .ok (entries, a, ts)
    | .key :: ts => do
      let (key, a, ts) ←
        if endsBlockEntry ts then .ok (.empty, a, ts) else readNode handles fuel .blockEntry a ts
      let (value, a, ts) ← readBlockValue handles fuel a ts
      readEntries handles fuel (entries ++ [(key, value)]) a ts
    | _ => malformed

def readBlockValue (handles : TagHandles) : Nat → Anchors → List Token →
    Except Malformed (Node × Anchors × List Token)
  | 0, _, _ => malformed
  | fuel + 1, a, ts =>
    match ts with
    | .value :: ts =>
      if endsBlockEntry ts then .ok (.empty, a, ts) else readNode handles fuel .blockEntry a ts
    | ts => .ok (.empty, a, ts)

/-- Items of a flow sequence after those read. An entry among them is a mapping of its own. -/
def readFlowItems (handles : TagHandles) : Nat → Bool → List Node → Anchors → List Token →
    Except Malformed (List Node × Anchors × List Token)
  | 0, _, _, _, _ => malformed
  | fuel + 1, first, items, a, ts =>
    match ts with
    | .flowSequenceEnd :: ts => .ok (items, a, ts)
    | ts => do
      let ts ← skipComma first ts
      match ts with
      | .flowSequenceEnd :: ts => return (items, a, ts)
      | .key :: ts =>
        let (key, a, ts) ←
          match ts with
          | .value :: ts | .flowEntry :: ts | .flowSequenceEnd :: ts => .ok (Node.empty, a, ts)
          | ts => readNode handles fuel .flow a ts
        let (value, a, ts) ← readFlowValue handles fuel .flowSequenceEnd a ts
        readFlowItems handles fuel false (items ++ [.mapping none [(key, value)]]) a ts
      | ts =>
        let (item, a, ts) ← readNode handles fuel .flow a ts
        readFlowItems handles fuel false (items ++ [item]) a ts

def readFlowEntries (handles : TagHandles) : Nat → Bool → List (Node × Node) → Anchors → List Token →
    Except Malformed (List (Node × Node) × Anchors × List Token)
  | 0, _, _, _, _ => malformed
  | fuel + 1, first, entries, a, ts =>
    match ts with
    | .flowMappingEnd :: ts => .ok (entries, a, ts)
    | ts => do
      let ts ← skipComma first ts
      match ts with
      | .flowMappingEnd :: ts => return (entries, a, ts)
      | .key :: ts =>
        let (key, a, ts) ←
          match ts with
          | .value :: _ | .flowEntry :: _ | .flowMappingEnd :: _ => .ok (Node.empty, a, ts)
          | ts => readNode handles fuel .flow a ts
        let (value, a, ts) ← readFlowValue handles fuel .flowMappingEnd a ts
        readFlowEntries handles fuel false (entries ++ [(key, value)]) a ts
      | ts =>
        let (key, a, ts) ← readNode handles fuel .flow a ts
        readFlowEntries handles fuel false (entries ++ [(key, .empty)]) a ts

def readFlowValue (handles : TagHandles) : Nat → Token → Anchors → List Token →
    Except Malformed (Node × Anchors × List Token)
  | 0, _, _, _ => malformed
  | fuel + 1, close, a, ts =>
    match ts with
    | .value :: ts =>
      if endsFlowValue close ts then .ok (.empty, a, ts) else readNode handles fuel .flow a ts
    | ts => .ok (.empty, a, ts)

end

/-! ## Documents -/

def readDirectives (version : Bool) (handles : TagHandles) :
    List Token → Reads (Bool × TagHandles × List Token)
  | .version :: ts => if version then malformed else readDirectives true handles ts
  | .tagDirective handle expansion :: ts =>
    if (handles.lookup handle).isSome then malformed
    else readDirectives version ((handle, expansion) :: handles) ts
  | ts => .ok (version || !handles.isEmpty, handles, ts)

def endsDocument : List Token → Bool
  | .version :: _ | .tagDirective .. :: _ | .documentStart :: _ | .documentEnd :: _
  | .streamEnd :: _ | [] => true
  | _ => false

/-- The node of the one document of the tokens, and its anchors. No document at all is an empty one,
and more than one is a fault. -/
def readDocument (ts : List Token) : Reads (Node × Anchors) := do
  match ts with
  | .streamEnd :: _ => return (.empty, .none)
  | ts =>
    let (directives, own, ts) ← readDirectives false [] ts
    let handles := own ++ defaultHandles
    let fuel := 4 * ts.length + 4
    let (node, a, ts) ←
      match ts with
      | .documentStart :: ts =>
        if endsDocument ts then .ok (.empty, .none, ts) else readNode handles fuel .block .none ts
      | ts => if directives then malformed else readNode handles fuel .block .none ts
    match ts.dropWhile (· == .documentEnd) with
    | [.streamEnd] => return (node, a)
    | _ => malformed

end Yaml

end UpdaterBootstrap
