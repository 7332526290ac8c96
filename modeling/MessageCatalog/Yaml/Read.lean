/-
  MessageCatalog.Yaml.Read — the value of a YAML document.

  Tokens are read from left to right, one being enough to tell what comes next. Anchors
  name values that were read before; a value that refers to itself has no use here. Of
  several entries of one key the last counts; merged entries come before a mapping's own.
-/

import MessageCatalog.Yaml.Implicit
import MessageCatalog.Yaml.Token

namespace MessageCatalog.Yaml

/-! ## Values -/

inductive Content where
  | scalar (plain : Bool) (t : Text)
  | sequence (items : List Node)
  | mapping (pairs : List (Node × Node))

def malformed : Fault := .plain .malformedYaml

/-- A node as the value of an item or an entry. -/
def Node.value : Node → Except Fault Data
  | .data d => .ok d
  | .other => .ok .null
  | .merge | .equals => .error malformed
  | .refused fault => .error fault

def Node.key : Node → Except Fault Data
  | .equals => .ok (.text "=")
  | n => do
    let d ← n.value
    if d.isHashable then return d else throw malformed

def merged : Node → Except Fault (List (Data × Data))
  | .data (.mapping ps) => .ok ps
  | .data (.list ds) =>
    match ds.reverse.mapM Data.pairs? with
    | some pss => .ok pss.flatten
    | none => .error malformed
  | .refused fault => .error fault
  | _ => .error malformed

def isMerge : Node × Node → Bool
  | (.merge, _) => true
  | _ => false

def ofEntries (pairs : List (Node × Node)) : Except Fault Data := do
  let inherited ← (pairs.filter isMerge).mapM fun p => merged p.2
  let own ← (pairs.filter fun p => !isMerge p).mapM fun p => do return (← p.1.key, ← p.2.value)
  return .ofPairs (inherited.flatten ++ own)

/-- The start of the tags of YAML's own kinds. -/
def kindStart : Text := "tag:yaml.org,2002:"

/-- A node's value, judged by its tag if it has one. -/
def Content.toNode (host : Host) (tag : Option Text) (c : Content) : Node :=
  let free := tag.all (· == Text.ofString "!")
  let kind := (tag.bind (Text.dropStart? kindStart)).getD []
  match c with
  | .scalar plain t =>
    if !free then ofTagged host kind t else if plain || tag.isSome then ofPlain host t else text t
  | .sequence items =>
    let value : Except Fault Data := (items.mapM Node.value).map .list
    if free || words ["seq"] kind then .ofExcept .data value
    else if words ["omap", "pairs"] kind then .ofExcept (fun _ => .other) value
    else .refused malformed
  | .mapping pairs =>
    if free || words ["map"] kind then .ofExcept .data (ofEntries pairs)
    else if words ["set"] kind then .ofExcept (fun _ => .other) (ofEntries pairs)
    else .refused malformed

/-! ## Reading -/

structure Reader where
  tokens : List Token
  /-- How many nodes may stand inside one another here. -/
  room : Nat
  anchors : List (Text × Node) := []
  handles : List (Text × Text) := [("!", "!"), ("!!", kindStart)]

abbrev Read := StateT Reader (Except Fault)

namespace Read

def refuse {α : Type} : Read α := throw malformed

def next : Read (Option Token) := do return (← get).tokens.head?

def advance : Read Unit := modify fun r => { r with tokens := r.tokens.tail }

def sees (ts : List Token) : Read Bool := do return (← next).any ts.contains

def accept (t : Token) : Read Bool := do
  if ← sees [t] then
    advance
    return true
  else return false

def expect (t : Token) : Read Unit := do
  if !(← accept t) then refuse

def empty : Content := .scalar true []

def null : Node := .data .null

/-! ### Anchors and tags -/

structure Properties where
  anchor : Option Text := none
  tag : Option Text := none

def anchor? : Read (Option Text) := do
  match ← next with
  | some (.anchor name) => do
    advance
    return some name
  | _ => return none

def tag? : Read (Option Text) := do
  match ← next with
  | some (.tag none name) => do
    advance
    return some name
  | some (.tag (some handle) name) => do
    advance
    match (← get).handles.find? (·.1 == handle) with
    | some e => return some (e.2 ++ name)
    | none => refuse
  | _ => return none

/-- An anchor and a tag, in either order, each at most once. -/
def properties : Read Properties := do
  let first ← anchor?
  let tag ← tag?
  if first.isSome || tag.isNone then return ⟨first, tag⟩
  return ⟨← anchor?, tag⟩

def define (name : Text) (n : Node) : Read Unit := modify fun r => { r with anchors := (name, n) :: r.anchors }

/-- Names a node while it is being read; a name is given once. -/
def declare (name : Text) : Read Unit := do
  if (← get).anchors.any (·.1 == name) then refuse
  define name .other

def referTo (name : Text) : Read Node := do
  match (← get).anchors.find? (·.1 == name) with
  | some e => return e.2
  | none => refuse

/-! ### Nodes -/

section

variable (host : Host)

mutual

/-- A node; block collections only where `block` holds, and a sequence that is not
indented only where `inline` does. -/
def node (block inline : Bool) : (fuel : Nat) → Read Node
  | 0 => refuse
  | fuel + 1 => do
    match ← next with
    | some (.alias name) => do
      advance
      referTo name
    | _ => do
      let p ← properties
      if let some name := p.anchor then declare name
      let room := (← get).room
      if room = 0 then throw (.plain .tooDeep)
      modify fun r => { r with room := room - 1 }
      let c ← content block inline (p.anchor.isSome || p.tag.isSome) fuel
      modify fun r => { r with room }
      let n := c.toNode host p.tag
      if let some name := p.anchor then define name n
      return n

/-- What stands at a node; nothing only where `optional` holds. -/
def content (block inline optional : Bool) : (fuel : Nat) → Read Content
  | 0 => refuse
  | fuel + 1 => do
    match ← next with
    | some (.scalar plain t) => do
      advance
      return .scalar plain t
    | some .flowSequence => do
      advance
      return .sequence (← flowItems true fuel)
    | some .flowMapping => do
      advance
      return .mapping (← flowPairs true fuel)
    | t => do
      if inline && t == some .dash then return .sequence (← looseItems fuel)
      if block && t == some .blockSequence then
        advance
        return .sequence (← blockItems fuel)
      if block && t == some .blockMapping then
        advance
        return .mapping (← blockPairs fuel)
      if optional then return empty
      refuse

/-- A node, or null where one of `ends` stands in its place. -/
def nodeUnless (ends : List Token) (block inline : Bool) : (fuel : Nat) → Read Node
  | 0 => refuse
  | fuel + 1 => do if ← sees ends then return null else node block inline fuel

/-- The value after a key; null if there is no colon. -/
def valueUnless (ends : List Token) (block : Bool) : (fuel : Nat) → Read Node
  | 0 => refuse
  | fuel + 1 => do if ← accept .value then nodeUnless ends block block fuel else return null

def blockItems : (fuel : Nat) → Read (List Node)
  | 0 => refuse
  | fuel + 1 => do
    if ← accept .dash then
      let n ← nodeUnless [.dash, .blockEnd] true false fuel
      return n :: (← blockItems fuel)
    else
      expect .blockEnd
      return []

/-- The items of a sequence that is not indented further than its mapping. -/
def looseItems : (fuel : Nat) → Read (List Node)
  | 0 => refuse
  | fuel + 1 => do
    if ← accept .dash then
      let n ← nodeUnless [.dash, .key, .value, .blockEnd] true false fuel
      return n :: (← looseItems fuel)
    else return []

def blockPairs : (fuel : Nat) → Read (List (Node × Node))
  | 0 => refuse
  | fuel + 1 => do
    if ← accept .key then
      let k ← nodeUnless [.key, .value, .blockEnd] true true fuel
      let v ← valueUnless [.key, .value, .blockEnd] true fuel
      return (k, v) :: (← blockPairs fuel)
    else
      expect .blockEnd
      return []

def flowItems (first : Bool) : (fuel : Nat) → Read (List Node)
  | 0 => refuse
  | fuel + 1 => do
    if ← accept .flowSequenceEnd then return []
    if !first then expect .comma
    if ← accept .flowSequenceEnd then return []
    if ← accept .key then
      let k ← nodeUnless [.value, .comma, .flowSequenceEnd] false false fuel
      let v ← valueUnless [.comma, .flowSequenceEnd] false fuel
      return .ofExcept .data (ofEntries [(k, v)]) :: (← flowItems false fuel)
    else
      let n ← node false false fuel
      return n :: (← flowItems false fuel)

def flowPairs (first : Bool) : (fuel : Nat) → Read (List (Node × Node))
  | 0 => refuse
  | fuel + 1 => do
    if ← accept .flowMappingEnd then return []
    if !first then expect .comma
    if ← accept .flowMappingEnd then return []
    if ← accept .key then
      let k ← nodeUnless [.value, .comma, .flowMappingEnd] false false fuel
      let v ← valueUnless [.comma, .flowMappingEnd] false fuel
      return (k, v) :: (← flowPairs false fuel)
    else
      let k ← node false false fuel
      return (k, null) :: (← flowPairs false fuel)

end

end

/-! ### Documents -/

/-- The directives of a document: one version at most, which has to be 1, and one meaning
per handle. -/
def directives (versioned : Bool) (own : List (Text × Text)) : (fuel : Nat) → Read Unit
  | 0 => refuse
  | fuel + 1 => do
    match ← next with
    | some (.version major) => do
      if versioned || major ≠ 1 then refuse
      advance
      directives true own fuel
    | some (.tagHandle handle start) => do
      if own.any (·.1 == handle) then refuse
      advance
      directives versioned ((handle, start) :: own) fuel
    | some .directive => do
      advance
      directives versioned own fuel
    | _ => modify fun r => { r with handles := own ++ r.handles }

def skipEnds : (fuel : Nat) → Read Unit
  | 0 => refuse
  | fuel + 1 => do if ← accept .documentEnd then skipEnds fuel

/-- The document of a stream that has at most one. Only a document with a start mark may
hold nothing. -/
def document (host : Host) (fuel : Nat) : Read Node := do
  if (← next).isNone then return null
  let marked := (← next).any startsDocument
  if marked then
    directives false [] fuel
    expect .documentStart
  let blank := marked && (← next).all fun t => startsDocument t || t == .documentEnd
  let n ← if blank then pure null else node host true false fuel
  skipEnds fuel
  if (← next).isSome then refuse
  return n
where
  startsDocument : Token → Bool
    | .version _ | .tagHandle .. | .directive | .documentStart => true
    | _ => false

end Read

/-- The value of the document in a text. Of four calls of the reader, one inside the
other, one passes a token, so four times their number is deep enough. The host has two
calls pending for each node around another. -/
def read (t : Text) (host : Host := {}) : Except Fault Node := do
  match tokens? t with
  | none => throw malformed
  | some ts =>
    let (n, _) ← (Read.document host (4 * ts.length + 4)).run { tokens := ts, room := host.room / 2 }
    match n with
    | .merge | .equals => throw malformed
    | .refused fault => throw fault
    | n => return n

end MessageCatalog.Yaml
