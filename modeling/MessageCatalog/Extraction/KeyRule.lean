/-
  MessageCatalog.Extraction.KeyRule — the shapes in a syntax tree that define keys.

  Each rule names the kinds of node it looks at, a test, and what it gathers from a node
  that passes. The rules are tried in the order of `all`, and every rule that applies to
  a node is followed.
-/

import MessageCatalog.Extraction.Collection
import MessageCatalog.Extraction.Shape
import MessageCatalog.Extraction.Vocabulary

namespace MessageCatalog.Extraction

open TypeScript (Node Kind)

structure KeyRule where
  kinds : List Kind
  test : Node → Bool
  gather : Node → Collection → Logged Collection

namespace KeyRule

def applies (r : KeyRule) (n : Node) : Bool := r.kinds.contains n.kind && r.test n

/-! ## Calls with an object -/

def callsWithObject (k : CallKind) (n : Node) : Bool :=
  Shape.callee? n == some k.callee && (Shape.firstObject? n).isSome

def gatherProperty (k : CallKind) (n : Node) (c : Collection) : Logged Collection :=
  match (Shape.firstObject? n).bind fun o => Shape.objectProperty? o k.property with
  | some literal => c.addLiteral literal.text
  | none => return c

def gatherDefinition (n : Node) (c : Collection) : Logged Collection :=
  gatherProperty .definition n (c.setPlugin ((Shape.firstObject? n).bind fun o => Shape.textProperty? o "id"))

def descriptorText (object : Node) : Option Text := descriptorFields.findSome? (Shape.textProperty? object)

def addDescriptor (c : Collection) (p : Option Text × Node) : Collection :=
  match p.1, (Shape.asObject p.2).bind descriptorText with
  | some name, some text => c.add name text
  | _, _ => c

def gatherDescriptors (n : Node) (c : Collection) : Logged Collection :=
  return ((Shape.firstObject? n).elim [] Shape.pairs).foldl addDescriptor c

def definitionCall : KeyRule := ⟨[.call], callsWithObject .definition, gatherDefinition⟩

def resourceCall : KeyRule := ⟨[.call], callsWithObject .resource, gatherProperty .resource⟩

def overrideCall : KeyRule := ⟨[.call], callsWithObject .override, gatherProperty .override⟩

def enumeratedCall : KeyRule := ⟨[.call], callsWithObject .enumerated, gatherDescriptors⟩

/-! ## Exported constants -/

def exportedDeclarators (n : Node) : List Node :=
  match n.child? .declaration with
  | some d =>
    if d.kind = .lexicalDeclaration || d.kind = .variableDeclaration then
      d.children.filter (·.kind == .declarator)
    else []
  | none => []

def messagesObject? (declarator : Node) : Option Node :=
  match declarator.child? .name with
  | some name =>
    if name.kind = .identifier && isMessagesName name.text then (declarator.child? .value).bind Shape.asObject
    else none
  | none => none

def exportedMessages : KeyRule where
  kinds := [.exportStatement]
  test n := !(exportedDeclarators n).isEmpty
  gather n c := ((exportedDeclarators n).filterMap messagesObject?).foldlM (fun c o => c.addLiteral o.text) c

/-! ## Inline calls -/

def hookName : Text := "useTranslation"

/-- `t` itself, or the member `t` of `i18n` or of what `useTranslation()` gives. -/
def isTranslate (function : Node) : Bool :=
  match function.kind with
  | .identifier => Node.reads "t" function
  | .member =>
    (function.child? .property).any (Node.reads "t") &&
      (function.child? .object).any fun target =>
        match target.kind with
        | .identifier => Node.reads "i18n" target
        | .call => Shape.callee? target == some hookName && (Shape.arguments target).isEmpty
        | _ => false
  | _ => false

/-- The key of an inline call, and the text for it: the second argument, else the key. -/
def inlineKey? (n : Node) : Option (Text × Text) :=
  match Shape.arguments n with
  | [] => none
  | k :: rest => (Shape.stringValue k).map fun key => (key, (rest.head?.bind Shape.stringValue).getD key)

def inlineCall : KeyRule where
  kinds := [.call]
  test n := (n.child? .function).any isTranslate
  gather n c := return (inlineKey? n).elim c fun e => c.add e.1 e.2

/-! ## Elements -/

/-- The text of an attribute's value. A string there has no escapes. -/
def attributeText? (value : Node) : Option Text :=
  match value.kind with
  | .string => some ((value.text.drop 1).dropLast)
  | .elementExpression =>
    match value.parts with
    | [inner] => Shape.stringValue inner
    | _ => none
  | _ => none

def elementKey? (attr : Node) : Option Text :=
  match attr.children with
  | name :: value :: rest =>
    if attr.kind = .elementAttribute && Node.reads "i18nKey" name then attributeText? ((value :: rest).getLast (by simp))
    else none
  | _ => none

def translatedElement : KeyRule where
  kinds := [.openingElement, .selfClosingElement]
  test n := (n.child? .name).any (Node.reads "Trans")
  gather n c := return (n.children.filterMap elementKey?).foldl (fun c k => c.add k k) c

/-! ## Types -/

/-- The two arguments of a declared type that carries its keys. -/
def typedKeys? (declarator : Node) : Option (Node × Node) := do
  let declared ← (← declarator.child? .type).children.head?
  if declared.kind = .genericType then
    let name ← declared.child? .name <|> declared.children.head?
    if (Text.cutLast '.' name.text).2 = typeReference then
      match (← declared.child? .typeArguments <|> declared.childOfKind? .typeArguments).parts with
      | [plugin, record] => some (plugin, record)
      | _ => none
    else none
  else none

def typedKey? (member : Node) : Option (Text × Text) :=
  if member.kind = .propertySignature then do
    let key ← (← member.child? .name) |> Shape.propertyName
    let value ← (← member.child? .type) |> Shape.literalType?
    return (key, value)
  else none

def typeDeclaration : KeyRule where
  kinds := [.declarator]
  test n := (typedKeys? n).isSome
  gather n c :=
    return (typedKeys? n).elim c fun (plugin, record) =>
      let c := c.setPlugin (Shape.literalType? plugin)
      if record.kind = .objectType then
        (record.children.filterMap typedKey?).foldl (fun c e => c.add e.1 e.2) c
      else c

def all : List KeyRule :=
  [definitionCall, resourceCall, overrideCall, enumeratedCall, exportedMessages, inlineCall, translatedElement,
    typeDeclaration]

/-- The rules under each kind of node they look at. -/
def index (rules : List KeyRule) : Table Kind (List KeyRule) :=
  rules.foldl (fun t r => r.kinds.foldl (fun t k => t.alter k fun rs => rs.getD [] ++ [r]) t) .empty

def dispatch : Table Kind (List KeyRule) := index all

/-- The rules that look at a kind of node, in their order. -/
def forKind (k : Kind) : List KeyRule := (dispatch.get? k).getD []

end KeyRule

end MessageCatalog.Extraction
