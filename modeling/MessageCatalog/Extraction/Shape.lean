/-
  MessageCatalog.Extraction.Shape — reading values, names and arguments off a syntax tree.

  Parentheses, type assertions and non-null marks around an expression do not change its
  value and are looked through. Comments are never values.
-/

import MessageCatalog.Literal.Quoted
import MessageCatalog.TypeScript.Node

namespace MessageCatalog.Extraction.Shape

open TypeScript (Node Kind Role)

def isTransparent : Kind → Bool
  | .asExpression | .satisfiesExpression | .parenthesized | .nonNull | .assertion => true
  | _ => false

mutual

/-- The expression inside its wrappers. An assertion in angle brackets has it last, the
other wrappers first. -/
def unwrap : Node → Option Node
  | .mk k r s cs =>
    if isTransparent k then if k = .assertion then unwrapLast cs else unwrapFirst cs else some (.mk k r s cs)

def unwrapFirst : List Node → Option Node
  | [] => none
  | n :: ns => if n.kind = .comment then unwrapFirst ns else unwrap n

def unwrapLast : List Node → Option Node
  | [] => none
  | n :: ns =>
    if ns.all (·.kind == .comment) then if n.kind = .comment then none else unwrap n else unwrapLast ns

end

/-- What a string, or a template without substitutions, denotes. -/
def stringValue (n : Node) : Option Text :=
  (unwrap n).bind fun m =>
    match m.kind with
    | .string => Literal.unquote m.text
    | .template => if (m.childOfKind? .substitution).isSome then none else Literal.unquote m.text
    | _ => none

/-- The name of a property, unless it is computed. -/
def propertyName (n : Node) : Option Text :=
  match n.kind with
  | .propertyIdentifier | .identifier | .number => some n.text
  | .string => Literal.unquote n.text
  | _ => none

def pairs (object : Node) : List (Option Text × Node) :=
  (object.children.filter (·.kind == .pair)).filterMap fun p =>
    (p.child? .value).map fun v => ((p.child? .key).bind propertyName, v)

/-- The value of the first property of a name. -/
def property? (object : Node) (name : Text) : Option Node :=
  ((pairs object).find? (·.1 == some name)).map (·.2)

def isObject (n : Node) : Bool := n.kind == .object

def asObject (n : Node) : Option Node := (unwrap n).filter isObject

def objectProperty? (object : Node) (name : Text) : Option Node := (property? object name).bind asObject

def textProperty? (object : Node) (name : Text) : Option Text := (property? object name).bind stringValue

def arguments (call : Node) : List Node :=
  match call.child? .arguments with
  | some a => if a.kind = .arguments then a.parts else []
  | none => []

/-- The name of the function that is called, if a name is all it is. -/
def callee? (call : Node) : Option Text := ((call.child? .function).filter (·.kind == .identifier)).map (·.text)

def firstObject? (call : Node) : Option Node := ((arguments call).head?).bind asObject

/-- The text a literal type stands for, with or without the colon of a declared type. -/
def literalType? (n : Node) : Option Text :=
  let inner := if n.kind = .declaredType then n.children.head? else some n
  ((inner.filter (·.kind == .literalType)).bind (·.childOfKind? .string)).bind stringValue

end MessageCatalog.Extraction.Shape
