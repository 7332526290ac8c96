/-
  MessageCatalog.TypeScript.Node — syntax trees.

  Nodes are told apart as far as recognizing translation keys needs it; every other
  construct is `other`. Only named constructs are nodes, punctuation is not. A comment is
  a node of the innermost construct that it stands inside of.
-/

import MessageCatalog.Text

namespace MessageCatalog.TypeScript

inductive Kind where
  | program
  | comment
  | identifier
  | propertyIdentifier
  | number
  | string
  | template
  | substitution
  | object
  | pair
  | arguments
  | array
  | call
  | member
  | subscript
  /-- Operands and an operator. -/
  | operation
  | assignment
  | asExpression
  | satisfiesExpression
  | parenthesized
  | nonNull
  | assertion
  | exportStatement
  /-- Constants and block variables. -/
  | lexicalDeclaration
  /-- Function-level variables. -/
  | variableDeclaration
  | declarator
  /-- A declared type, colon included. -/
  | declaredType
  | genericType
  | typeArguments
  | literalType
  | objectType
  | propertySignature
  | openingElement
  | selfClosingElement
  | elementAttribute
  | elementExpression
  /-- Something that only stands where a value is taken apart. -/
  | pattern
  /-- A sign that decides how its construct is read. -/
  | mark
  | other
  deriving DecidableEq, Repr

inductive Role where
  | name
  | value
  | key
  | type
  | typeArguments
  | function
  | arguments
  | object
  | property
  | declaration
  deriving DecidableEq, Repr

/-- A piece of a text: where it starts, and its length. -/
structure Span where
  source : Text
  size : Nat

def Span.text (s : Span) : Text := s.source.take s.size

inductive Node where
  | mk (kind : Kind) (role : Option Role) (span : Span) (children : List Node)

namespace Node

def kind : Node → Kind
  | .mk k _ _ _ => k

def role : Node → Option Role
  | .mk _ r _ _ => r

def span : Node → Span
  | .mk _ _ s _ => s

def children : Node → List Node
  | .mk _ _ _ cs => cs

def text (n : Node) : Text := n.span.text

def reads (t : Text) (n : Node) : Bool := n.text == t

def withRole (r : Role) : Node → Node
  | .mk k _ s cs => .mk k (some r) s cs

def child? (n : Node) (r : Role) : Option Node := n.children.find? (·.role == some r)

def childOfKind? (n : Node) (k : Kind) : Option Node := n.children.find? (·.kind == k)

/-- The children that are not comments. -/
def parts (n : Node) : List Node := n.children.filter (·.kind != .comment)

mutual

/-- The node and every node below it, in the order of the text. -/
def preorder : Node → List Node
  | .mk k r s cs => .mk k r s cs :: preorderAll cs

def preorderAll : List Node → List Node
  | [] => []
  | n :: ns => preorder n ++ preorderAll ns

end

mutual

def count : Node → Nat
  | .mk _ _ _ cs => 1 + countAll cs

def countAll : List Node → Nat
  | [] => 0
  | n :: ns => count n + countAll ns

end

theorem countAll_append (as bs : List Node) : countAll (as ++ bs) = countAll as + countAll bs := by
  induction as with
  | nil => simp [countAll]
  | cons a as ih => simp only [List.cons_append, countAll, ih]; omega

/-- The nodes below those on a stack, each before its children. -/
def walk (stack : List Node) : List Node :=
  match stack with
  | [] => []
  | n :: ns => n :: walk (n.children ++ ns)
termination_by countAll stack
decreasing_by
  rw [countAll_append]
  cases n
  simp only [children, countAll, count]
  omega

end Node

/-- A parser is told whether elements are allowed. A source with errors has no tree. -/
abbrev Parser := Bool → Text → Option Node

end MessageCatalog.TypeScript
