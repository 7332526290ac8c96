/-
  MessageCatalog.TypeScript.Rule — the rules of the grammar, and what their bodies are
  written with.

  The rules are listed in the order of their ranks: at one place in the text a rule calls
  only rules listed before it.
-/

import MessageCatalog.TypeScript.Grammar

namespace MessageCatalog.TypeScript

inductive Rule where
  | template
  | templateType
  | typeArguments
  | typeParameters
  | parameters
  | objectType
  | tupleType
  | importType
  | propertyName
  | arguments
  | array
  | object
  | group
  | element
  | bindingTarget
  | block
  | decorator
  | classBody
  | primaryType
  | arrayType
  | unaryType
  | intersectionType
  | unionType
  | plainType
  | type
  | predicate
  | declaredType
  | arrowBody
  | groupOrArrow
  | functionExpression
  | classExpression
  | newExpression
  | asyncArrow
  | genericArrow
  | primary
  | suffixed
  | unary
  | binary
  | conditional
  | coverAssignment
  | assignment
  | expression
  | declarator
  | declarations
  | functionDeclaration
  | classDeclaration
  | declaration
  | importStatement
  | exportStatement
  | forHead
  | compound
  | jump
  | statement
  | program

def Rule.rank (r : Rule) : Nat := r.ctorIdx

namespace Peg

variable {ρ : Type}

def all : List (Peg ρ) → Peg ρ
  | [] => .empty
  | [a] => a
  | a :: r => .seq a (all r)

def any : List (Peg ρ) → Peg ρ
  | [] => .lexeme fun _ => none
  | [a] => a
  | a :: r => .alt a (any r)

def opt (a : Peg ρ) : Peg ρ := .alt a .empty

def word (w : String) : Peg ρ := .lexeme (Token.word w)

def words (ws : List String) : Peg ρ := any (ws.map word)

def sign (s : String) : Peg ρ := .lexeme (Token.sign s)

def signs (ss : List String) : Peg ρ := any (ss.map sign)

def signBut (s : String) (but : List Char) : Peg ρ := .lexeme (Token.signBut s but)

def tree (k : Kind) (body : Peg ρ) : Peg ρ := .seq .gap (.node (fun _ => k) body)

/-- A node whose kind depends on its children. -/
def treeBy (k : List Node → Kind) (body : Peg ρ) : Peg ρ := .seq .gap (.node k body)

def identifier : Peg ρ := .leaf .identifier Token.identifier

def anyName : Peg ρ := .lexeme Token.name

def string : Peg ρ := .leaf .string Token.string

/-- One or more, with commas between them. -/
def commaList (a : Peg ρ) : Peg ρ := .seq a (.many (all [sign ",", a]))

/-- Any number, with commas between them; one more comma may follow. -/
def commaListEnd (a : Peg ρ) : Peg ρ := opt (all [commaList a, opt (sign ",")])

/-- Places between commas, any of which may be left empty. -/
def commaPlaces (a : Peg ρ) : Peg ρ := .seq (opt a) (.many (all [sign ",", opt a]))

def bracketed (body : Peg ρ) : Peg ρ := .within (fun m => { m with ternary := false }) body

def finish : Peg ρ := .lexeme fun t => if t.isEmpty then some 0 else none

/-- The end of a statement: a semicolon, or where one may be left out. -/
def semicolon : Peg ρ := any [sign ";", .ahead (sign "\x7d"), .ahead finish, .newLine]

def equals : Peg ρ := signBut "=" ['=', '>']

def question : Peg ρ := .lexeme Token.question

/-- A word in front of a name, which is not itself the name. -/
def modifier (ws : List String) : Peg ρ :=
  .seq (words ws) (.absent (signs ["(", ":", "?", "!", "=", ";", ",", "\x7d", ")", "<"]))

def dottedName (first : Peg ρ) : Peg ρ :=
  .seq first (.many (all [signBut "." ['.'], any [anyName, .lexeme Token.privateName]]))

end Peg

end MessageCatalog.TypeScript
