/-
  MessageCatalog.TypeScript.Parse — from a text to its syntax tree.

  A text that is not a program has no tree.
-/

import MessageCatalog.TypeScript.Statements
import MessageCatalog.TypeScript.Types

namespace MessageCatalog.TypeScript

open Peg

def Rule.body : Rule → Peg Rule
  | .template => Expressions.template
  | .templateType => Expressions.templateType
  | .typeArguments =>
    tree .typeArguments (all [sign "<", bracketed (commaList Types.type), opt (sign ","), sign ">"])
  | .typeParameters =>
    tree .other (all [sign "<", commaList Types.typeParameter, opt (sign ","), sign ">"])
  | .parameters =>
    tree .other (all [sign "(", bracketed (commaListEnd Types.parameter), sign ")"])
  | .objectType => Types.objectType
  | .tupleType =>
    tree .other (all [sign "[", bracketed (commaListEnd Types.tupleElement), sign "]"])
  | .importType =>
    tree .other
      (all [word "import", sign "(", Types.type, sign ")", .many (.seq (sign ".") anyName),
        opt (.seq .sameLine (.call .typeArguments))])
  | .propertyName => Expressions.propertyName
  | .arguments => Expressions.arguments
  | .array => Expressions.array
  | .object => Expressions.object
  | .group => Expressions.group
  | .element => Expressions.element
  | .bindingTarget => Types.bindingTarget
  | .block => Statements.block
  | .decorator => Expressions.decorator
  | .classBody => Expressions.classBody
  | .primaryType => Types.primaryType
  | .arrayType =>
    .fold (.call .primaryType) (.seq .sameLine (tree .other (all [sign "[", opt Types.type, sign "]"])))
  | .unaryType => Types.unaryType
  | .intersectionType => Types.joined "&" ['&'] (.call .unaryType)
  | .unionType => Types.joined "|" ['|', '}'] (.call .intersectionType)
  | .plainType => Types.plainType
  | .type => Types.conditional
  | .predicate => Types.predicate
  | .declaredType => tree .declaredType (.seq (sign ":") (.call .predicate))
  | .arrowBody => Expressions.arrowBody
  | .groupOrArrow => Expressions.groupOrArrow
  | .functionExpression => Expressions.functionExpression
  | .classExpression => Expressions.classExpression
  | .newExpression => Expressions.newExpression
  | .asyncArrow => Expressions.asyncArrow
  | .genericArrow => Expressions.genericArrow
  | .primary => Expressions.primary
  | .suffixed => Expressions.suffixed
  | .unary => Expressions.unary
  | .binary => Expressions.binary
  | .conditional => Expressions.conditional
  | .coverAssignment => Expressions.coverAssignment
  | .assignment => .check Expressions.isValue (.call .coverAssignment)
  | .expression => .fold (.call .assignment) (tree .other (.seq (sign ",") (.call .assignment)))
  | .declarator => Statements.declarator
  | .declarations => Statements.declarations
  | .functionDeclaration => Statements.functionDeclaration
  | .classDeclaration => Statements.classDeclaration
  | .declaration => Statements.declaration
  | .importStatement => Statements.importStatement
  | .exportStatement => Statements.exportStatement
  | .forHead => Statements.forHead
  | .compound => Statements.compound
  | .jump => Statements.jump
  | .statement => Statements.anyStatement
  | .program => Statements.program

def grammar : Grammar Rule := { rule := Rule.body, rank := Rule.rank, top := Rule.program.rank + 1 }

/-- The tree of a program. Elements are written in the same brackets as type assertions,
so a text allows the one or the other. -/
def parse (elements : Bool) (t : Text) : Option Node :=
  ((grammar.run { elements } grammar.top (.call .program) t).bind fun s => s.nodes.head?)

end MessageCatalog.TypeScript
