/-
  MessageCatalog.TypeScript.Statements — the rules for statements and declarations.
-/

import MessageCatalog.TypeScript.Expressions

namespace MessageCatalog.TypeScript.Statements

open Peg
open Expressions (assignment expression)

def statement : Peg Rule := .call .statement

def type : Peg Rule := .call .type

def block : Peg Rule := tree .other (all [sign "\x7b", bracketed (.many statement), sign "\x7d"])

def bodyOrEnd : Peg Rule := any [.call .block, semicolon]

/-! ## Declarations -/

def declarator : Peg Rule :=
  tree .declarator
    (all [.role .name (.call .bindingTarget), opt (signBut "!" ['=']), opt (.role .type (.call .declaredType)),
      opt (all [equals, .role .value assignment])])

/-- Variables without the end of the statement. -/
def declarations : Peg Rule :=
  let list : Peg Rule := commaList (.call .declarator)
  let letWord : Peg Rule := .seq (word "let") (.ahead (any [.lexeme Token.identifier, sign "\x7b", sign "["]))
  any [tree .lexicalDeclaration (.seq (any [word "const", letWord]) list),
    tree .variableDeclaration (.seq (word "var") list)]

def functionDeclaration : Peg Rule :=
  tree .other
    (all [opt (.seq (word "async") .sameLine), word "function", opt (sign "*"), identifier, Expressions.functionParts,
      bodyOrEnd])

def classDeclaration : Peg Rule :=
  tree .other
    (all [.many (.call .decorator), opt (word "abstract"), word "class", Expressions.className,
      opt (.call .typeParameters), Expressions.heritage, .call .classBody])

def enumDeclaration : Peg Rule :=
  tree .other
    (all [opt (word "const"), word "enum", identifier, sign "\x7b",
      bracketed (commaListEnd (.seq (.call .propertyName) (opt (all [equals, assignment])))), sign "\x7d"])

def interfaceDeclaration : Peg Rule :=
  tree .other
    (all [word "interface", identifier, opt (.call .typeParameters), opt (.seq (word "extends") (commaList type)),
      .call .objectType])

def aliasDeclaration : Peg Rule :=
  tree .other (all [word "type", identifier, opt (.call .typeParameters), equals, type, semicolon])

def moduleName : Peg Rule := any [string, dottedName (.lexeme Token.identifier)]

def namespaceDeclaration : Peg Rule :=
  tree .other (all [words ["namespace", "module"], .sameLine, moduleName, bodyOrEnd])

def importAlias : Peg Rule :=
  tree .other
    (all [word "import", opt (.seq (word "type") (.ahead (.lexeme Token.identifier))), .lexeme Token.identifier, equals,
      any [.seq (word "require") (.call .arguments), dottedName (.lexeme Token.identifier)], semicolon])

def ambient : Peg Rule :=
  tree .other
    (all [word "declare", any [.seq (word "global") (.call .block), .call .declaration]])

def declaration : Peg Rule :=
  any [
    .call .functionDeclaration, .call .classDeclaration,
    .seq (.call .declarations) semicolon,
    enumDeclaration, interfaceDeclaration, aliasDeclaration, namespaceDeclaration, importAlias, ambient]

/-! ## Imports and exports -/

def boundaryName : Peg Rule := any [anyName, string]

def specifier : Peg Rule :=
  any [all [boundaryName, word "as", boundaryName],
    all [word "type", boundaryName, opt (.seq (word "as") boundaryName)],
    boundaryName]

def specifiers : Peg Rule := all [sign "\x7b", commaListEnd specifier, sign "\x7d"]

def source : Peg Rule := all [word "from", string, opt (.seq (words ["with", "assert"]) (.call .object)), semicolon]

def importStatement : Peg Rule :=
  let everything : Peg Rule := all [sign "*", word "as", .lexeme Token.identifier]
  let clause : Peg Rule :=
    any [everything, specifiers,
      .seq (.lexeme Token.identifier) (opt (all [sign ",", any [everything, specifiers]]))]
  tree .other
    (.seq (word "import")
      (any [all [string, opt (.seq (words ["with", "assert"]) (.call .object)), semicolon],
        all [word "type", clause, source],
        .seq clause source]))

def exportStatement : Peg Rule :=
  tree .exportStatement
    (all [.many (.call .decorator), word "export",
      any [
        all [opt (word "type"), sign "*", opt (.seq (word "as") boundaryName), source],
        all [opt (word "type"), specifiers, any [source, semicolon]],
        .seq (word "default") (any [.role .declaration (.call .declaration),
          all [.absent Expressions.namedStart, .role .value assignment, semicolon]]),
        all [sign "=", expression, semicolon],
        all [word "as", word "namespace", identifier, semicolon],
        .role .declaration (.call .declaration)]])

/-! ## Control -/

def condition : Peg Rule := all [sign "(", bracketed expression, sign ")"]

def forHead : Peg Rule :=
  let target : Peg Rule :=
    any [all [words ["var", "let", "const"], .call .bindingTarget, opt (.call .declaredType)],
      .check Expressions.lastAssignable (.call .suffixed)]
  any [
    all [target, words ["of", "in"], expression],
    all [opt (any [.call .declarations, expression]), sign ";", opt expression, sign ";", opt expression]]

def switchBody : Peg Rule :=
  let label : Peg Rule := any [.seq (word "case") expression, word "default"]
  tree .other
    (all [sign "\x7b", bracketed (.many (all [label, sign ":", .many statement])), sign "\x7d"])

def compound : Peg Rule :=
  tree .other
    (any [
      all [word "if", condition, statement, opt (.seq (word "else") statement)],
      all [word "for", opt (word "await"), sign "(", bracketed (.call .forHead), sign ")", statement],
      all [word "while", condition, statement],
      all [word "do", statement, word "while", condition, opt semicolon],
      all [word "try", .call .block,
        opt (all [word "catch",
          opt (all [sign "(", .call .bindingTarget, opt (.call .declaredType), sign ")"]), .call .block]),
        opt (.seq (word "finally") (.call .block))],
      all [word "switch", condition, switchBody],
      all [word "with", condition, statement],
      all [.lexeme Token.identifier, sign ":", statement]])

def jump : Peg Rule :=
  tree .other
    (any [
      all [word "return", opt (.seq .sameLine expression), semicolon],
      all [words ["break", "continue"], opt (.seq .sameLine identifier), semicolon],
      all [word "throw", expression, semicolon],
      all [word "debugger", semicolon]])

/-- Blocks, and functions and classes with names, are statements of their own. -/
def expressionStatement : Peg Rule :=
  tree .other (all [.absent (any [sign "\x7b", Expressions.namedStart]), expression, semicolon])

def anyStatement : Peg Rule :=
  any [.call .block, tree .other (sign ";"), .call .importStatement, .call .exportStatement, .call .declaration,
    .call .compound, .call .jump, expressionStatement]

def program : Peg Rule :=
  .node (fun _ => .program) (all [opt (.raw Token.hashbang), .many statement, finish])

end MessageCatalog.TypeScript.Statements
