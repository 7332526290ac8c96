/-
  MessageCatalog.TypeScript.Types — the rules for types, parameters and binding patterns.
-/

import MessageCatalog.TypeScript.Rule

namespace MessageCatalog.TypeScript.Types

open Peg

def type : Peg Rule := .call .type

/-- A property's or an index's place in an object type or a class. -/
def index : Peg Rule :=
  all [opt (signs ["+", "-"]), opt (word "readonly"), sign "[", .lexeme Token.identifier,
    any [all [sign ":", type], all [word "in", type, opt (all [word "as", type])]],
    sign "]", opt (all [opt (signs ["+", "-"]), sign "?"]), opt (.call .declaredType)]

def signature : Peg Rule := all [opt (.call .typeParameters), .call .parameters, opt (.call .declaredType)]

def memberModifiers : Peg Rule :=
  .many (modifier ["readonly", "public", "private", "protected", "static", "override", "get", "set", "async"])

def objectMember : Peg Rule :=
  any [
    tree .other index,
    tree .other (all [word "new", signature]),
    tree .other signature,
    tree .other (all [memberModifiers, .call .propertyName, opt (sign "?"), signature]),
    tree .propertySignature
      (all [memberModifiers, .role .name (.call .propertyName), opt (sign "?"),
        opt (.role .type (.call .declaredType))])]

def objectType : Peg Rule :=
  let separator : Peg Rule := any [sign ",", sign ";", .ahead (sign "\x7d"), .newLine]
  tree .objectType
    (all [sign "\x7b", opt (signs [",", ";"]), bracketed (.many (.seq objectMember separator)), sign "\x7d"])

def tupleElement : Peg Rule :=
  all [opt (sign "..."), opt (all [anyName, opt (sign "?"), sign ":"]), type, opt (sign "?")]

def literal : Peg Rule :=
  tree .literalType
    (any [string, .leaf .number Token.number, all [sign "-", .leaf .number Token.number],
      words ["true", "false", "null", "undefined"]])

def named : Peg Rule :=
  .fold (tree .identifier (dottedName (.lexeme Token.identifier)))
    (tree .genericType (.role .typeArguments (.call .typeArguments)))

def query : Peg Rule :=
  tree .other
    (all [word "typeof", any [.call .importType, dottedName (any [word "this", .lexeme Token.identifier])],
      opt (all [.sameLine, .call .typeArguments])])

def primaryType : Peg Rule :=
  any [literal, .call .objectType, .call .tupleType, tree .other (all [sign "(", bracketed type, sign ")"]),
    .call .templateType, query, .call .importType, tree .other (words ["this", "void"]), named]

def unaryType : Peg Rule :=
  any [
    tree .other (all [words ["keyof", "unique", "readonly"], .call .unaryType]),
    tree .other
      (all [word "infer", .lexeme Token.identifier, opt (all [word "extends", .call .plainType])]),
    .call .arrayType]

/-- Operands joined by a sign, which may also stand in front of the first. -/
def joined (s : String) (but : List Char) (operand : Peg Rule) : Peg Rule :=
  let next := all [signBut s but, operand]
  .alt (tree .other (.seq next (.many next))) (.fold operand (tree .other next))

def plainType : Peg Rule :=
  any [
    tree .other (all [opt (.call .typeParameters), .call .parameters, sign "=>", .call .predicate]),
    tree .other
      (all [opt (word "abstract"), word "new", opt (.call .typeParameters), .call .parameters, sign "=>", type]),
    .call .unionType]

def conditional : Peg Rule :=
  .fold (.call .plainType)
    (tree .other (all [word "extends", .call .plainType, question, bracketed type, sign ":", type]))

def predicate : Peg Rule :=
  let subject : Peg Rule := any [word "this", .lexeme Token.identifier]
  any [
    tree .other (all [word "asserts", .sameLine, subject, opt (all [word "is", type])]),
    tree .other (all [subject, .sameLine, word "is", type]),
    type]

def typeParameter : Peg Rule :=
  tree .other
    (all [.many (any [word "const", word "in", .seq (word "out") (.ahead (.lexeme Token.identifier))]),
      .lexeme Token.identifier, opt (all [word "extends", type]), opt (all [equals, type])])

/-! ## Parameters and binding patterns -/

def initializer : Peg Rule := all [equals, .call .assignment]

def parameter : Peg Rule :=
  tree .other
    (all [.many (.call .decorator),
      .many (modifier ["public", "private", "protected", "readonly", "override"]),
      any [word "this", .seq (opt (sign "...")) (.call .bindingTarget)],
      opt (sign "?"), opt (.call .declaredType), opt initializer])

def boundElement : Peg Rule := .seq (.call .bindingTarget) (opt initializer)

def boundProperty : Peg Rule :=
  any [
    all [sign "...", .call .bindingTarget],
    all [.call .propertyName, sign ":", boundElement],
    all [identifier, opt initializer]]

def bindingTarget : Peg Rule :=
  any [
    tree .pattern (all [sign "\x7b", bracketed (commaListEnd boundProperty), sign "\x7d"]),
    tree .pattern
      (all [sign "[", bracketed (commaPlaces (any [all [sign "...", .call .bindingTarget], boundElement])), sign "]"]),
    identifier]

end MessageCatalog.TypeScript.Types
