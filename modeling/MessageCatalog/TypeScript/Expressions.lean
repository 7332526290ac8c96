/-
  MessageCatalog.TypeScript.Expressions — the rules for expressions and elements.

  What turns out to be the left side of an assignment or the parameters of an arrow
  function is first read as an expression: objects, arrays and parenthesized groups may
  hold what only such a place allows. A node for one that does is a `pattern`, and is
  refused where a value is needed.
-/

import MessageCatalog.TypeScript.Rule

namespace MessageCatalog.TypeScript.Expressions

open Peg

def assignment : Peg Rule := .call .assignment

def expression : Peg Rule := .call .expression

def holds (k : Kind) (ns : List Node) : Bool := ns.any fun n => n.kind == k

/-- A value, not something that takes one apart. -/
def isValue (ns : List Node) : Bool := !holds .pattern ns

def template : Peg Rule :=
  tree .template
    (all [sign "`",
      .many (any [.raw Token.templateChars,
        .node (fun _ => .substitution) (all [.raw (Token.sign "$\x7b"), bracketed expression, sign "\x7d"])]),
      .raw (Token.sign "`")])

def templateType : Peg Rule :=
  tree .other
    (all [sign "`",
      .many (any [.raw Token.templateChars, all [.raw (Token.sign "$\x7b"), .call .type, sign "\x7d"]]),
      .raw (Token.sign "`")])

/-! ## Brackets -/

def spread (value : Peg Rule) : Peg Rule := tree .other (.seq (sign "...") value)

def arguments : Peg Rule :=
  tree .arguments (all [sign "(", bracketed (commaPlaces (any [spread assignment, assignment])), sign ")"])

def array : Peg Rule :=
  let cover : Peg Rule := .call .coverAssignment
  treeBy (fun ns => if isValue ns then .array else .pattern)
    (all [sign "[", bracketed (commaPlaces (any [spread cover, cover])), sign "]"])

def methodModifiers : Peg Rule := .seq (.many (modifier ["async", "get", "set", "static"])) (opt (sign "*"))

def objectEntry : Peg Rule :=
  any [
    spread assignment,
    treeBy (fun ns => if isValue ns then .pair else .pattern)
      (all [.role .key (.call .propertyName), sign ":", .role .value (.call .coverAssignment)]),
    tree .other
      (all [methodModifiers, .call .propertyName, opt (sign "?"), opt (.call .typeParameters), .call .parameters,
        opt (.call .declaredType), .call .block]),
    tree .pattern (all [identifier, equals, assignment]),
    identifier]

def object : Peg Rule :=
  treeBy (fun ns => if isValue ns then .object else .pattern)
    (all [sign "\x7b", bracketed (commaPlaces objectEntry), sign "\x7d"])

/-- What one place of a group holds: a value or a parameter. -/
def groupPlace : Peg Rule :=
  let initial : Peg Rule := opt (all [equals, assignment])
  any [
    tree .pattern (all [sign "...", .call .bindingTarget, opt (.call .declaredType)]),
    all [.call .coverAssignment,
      opt (any [
        tree .pattern (all [sign "?", opt (.call .declaredType), initial]),
        tree .pattern (all [.call .declaredType, equals, assignment]),
        .call .declaredType])]]

/-- One value in parentheses, which may be given a type, several, or only parameters. -/
def groupKind (ns : List Node) : Kind :=
  let values := ns.filter fun n => n.kind != .comment && n.kind != .declaredType
  if !isValue ns || holds .mark ns then .pattern
  else if values.length = 1 then .parenthesized
  else if holds .declaredType ns then .pattern
  else .other

/-- An end of a group that only parameters have: nothing in front of it, or a comma. -/
def parametersEnd : Peg Rule := tree .mark (.ahead (sign ")"))

def group : Peg Rule :=
  treeBy groupKind
    (all [sign "(",
      bracketed (any [parametersEnd, all [commaList groupPlace, opt (all [sign ",", parametersEnd])]]),
      sign ")"])

/-! ## Functions and classes -/

def arrowBody : Peg Rule := .seq (sign "=>") (any [.call .block, assignment])

/-- In the middle of a conditional a colon after parentheses is a return type only where
another one follows the function. -/
def arrowTail : Peg Rule :=
  any [
    all [.only (fun m => !m.ternary), tree .other (.seq (opt (.call .declaredType)) (.call .arrowBody))],
    all [.only (·.ternary), tree .other (.call .arrowBody)],
    all [.only (·.ternary), tree .other (.seq (.call .declaredType) (.call .arrowBody)), .ahead (sign ":")]]

def groupOrArrow : Peg Rule := .check isValue (.fold (.call .group) arrowTail)

def functionParts : Peg Rule :=
  all [opt (.call .typeParameters), .call .parameters, opt (.call .declaredType)]

def functionExpression : Peg Rule :=
  tree .other
    (all [opt (.seq (word "async") .sameLine), word "function", opt (sign "*"), opt identifier, functionParts,
      .call .block])

def asyncArrow : Peg Rule :=
  tree .other
    (all [word "async", .sameLine,
      any [identifier, functionParts], .call .arrowBody])

def genericArrow : Peg Rule :=
  tree .other (all [.call .typeParameters, .call .parameters, opt (.call .declaredType), .call .arrowBody])

def heritage : Peg Rule :=
  all [opt (all [word "extends", .call .suffixed, opt (.call .typeArguments)]),
    opt (all [word "implements", commaList (.call .type)])]

def className : Peg Rule := .seq (.absent (word "implements")) identifier

def classExpression : Peg Rule :=
  tree .other
    (all [.many (.call .decorator), opt (word "abstract"), word "class", opt className, opt (.call .typeParameters),
      heritage, .call .classBody])

/-- The start of a function or class with a name. -/
def namedStart : Peg Rule :=
  any [all [opt (.seq (word "async") .sameLine), word "function", opt (sign "*"), identifier],
    all [opt (word "abstract"), word "class", className]]

def classElement : Peg Rule :=
  let fieldEnd : Peg Rule := any [sign ";", sign ",", .ahead (sign "\x7d"), .newLine]
  let modifiers : Peg Rule :=
    .many (modifier ["public", "private", "protected", "static", "override", "readonly", "abstract", "declare",
      "async", "get", "set", "accessor"])
  any [
    .seq (word "static") (.call .block),
    all [modifiers, sign "[", .lexeme Token.identifier, sign ":", .call .type, sign "]", .call .declaredType, fieldEnd],
    all [.many (.call .decorator), modifiers, opt (sign "*"), .call .propertyName, opt (signs ["?", "!"]),
      any [
        all [functionParts, any [.call .block, semicolon]],
        all [opt (.call .declaredType), opt (all [equals, assignment]), fieldEnd]]]]

def classBody : Peg Rule :=
  tree .other (all [sign "\x7b", bracketed (.many (any [tree .other classElement, sign ";"])), sign "\x7d"])

def memberSuffix : Peg Rule :=
  let property : Peg Rule :=
    .role .property (any [.leaf .propertyIdentifier Token.name, .leaf .other Token.privateName])
  any [tree .member (.seq (signBut "." ['.']) property), tree .member (.seq (.lexeme Token.chain) property)]

def subscriptSuffix : Peg Rule :=
  tree .subscript (all [opt (.lexeme Token.chain), sign "[", bracketed expression, sign "]"])

def nonNullSuffix : Peg Rule := .seq .sameLine (tree .nonNull (signBut "!" ['=']))

def decorator : Peg Rule :=
  let call : Peg Rule :=
    tree .call
      (.seq (opt (.role .typeArguments (.call .typeArguments))) (.role .arguments (.call .arguments)))
  tree .other (.seq (sign "@") (.fold (any [.call .groupOrArrow, identifier]) (any [memberSuffix, call])))

def newExpression : Peg Rule :=
  let callee : Peg Rule := .fold (.call .primary) (any [memberSuffix, subscriptSuffix, nonNullSuffix])
  tree .other
    (.seq (word "new")
      (any [.seq (sign ".") (word "target"),
        all [callee, opt (.call .typeArguments), opt (.call .arguments)]]))

/-! ## Elements -/

def element : Peg Rule :=
  let tagName : Peg Rule :=
    tree .identifier
      (.seq (.lexeme Token.elementName) (.many (.seq (signs [".", ":"]) (.lexeme Token.elementName))))
  let inBraces : Peg Rule :=
    tree .elementExpression
      (all [sign "\x7b", bracketed (opt (any [spread assignment, expression])), sign "\x7d"])
  let attributeName : Peg Rule :=
    tree .propertyIdentifier
      (.seq (.lexeme Token.elementName) (opt (.seq (sign ":") (.lexeme Token.elementName))))
  let attributeValue : Peg Rule := any [.leaf .string Token.attributeString, inBraces, .call .element]
  let attr : Peg Rule :=
    any [inBraces, tree .elementAttribute (.seq attributeName (opt (.seq (sign "=") attributeValue)))]
  let tag : Peg Rule :=
    treeBy (fun ns => if holds .mark ns then .selfClosingElement else .openingElement)
      (all [sign "<",
        opt (all [.role .name tagName, opt (.call .typeArguments), .many attr, opt (.leaf .mark (Token.sign "/"))]),
        sign ">"])
  let content : Peg Rule := any [.raw Token.elementText, .raw Token.reference, inBraces, .call .element]
  tree .other
    (.unless (holds .selfClosingElement) tag (all [.many content, sign "</", opt tagName, sign ">"]))

/-! ## Operands -/

def primary : Peg Rule :=
  any [
    string,
    .leaf .number Token.number,
    .call .template,
    .leaf .other Token.regex,
    .call .array,
    .call .object,
    .call .groupOrArrow,
    .seq (.only (·.elements)) (any [.call .element, .call .genericArrow]),
    .call .functionExpression,
    .call .asyncArrow,
    .call .classExpression,
    .call .newExpression,
    tree .other (words ["this", "super", "null", "true", "false"]),
    tree .other (.seq (word "import") (any [.ahead (sign "("), .seq (sign ".") (word "meta")])),
    .leaf .other Token.privateName,
    tree .other (.seq identifier (.call .arrowBody)),
    identifier]

def suffixed : Peg Rule :=
  let calledWith : Peg Rule := .role .arguments (.call .arguments)
  let templateArgument : Peg Rule := .role .arguments (.call .template)
  let typed : Peg Rule := .role .typeArguments (.call .typeArguments)
  .fold (.call .primary)
    (any [
      tree .call calledWith,
      tree .call (.seq typed (any [calledWith, templateArgument])),
      tree .call templateArgument,
      tree .call (all [.lexeme Token.chain, opt typed, calledWith]),
      memberSuffix,
      subscriptSuffix,
      nonNullSuffix,
      tree .other (.seq typed (any [.ahead (signs [")", "]", ",", ";", "\x7d", ":"]), .ahead finish, .newLine]))])

def unary : Peg Rule :=
  let operator : Peg Rule :=
    any [words ["typeof", "void", "delete", "await"], signBut "!" ['='], signs ["~", "++", "--"],
      signBut "-" ['='], signBut "+" ['=']]
  let asserted : Peg Rule :=
    tree .typeArguments (all [sign "<", any [word "const", .call .type], sign ">"])
  any [
    tree .operation (.seq operator (.call .unary)),
    .seq (.only fun m => !m.elements)
      (any [tree .assertion (.seq asserted (.call .unary)), .call .genericArrow]),
    .fold (.call .suffixed) (.seq .sameLine (tree .other (signs ["++", "--"])))]

def binaryOperator : Peg Rule :=
  any [
    signBut "**" ['='], signBut "*" ['=', '*'], signBut "/" ['='], signBut "%" ['='],
    signBut "+" ['=', '+'], signBut "-" ['=', '-'],
    signBut ">>>" ['='], signBut ">>" ['=', '>'], signBut "<<" ['='], sign "<=", sign ">=",
    signBut "<" ['<'], signBut ">" ['>'],
    signs ["===", "!==", "==", "!="],
    signBut "&&" ['='], signBut "||" ['='], signBut "??" ['='],
    signBut "&" ['=', '&'], signBut "|" ['=', '|'], signBut "^" ['='],
    words ["instanceof", "in"]]

def binary : Peg Rule :=
  .fold (.call .unary)
    (any [
      tree .operation (.seq binaryOperator (.call .unary)),
      .seq .sameLine (tree .asExpression (.seq (word "as") (any [word "const", .call .type]))),
      .seq .sameLine (tree .satisfiesExpression (.seq (word "satisfies") (.call .type)))])

def conditional : Peg Rule :=
  .fold (.call .binary)
    (tree .other (all [question, .within (fun m => { m with ternary := true }) assignment, sign ":", assignment]))

def assignmentOperator : Peg Rule :=
  any [equals, signs ["+=", "-=", "*=", "/=", "%=", "**=", "<<=", ">>=", ">>>=", "&=", "|=", "^=", "&&=", "||=", "??="]]

mutual

/-- What a value can be assigned to. An assignment takes the last operand in front of it. -/
def assignable : Node → Bool
  | .mk .operation _ _ operands | .mk .assertion _ _ operands => lastAssignable operands
  | n => [.identifier, .member, .subscript, .nonNull, .parenthesized, .object, .array, .pattern].contains n.kind

def lastAssignable : List Node → Bool
  | [] => false
  | [n] => assignable n
  | _ :: ns => lastAssignable ns

end

def takesValue (ns : List Node) : Bool :=
  ns.all fun n => n.kind != .assignment || (n.children.take 1).all assignable

def coverAssignment : Peg Rule :=
  any [
    tree .other (all [word "yield", opt (.seq .sameLine (sign "*")), opt (.seq .sameLine assignment)]),
    .check takesValue (.fold (.call .conditional) (tree .assignment (.seq assignmentOperator assignment)))]

def propertyName : Peg Rule :=
  any [.leaf .propertyIdentifier Token.name, string, .leaf .number Token.number,
    .leaf .other Token.privateName, tree .other (all [sign "[", bracketed assignment, sign "]"])]

end MessageCatalog.TypeScript.Expressions
