/-
  MessageCatalog.Extraction.LineScan — extraction without a syntax tree.

  Three passes over the text: calls with an object for their argument, exported constants
  with one for their value, and, line by line, inline calls and element attributes.
  Regions accepted in one pass do not overlap: an anchor inside a region already read is
  passed over.
-/

import MessageCatalog.Extraction.Anchor
import MessageCatalog.Extraction.Collection

namespace MessageCatalog.Extraction.LineScan

open Anchor

/-- An object literal found behind an anchor. Positions count from the end of the text:
`left` is what is left at its opening brace, `leftAfter` after its closing brace. -/
structure Region (α : Type) where
  anchor : α
  left : Nat
  leftAfter : Nat
  literal : Text

/-- Where a literal has to start behind an anchor, and what ends the search for it. -/
inductive Outcome where
  | region (fromOpen fromClose : Text)
  /-- Something other than a literal. -/
  | other
  /-- Nothing closed within the window, which is then done with. -/
  | exhausted

def literalIn (skip : Text → Text) (window : Text) : Outcome :=
  match skip window with
  | [] => .exhausted
  | c :: r =>
    if c == '{' then
      match Literal.closingBrace 0 (c :: r) with
      | some s => .region (c :: r) s
      | none => .exhausted
    else .other

/-- The regions behind anchors, from left to right. `scanned` is what was left where the
last region or exhausted window ended; anchors before it do not count. -/
def regions {α : Type} (limits : Limits) (skip : Text → Text) (accept : α → Bool) (scanned : Nat) :
    List (Found α) → List (Region α)
  | [] => []
  | f :: fs =>
    if scanned < f.start.length || !accept f.value then regions limits skip accept scanned fs
    else
      let window := f.rest.take limits.maxContentLength
      let beyond := f.rest.length - window.length
      match literalIn skip window with
      | .other => regions limits skip accept scanned fs
      | .exhausted => regions limits skip accept beyond fs
      | .region o c =>
        let after := beyond + c.length - 1
        ⟨f.value, beyond + o.length, after, Text.upTo o c.tail⟩ :: regions limits skip accept after fs

def callRegions (limits : Limits) (t : Text) : List (Region CallKind) :=
  regions limits Literal.skipTrivia (fun _ => true) t.length (findAll call none t)

/-- The values of exported constants whose names say that they hold messages. -/
def exportRegions (limits : Limits) (t : Text) : List (Region Text) :=
  regions limits Literal.skipWrappers isMessagesName t.length
    (findAll (exported ["const", "let", "var"] 200) none t)

def propertyLiteral (name literal : Text) : Option Text :=
  (findFirst (property name) none literal.dropLast).bind fun r => (Literal.objectLiteral r).map (·.text)

/-! ## Descriptors -/

/-- Descriptors are flattened below this segment, so that one without a name is still
rejected. -/
def descriptorRoot : Text := "_"

/-- The name of the descriptor a flattened key belongs to, and the field of it. -/
def descriptorField (key : Text) : Text × Text := Text.cutLast '.' (key.drop (descriptorRoot.length + 1))

/-- Per descriptor, its fields that can stand for its text. -/
def descriptors (entries : List (Text × Text)) : Table Text (Table Text Text) :=
  entries.foldl
    (fun ds e =>
      let (name, field) := descriptorField e.1
      if !name.isEmpty && descriptorFields.contains field then
        ds.alter name fun d => (d.getD .empty).insert field e.2
      else ds)
    .empty

/-- The text of a descriptor: the first of its fields in the order of preference. -/
def descriptorText (fields : Table Text Text) : Option Text := descriptorFields.findSome? fields.get?

def addDescriptors (c : Collection) (literal : Text) : Logged Collection := do
  let scratch ← Collection.addLiteral { file := c.file, limits := c.limits } literal descriptorRoot
  let c := scratch.warnings.foldl Collection.warn c
  let c := scratch.rejected.toList.foldl
    (fun c key =>
      let (name, field) := descriptorField key
      if (descriptorRoot ++ ".").isPrefixOf key && descriptorFields.contains field then c.reject name else c)
    c
  return (descriptors scratch.keys.entries).entries.foldl
    (fun c d => (descriptorText d.2).elim c (c.add d.1)) c

/-! ## Passes -/

def addCall (c : Collection) (r : Region CallKind) : Logged Collection := do
  let c :=
    if r.anchor = .definition then
      c.setPlugin ((findFirst (fun b t => textProperty "id" b t) none r.literal.dropLast).map (·.1))
    else c
  if r.anchor = .enumerated then addDescriptors c r.literal
  else
    match propertyLiteral r.anchor.property r.literal with
    | some literal => c.addLiteral literal
    | none => return c

def scanCalls (c : Collection) (t : Text) : Logged Collection := (callRegions c.limits t).foldlM addCall c

def scanExports (c : Collection) (t : Text) : Logged Collection :=
  (exportRegions c.limits t).foldlM (fun c r => c.addLiteral r.literal) c

def scanLine (c : Collection) (line : Text) : Collection :=
  let c := (findAll inlineCall none line).foldl (fun c f => c.add f.value.1 (f.value.2.getD f.value.1)) c
  (findAll elementKey none line).foldl (fun c f => c.add f.value f.value) c

def scanLines (c : Collection) (t : Text) : Collection := (Text.lines t).foldl scanLine c

def scan (c : Collection) (t : Text) : Logged Collection := do
  let c ← scanCalls c t
  let c ← scanExports c t
  return scanLines c t

end MessageCatalog.Extraction.LineScan
