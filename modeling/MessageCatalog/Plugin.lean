/-
  MessageCatalog.Plugin — which plugin a file belongs to, judged by its path.

  In a workspace it is the directory below `plugins`, in a translations tree the one below
  `translations`, and otherwise the directory of the file, or the one above a directory
  for translations. The variant for React shares the plugin of its base.
-/

import MessageCatalog.Text.LowerCase

namespace MessageCatalog.Plugin

/-- The components of a path, empty ones included; both slashes separate. -/
def components (path : Text) : List Text :=
  Text.splitOn '/' (path.map fun (c : Code) => if c == '\\' then Char.toNat '/' else c)

def endsWith (ending t : Text) : Bool := ending.isSuffixOf t

/-- The component after `plugins`, two below a workspace root. -/
def belowWorkspace : List Text → Option Text
  | [] => none
  | a :: rest =>
    match rest with
    | b :: c :: d :: _ =>
      if endsWith "workspaces" a && !b.isEmpty && c == Text.ofString "plugins" && !d.isEmpty then some d
      else belowWorkspace rest
    | _ => none

/-- The directory below a translations root. -/
def belowTranslations : List Text → Option Text
  | [] => none
  | a :: rest =>
    match rest with
    | b :: _ :: _ => if endsWith "translations" a && !b.isEmpty then some b else belowTranslations rest
    | _ => none

def directories (path : Text) : List Text :=
  ((components path).filter fun p => !p.isEmpty && p != Text.ofString ".").dropLast

def isTranslationsName (name : Text) : Bool := Text.contains "translation" name

def nearestDirectory (path : Text) : Option Text :=
  let ds := directories path
  let ds := if ds.getLast?.any isTranslationsName then ds.dropLast else ds
  ds.getLast?

def stripVariant (name : Text) : Text := (Text.dropEnd? "-react" name).getD name

def ofPath? (path : Text) : Option Text :=
  let cs := components path
  (belowWorkspace cs <|> belowTranslations cs <|> nearestDirectory path).map stripVariant

/-- Names of directories that hold code of any plugin. -/
def reservedNames : List Text :=
  (["dist", "build", "node_modules", "packages", "src", "lib", "components", "utils"] : List String).map Text.ofString

def isReserved (name : Text) : Bool := reservedNames.contains (Text.lower name)

end MessageCatalog.Plugin
