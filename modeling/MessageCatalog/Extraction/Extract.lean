/-
  MessageCatalog.Extraction.Extract — the keys of one source file.

  The tree is walked and every node handed to the rules for its kind. A source that has
  no tree is scanned line by line instead, and that is said in a warning.
-/

import MessageCatalog.Extraction.KeyRule
import MessageCatalog.Extraction.LineScan
import MessageCatalog.TypeScript.Parse

namespace MessageCatalog.Extraction

open TypeScript (Node)

/-! ## File names -/

/-- The last component of a path; trailing separators and dots for the directory itself
do not count. -/
def fileName (path : Text) : Text :=
  ((Text.splitOn '/' path).filter fun (p : Text) => !p.isEmpty && p != ".").getLastD []

/-- The last extension of a name, dot included; a name that starts or ends with its last
dot has none. -/
def extension (name : Text) : Text :=
  let (stem, last) := Text.cutLast '.' name
  if stem.isEmpty || last.isEmpty || ('.' : Code) ∉ name then [] else "." ++ last

/-- Elements are allowed in every dialect but plain TypeScript. -/
def allowsElements (path : Text) : Bool :=
  let e := Text.lower (extension (fileName path))
  ([".tsx", ".jsx", ".js", ".mjs", ".cjs"] : List String).any fun x => e == Text.ofString x

/-! ## Extraction -/

def gatherNode (c : Collection) (n : Node) : Logged Collection :=
  ((KeyRule.forKind n.kind).filter (·.test n)).foldlM (fun c r => r.gather n c) c

def gatherTree (c : Collection) (root : Node) : Logged Collection := (Node.walk [root]).foldlM gatherNode c

def component : String := "extractor"

def fallbackWarning (path : Text) : Text := "Syntax errors in " ++ path ++ "; used line-oriented fallback scan"

def extract (limits : Limits) (path source : Text) (parser : TypeScript.Parser := TypeScript.parse) :
    Logged Extracted := do
  let c : Collection := { file := path, limits }
  match parser (allowsElements path) source with
  | none =>
    Logged.log (Record.from component ⟨.warning, "Falling back to line scan", [("file", .text path)]⟩)
    let c ← LineScan.scan c source
    return (c.warn (fallbackWarning path)).result true
  | some root =>
    let c ← gatherTree c root
    let x := c.result
    unless x.rejected.isEmpty do
      Logged.log (Record.from component
        ⟨.debug, "Rejected invalid keys",
          [("file", .text path), ("count", .int x.rejected.length), ("sample", .ofTexts (x.rejected.take 5))]⟩)
    return x

end MessageCatalog.Extraction
