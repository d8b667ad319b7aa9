import JsxUsage.Diagnostic
import JsxUsage.FileTree.Walk
import JsxUsage.Text.Blank
import JsxUsage.Text.Lowercase

/-!
# The catalog of source files

The catalog of a project lists the files whose extension is asked for and that
no exclusion covers, in the order of their paths.
-/

namespace JsxUsage

/-! ## Which files belong to a catalog -/

structure CatalogRule where
  extensions : List String
  exclude : List Glob
deriving Repr, Inhabited

namespace CatalogRule

def withoutDots (extension : String) : String :=
  String.ofList (Text.trimFront (· == '.') extension.toList)

def readGlobs : List String -> Except GlobFault (List Glob)
  | [] => .ok []
  | text :: rest =>
      match Glob.ofText text with
      | .error fault => .error fault
      | .ok glob => (readGlobs rest).map (glob :: ·)

/-- The rule with the given extensions, which may begin with dots and stand in
any case, and the given exclusion patterns. -/
def ofTexts (extensions patterns : List String) : Except GlobFault CatalogRule :=
  (readGlobs patterns).map fun globs =>
    ⟨extensions.map fun e => Text.lower (withoutDots e), globs⟩

/-- Whether two texts differ at most in the case of ASCII letters. -/
def sameUpToCase (a b : String) : Bool :=
  a.toList.map Char.toLower == b.toList.map Char.toLower

def hasExtension (rule : CatalogRule) (path : Path) : Bool :=
  match path.extension? with
  | none => false
  | some e => rule.extensions.any fun known => sameUpToCase known e

def relative (root path : Path) : Path :=
  (path.stripStart? root).getD path

/-- Whether a pattern covers the path itself, or whatever the path might hold.
The root is never excluded. -/
def excludes (rule : CatalogRule) (root path : Path) : Bool :=
  let inside := relative root path
  if inside.text == "" then false
  else rule.exclude.any fun glob =>
    glob.accepts inside.text || glob.accepts (inside.join ⟨"_"⟩).text

end CatalogRule

/-!
## Scanning

A walk lists files and faults.  The files with one of the extensions are kept in order,
and each fault becomes a diagnostic.
-/

structure Catalog where
  files : List Path
  diagnostics : List Diagnostic
deriving Repr, Inhabited

namespace Catalog

def diagnosticOf (fault : WalkFault) : Diagnostic :=
  .directoryRead fault.path fault.message

def listed (items : List (Except WalkFault Path)) : List Path :=
  items.filterMap Except.toOption

def faults (items : List (Except WalkFault Path)) : List WalkFault :=
  items.filterMap fun
    | .error fault => some fault
    | .ok _ => none

def scan (t : FileTree) (rule : CatalogRule) (root : Path) : Catalog :=
  let items := t.walk (rule.excludes root) root
  { files := ((listed items).filter rule.hasExtension).mergeSort Path.le
    diagnostics := (faults items).map diagnosticOf }

end Catalog
end JsxUsage
