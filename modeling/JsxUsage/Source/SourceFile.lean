import JsxUsage.Path
import JsxUsage.Source.Declaration
import JsxUsage.Source.ImportBinding
import JsxUsage.Syntax.Grammar.Modules

/-!
# Source files

A file's text with its syntax tree, and the facts about it that the analysis
uses: declarations, import bindings, tags and the first broken line.
-/

namespace JsxUsage

open Syntax

structure SourceFile where
  path : Path
  text : String
  dialect : Dialect
  tree : Node

namespace SourceFile

def ofText (path : Path) (dialect : Dialect) (text : String) : SourceFile :=
  ⟨path, text, dialect, parse dialect text⟩

def dialectOf? (path : Path) : Option Dialect :=
  path.extension?.bind Dialect.ofExtension?

def declarations (f : SourceFile) : List Declaration :=
  Declaration.ofProgram f.tree

def imports (f : SourceFile) : List ImportBinding :=
  ImportBinding.ofProgram f.tree

def tags (f : SourceFile) : List String := f.tree.tags

def hasElement (f : SourceFile) : Bool := f.tree.hasElement

def hasSyntaxError (f : SourceFile) : Bool :=
  f.tree.preorder.any Node.isBroken

def firstErrorLine? (f : SourceFile) : Option Nat :=
  (f.tree.descendants.find? Node.isBroken).map Node.line

/-- A short description: path, dialect and number of bytes. -/
def summary (f : SourceFile) : String :=
  "SourceFile \x7b path: \"" ++ f.path.text ++ "\", variant: " ++ f.dialect.name ++
    ", bytes: " ++ toString f.text.utf8ByteSize ++ " \x7d"

end SourceFile
end JsxUsage
