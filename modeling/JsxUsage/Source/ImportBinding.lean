import JsxUsage.Text.Blank
import JsxUsage.Syntax.Node

/-!
# Import bindings

The names that a file binds by its import statements, with the module from
which each one comes and the name that it has there.
-/

namespace JsxUsage

open Syntax

inductive ImportedName where
  | default
  | whole
  | named (name : String)
deriving Repr, DecidableEq, Inhabited

structure ImportBinding where
  localName : String
  imported : ImportedName
  source : String
  line : Nat
deriving Repr, DecidableEq, Inhabited

namespace ImportBinding

def lookupName (b : ImportBinding) : String :=
  match b.imported with
  | .named name => name
  | .default => b.localName
  | .whole => b.localName

def isRelative (b : ImportBinding) : Bool :=
  "./".toList.isPrefixOf b.source.toList || "../".toList.isPrefixOf b.source.toList ||
    b.source == "."

def unquoted (s : String) : String :=
  String.ofList (Text.trimBoth (fun c => c == '"' || c == '\'' || c == '`') s.toList)

def ofSpecifier (n : Node) : Option (String × ImportedName) :=
  match n.kind, n.child? .name with
  | .importSpecifier, some name =>
      let imported := unquoted name.text
      let localName :=
        match n.child? .localName with
        | some other => other.text
        | none => imported
      some (localName, .named imported)
  | _, _ => none

def ofPart (n : Node) : List (String × ImportedName) :=
  match n.kind with
  | .identifier => [(n.text, .default)]
  | .namespaceImport =>
      match n.children.find? fun c => c.kind == .identifier with
      | some name => [(name.text, .whole)]
      | none => []
  | .namedImports => n.children.filterMap ofSpecifier
  | _ => []

/-- What an import statement binds.  A statement without a module binds
nothing. -/
def ofStatement (n : Node) : List ImportBinding :=
  match n.child? .source with
  | none => []
  | some source =>
      let clauses := n.children.filter fun c => c.kind == .importClause
      let names := clauses.flatMap fun clause => clause.children.flatMap ofPart
      names.map fun (localName, imported) =>
        ⟨localName, imported, unquoted source.text, n.line⟩

def ofProgram (program : Node) : List ImportBinding :=
  (program.children.filter fun c => c.kind == .importStatement).flatMap ofStatement

end ImportBinding
end JsxUsage
