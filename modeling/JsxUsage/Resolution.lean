import JsxUsage.Adjacency
import JsxUsage.Catalog
import JsxUsage.Registry
import JsxUsage.Source.SourceFile

/-!
# Resolving usages

A component uses another one if it holds a tag whose name its file imports, and
the imported name is that of a registered component.  An import with a relative
path means the component in the file that the path leads to, if there is one; any
other import means the owner of the name.
-/

namespace JsxUsage

inductive UsageScope where
  | declaration
  | file
deriving Repr, DecidableEq, Inhabited

structure Resolver where
  registry : Registry
  files : List Path
  extensions : List String
  scope : UsageScope
deriving Repr, Inhabited

namespace Resolver

/-! ## Imports -/

def target (importer : Path) (source : String) : Path :=
  let start := importer.parent?.getD ⟨""⟩
  Path.ofParts (Path.normalParts (start.join ⟨source⟩).parts)

/-- The files that a path may mean: itself, itself with an extension, and an
index file below it. -/
def candidates (r : Resolver) (base : Path) : List Path :=
  let name := base.fileName?.getD ""
  base :: r.extensions.map (fun e => base.withFileName (name ++ "." ++ e)) ++
    r.extensions.map (fun e => base.join ⟨"index." ++ e⟩)

def definedAt (r : Resolver) (name : String) (path : Path) : Option ComponentId :=
  if r.files.any (· == path) then (r.registry.definedIn path name).map Definition.id
  else none

def imported (r : Resolver) (importer : Path) (b : ImportBinding) : Option ComponentId :=
  if b.isRelative && b.imported != .whole then
    (r.candidates (target importer b.source)).findSome? (r.definedAt b.lookupName)
  else none

def resolveBinding (r : Resolver) (importer : Path) (b : ImportBinding) : Option ComponentId :=
  match r.imported importer b with
  | some id => some id
  | none => (r.registry.lookup b.lookupName).map Definition.id

/-! ## Children -/

def bindings (r : Resolver) (importer : Path) (imports : List ImportBinding) :
    List (String × ComponentId) :=
  imports.filterMap fun b => (r.resolveBinding importer b).map fun id => (b.localName, id)

def componentOf (bound : List (String × ComponentId)) (tag : String) : Option ComponentId :=
  (bound.find? fun (name, _) => name == tag).map Prod.snd

/-- The tags that count as those of a component.  Where a file declares a name
several times, the last declaration counts. -/
def tagsOf (scope : UsageScope) (fileTags : List String) (declarations : List Declaration)
    (name : String) : List String :=
  match scope with
  | .file => fileTags
  | .declaration =>
      match declarations.reverse.find? fun d => d.name == name with
      | some d => d.tags
      | none => []

def resolveFile (r : Resolver) (sources : Path -> Option SourceFile)
    (group : Path × List Definition) : List (ComponentId × List ComponentId) :=
  match sources group.1 with
  | none => group.2.map fun d => (d.id, [])
  | some source =>
      let bound := r.bindings group.1 source.imports
      let declarations := source.declarations
      let fileTags := source.tags
      group.2.map fun d =>
        (d.id, (tagsOf r.scope fileTags declarations d.name).filterMap (componentOf bound))

def resolve (r : Resolver) (sources : Path -> Option SourceFile) : Adjacency :=
  Adjacency.ofLists (r.registry.byFile.flatMap (r.resolveFile sources))

end Resolver
end JsxUsage
