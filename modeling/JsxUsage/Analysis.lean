import JsxUsage.Catalog
import JsxUsage.ComponentTree.Builder
import JsxUsage.Discovery
import JsxUsage.Mermaid
import JsxUsage.ParseCache
import JsxUsage.Resolution
import JsxUsage.Settings.Basic
import JsxUsage.TreeDocument
import JsxUsage.UsageGraph

/-!
# Analysing a project

The whole way from a directory to a component tree: the files are cataloged and
read, their components are registered, the usages are resolved, and the tree of
the root component is built.  Directories and files that cannot be read are left
out and reported.
-/

namespace JsxUsage

structure Analysis where
  root : Path
  files : List Path
  registry : Registry
  adjacency : Adjacency
  diagnostics : List Diagnostic
deriving Repr, Inhabited

namespace Analysis

def parseDiagnostic (failure : Path × String) : Diagnostic :=
  .parse failure.1 failure.2

def ofCatalog (t : FileTree) (s : AnalysisSettings) (root : Path) (catalog : Catalog) : Analysis :=
  let cache := (ParseCache.new s.strictParse).getAll t catalog.files
  let sources := fun path => (cache.get t path).2
  let registry := Registry.discover sources catalog.files
  let resolver : Resolver :=
    { registry
      files := catalog.files
      extensions := s.extensions.map CatalogRule.withoutDots
      scope := s.usageScope }
  { root
    files := catalog.files
    registry
    adjacency := resolver.resolve sources
    diagnostics := catalog.diagnostics ++ cache.failures.map parseDiagnostic }

def canonicalRoot (t : FileTree) (path : Path) : Except Failure Path :=
  if t.exists? path then
    match t.canonical path with
    | .ok root => .ok root
    | .error e => .error (.io e.message)
  else .error (.pathNotFound path)

def ofProject (t : FileTree) (s : Settings) (path : Path) : Except Failure Analysis :=
  match s.validate with
  | .error f => .error f
  | .ok _ =>
      match canonicalRoot t path with
      | .error f => .error f
      | .ok root =>
          match CatalogRule.ofTexts s.analysis.extensions s.analysis.exclude with
          | .error fault => .error (.globPattern fault)
          | .ok rule => .ok (ofCatalog t s.analysis root (Catalog.scan t rule root))

def usageGraph (a : Analysis) : UsageGraph :=
  UsageGraph.build a.registry a.adjacency

def tree (a : Analysis) (rootName : String) (maxDepth : Nat) : Except Failure ComponentTree :=
  ComponentTree.build a.registry a.adjacency maxDepth rootName

def relative (a : Analysis) (path : Path) : Path :=
  (path.stripStart? a.root).getD path

end Analysis

/-!
## Reports

A report is an analysis with the tree of the root component, or fails for want of
that component.
-/

structure Report where
  analysis : Analysis
  tree : ComponentTree
deriving Repr, Inhabited

namespace Report

def ofProject (t : FileTree) (s : Settings) (path : Path) : Except Failure Report :=
  match Analysis.ofProject t s path with
  | .error f => .error f
  | .ok analysis =>
      (analysis.tree s.analysis.rootComponent s.analysis.maxDepth).map fun tree =>
        ⟨analysis, tree⟩

def diagnostics (r : Report) : List Diagnostic :=
  r.analysis.diagnostics ++ r.tree.diagnostics.toList

end Report

namespace OutputSettings

def render (o : OutputSettings) (t : ComponentTree) (base : Option Path) : String :=
  match o.format with
  | .mermaid => Mermaid.write o.direction t
  | .json => TreeDocument.write t base

end OutputSettings

def analyzeProject (t : FileTree) (path : Path) : Except Failure String :=
  (Report.ofProject t Settings.initial path).map fun report =>
    Mermaid.write Settings.initial.output.direction report.tree

end JsxUsage
