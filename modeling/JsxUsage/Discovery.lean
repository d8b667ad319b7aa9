import JsxUsage.Registry
import JsxUsage.Source.SourceFile

/-!
# Discovering components

The components of a project are the declarations at the top level of its files
that build an element.  They are registered file by file in the order of the
catalog, so that the last file owns a name that several files define.
-/

namespace JsxUsage
namespace Registry

def definitionsIn (path : Path) (source : SourceFile) : List Definition :=
  (source.declarations.filter Declaration.isComponent).map (Definition.ofDeclaration path)

/-- The components of all files.  A file without a source defines nothing. -/
def discover (sources : Path -> Option SourceFile) (files : List Path) : Registry :=
  ofDefinitions (files.flatMap fun path =>
    match sources path with
    | none => []
    | some source => definitionsIn path source)

end Registry
end JsxUsage
