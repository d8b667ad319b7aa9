import JsxUsage.Glob
import JsxUsage.Path

/-!
# Failures

The reasons for which a whole command ends without a result.  Each has a code
for programs and a text for people.
-/

namespace JsxUsage

inductive Failure where
  | io (message : String)
  | settingsText (message : String)
  | settings (message : String)
  | pathNotFound (path : Path)
  | directoryRead (path : Path) (message : String)
  | parse (path : Path) (message : String)
  | rootNotFound (root : String)
  | cyclicUsage (chain : List String)
  | globPattern (fault : GlobFault)
  | parser (message : String)
  | other (message : String)
deriving Repr, Inhabited

namespace Failure

def code : Failure -> String
  | io _ => "io-error"
  | settingsText _ => "config-parse"
  | settings _ => "config-invalid"
  | pathNotFound _ => "path-not-found"
  | directoryRead _ _ => "directory-read"
  | parse _ _ => "parse-error"
  | rootNotFound _ => "root-not-found"
  | cyclicUsage _ => "cyclic-usage"
  | globPattern _ => "glob-pattern"
  | parser _ => "parser-error"
  | other _ => "other"

def chainText (chain : List String) : String :=
  " -> ".intercalate chain

def message : Failure -> String
  | io m => "IO error: " ++ m
  | settingsText m => "Failed to parse config file: " ++ m
  | settings m => "Config validation error: " ++ m
  | pathNotFound p => "Path not found: " ++ p.text
  | directoryRead p m => "Cannot read directory " ++ p.text ++ ": " ++ m
  | parse p m => "Parse error in " ++ p.text ++ ": " ++ m
  | rootNotFound root => "Root component not found: " ++ root
  | cyclicUsage chain => "Cyclic component usage: " ++ chainText chain
  | globPattern fault => "Glob pattern error: " ++ fault.message
  | parser m => "Parser error: " ++ m
  | other m => m

/-- The status with which a command that fails ends: two for a missing root, one
for everything else. -/
def exitStatus : Failure -> Nat
  | rootNotFound _ => 2
  | _ => 1

end Failure
end JsxUsage
