import JsxUsage.Failure

/-!
# Diagnostics

What an analysis leaves out without failing: a directory or a file that cannot
be read, a usage that would close a cycle, and a component whose children lie
below the greatest depth.
-/

namespace JsxUsage

inductive Diagnostic where
  | directoryRead (path : Path) (message : String)
  | parse (path : Path) (message : String)
  | cyclicUsage (chain : List String)
  | depthLimit (component : String) (depth : Nat)
deriving Repr, Inhabited

namespace Diagnostic

def text : Diagnostic -> String
  | directoryRead p m => "cannot read directory " ++ p.text ++ ": " ++ m
  | parse p m => "cannot parse " ++ p.text ++ ": " ++ m
  | cyclicUsage chain => "cyclic usage truncated: " ++ Failure.chainText chain
  | depthLimit component depth =>
      "depth limit " ++ toString depth ++ " reached at " ++ component

def toFailure : Diagnostic -> Failure
  | directoryRead p m => .directoryRead p m
  | parse p m => .parse p m
  | cyclicUsage chain => .cyclicUsage chain
  | depthLimit component depth => .other (text (depthLimit component depth))

end Diagnostic
end JsxUsage
