/-!
# Dialects of the source language

A file's extension decides how its text is read.  All four dialects allow
markup elements; only the two typed ones allow type annotations.
-/

namespace JsxUsage
namespace Syntax

inductive Dialect where
  | javaScript
  | jsx
  | typeScript
  | tsx
deriving Repr, DecidableEq, Inhabited

namespace Dialect

def ofExtension? (extension : String) : Option Dialect :=
  match extension.toLower with
  | "js" => some javaScript
  | "mjs" => some javaScript
  | "cjs" => some javaScript
  | "jsx" => some jsx
  | "ts" => some typeScript
  | "mts" => some typeScript
  | "cts" => some typeScript
  | "tsx" => some tsx
  | _ => none

def isTyped : Dialect -> Bool
  | javaScript => false
  | jsx => false
  | typeScript => true
  | tsx => true

def name : Dialect -> String
  | javaScript => "JavaScript"
  | jsx => "Jsx"
  | typeScript => "TypeScript"
  | tsx => "Tsx"

end Dialect
end Syntax
end JsxUsage
