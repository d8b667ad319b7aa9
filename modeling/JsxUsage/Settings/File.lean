import JsxUsage.FileTree.Basic
import JsxUsage.Settings.Basic
import JsxUsage.Toml.Document

/-!
# Settings files

A settings file is a TOML document with the tables `analysis` and `output`.  Each
of the two may also be an array that gives the fields in their order.  What is
not given keeps its default, and keys that mean nothing are ignored.
-/

namespace JsxUsage
namespace Settings

open Toml (Value Entries)

/-! ## Fields -/

def readString : Value -> Option String
  | .string s => some s
  | _ => none

def readStrings : Value -> Option (List String)
  | .array items => items.mapM readString
  | _ => none

def readNat : Value -> Option Nat
  | .integer n => if 0 ≤ n then some n.toNat else none
  | _ => none

def readBool : Value -> Option Bool
  | .boolean b => some b
  | _ => none

/-- The word of a value that is one of several words: a string, or a table with
the word as its only key and nothing below it. -/
def readWord : Value -> Option String
  | .string s => some s
  | .table _ [(word, below)] =>
      match below with
      | .table _ [] => some word
      | .array [] => some word
      | _ => none
  | _ => none

/-- A usage scope by its name; short forms are for the command line only. -/
def readScope (v : Value) : Option UsageScope :=
  match readWord v with
  | some word => [UsageScope.declaration, .file].find? fun scope => scope.name == word
  | none => none

def readFormat (v : Value) : Option OutputFormat :=
  match readWord v with
  | some word => [OutputFormat.mermaid, .json].find? fun format => format.name == word
  | none => none

/-- The fields that a value gives: those of a table by name, those of an array by
their order.  A date has none of them. -/
def fieldsOf (names : List String) : Value -> Option Entries
  | .table _ entries => some entries
  | .array items => some (names.zip items)
  | .tables list => some (names.zip (list.map (Value.table .header)))
  | .datetime _ => some []
  | _ => none

def field {α : Type} (entries : Entries) (name : String) (initial : α)
    (read : Value -> Option α) : Option α :=
  match entries.get? name with
  | none => some initial
  | some v => read v

/-! ## Tables -/

def analysisFields : List String :=
  ["root_component", "extensions", "exclude", "usage_scope", "max_depth", "parallel",
    "strict_parse"]

def readAnalysis (v : Value) : Option AnalysisSettings := do
  let fields ← fieldsOf analysisFields v
  let initial := AnalysisSettings.initial
  let rootComponent ← field fields "root_component" initial.rootComponent readString
  let extensions ← field fields "extensions" initial.extensions readStrings
  let exclude ← field fields "exclude" initial.exclude readStrings
  let usageScope ← field fields "usage_scope" initial.usageScope readScope
  let maxDepth ← field fields "max_depth" initial.maxDepth readNat
  let parallel ← field fields "parallel" initial.parallel readBool
  let strictParse ← field fields "strict_parse" initial.strictParse readBool
  pure { rootComponent, extensions, exclude, usageScope, maxDepth, parallel, strictParse }

def outputFields : List String := ["format", "direction"]

def readOutput (v : Value) : Option OutputSettings := do
  let fields ← fieldsOf outputFields v
  let initial := OutputSettings.initial
  let format ← field fields "format" initial.format readFormat
  let direction ← field fields "direction" initial.direction readString
  pure { format, direction }

def ofEntries (entries : Entries) : Option Settings := do
  let analysis ← field entries "analysis" AnalysisSettings.initial readAnalysis
  let output ← field entries "output" OutputSettings.initial readOutput
  pure { analysis, output }

/-! ## Files -/

def ofText (text : String) : Except Failure Settings :=
  match Toml.ofText? text with
  | none => .error (.settingsText "the text is no TOML document")
  | some entries =>
      match ofEntries entries with
      | none => .error (.settingsText "a field has a value of the wrong type")
      | some s => .ok s

def load (t : FileTree) (path : Path) : Except Failure Settings :=
  match t.readText path with
  | .error e => .error (.io e.message)
  | .ok text =>
      match ofText text with
      | .error f => .error f
      | .ok s => s.validate.map fun _ => s

def loadOrInitial (t : FileTree) (path : Path) : Except Failure Settings :=
  if t.exists? path then load t path else .ok initial

end Settings
end JsxUsage
