import JsxUsage.Toml.Number
import JsxUsage.Toml.Text
import JsxUsage.Toml.Value

/-!
# TOML documents

Keys, values and statements, and the table that the statements of a document
make.  `Toml.ofText?` reads a whole document; a text that is no document has no
value.
-/

namespace JsxUsage
namespace Toml

/-! ## Keys -/

def isKeyChar (c : Char) : Bool :=
  ('a' ≤ c && c ≤ 'z') || ('A' ≤ c && c ≤ 'Z') || ('0' ≤ c && c ≤ '9') || c == '-' || c == '_'

def simpleKey : List Char -> Option (String × List Char)
  | '"' :: rest => (basicString rest).map fun (s, behind) => (String.ofList s, behind)
  | '\'' :: rest => (literalString rest).map fun (s, behind) => (String.ofList s, behind)
  | cs =>
      let word := cs.takeWhile isKeyChar
      if word.isEmpty then none else some (String.ofList word, cs.drop word.length)

def keyParts : (fuel : Nat) -> List Char -> Option (List String × List Char)
  | 0, _ => none
  | fuel + 1, cs =>
      match simpleKey (skipBlanks cs) with
      | none => none
      | some (part, rest) =>
          match skipBlanks rest with
          | '.' :: more => (keyParts fuel more).map fun (parts, behind) => (part :: parts, behind)
          | behind => some ([part], behind)

/-- How deep keys and values go at most. -/
def depthLimit : Nat := 80

def key (cs : List Char) : Option (List String × List Char) :=
  match keyParts (cs.length + 1) cs with
  | some (parts, rest) => if parts.length < depthLimit then some (parts, rest) else none
  | none => none

/-! ## Values -/

abbrev ValueReader := List Char -> Option (Value × List Char)

/-- The items of an array up to its closing bracket.  A comma may follow the last
item. -/
def arrayItems (item : ValueReader) : (fuel : Nat) -> List Char -> Option (List Value × List Char)
  | 0, _ => none
  | fuel + 1, cs =>
      match skipLines cs.length cs with
      | ']' :: behind => some ([], behind)
      | inner =>
          match item inner with
          | none => none
          | some (value, rest) =>
              match skipLines rest.length rest with
              | ']' :: behind => some ([value], behind)
              | ',' :: more =>
                  (arrayItems item fuel more).map fun (values, behind) => (value :: values, behind)
              | _ => none

/-- The entries of an inline table up to its closing brace.  No comma follows the
last entry. -/
def inlineEntries (item : ValueReader) :
    (fuel : Nat) -> Entries -> List Char -> Option (Entries × List Char)
  | 0, _, _ => none
  | fuel + 1, entries, cs =>
      match key cs with
      | some (path, '=' :: rest) =>
          match item (skipBlanks rest) with
          | none => none
          | some (value, rest) =>
              match entries.assign path value with
              | none => none
              | some entries =>
                  match skipBlanks rest with
                  | '\x7d' :: behind => some (entries, behind)
                  | ',' :: more => inlineEntries item fuel entries more
                  | _ => none
      | _ => none

def inlineTable (item : ValueReader) (cs : List Char) : Option (Entries × List Char) :=
  match skipBlanks cs with
  | '\x7d' :: behind => some ([], behind)
  | _ => inlineEntries item (cs.length + 1) [] cs

/-- A value that holds values of at most `depth` levels. -/
def value : (depth : Nat) -> ValueReader
  | depth, cs =>
      match cs with
      | '"' :: _ => (anyString cs).map fun (s, rest) => (.string (String.ofList s), rest)
      | '\'' :: _ => (anyString cs).map fun (s, rest) => (.string (String.ofList s), rest)
      | '[' :: rest =>
          match depth with
          | 0 => none
          | depth + 1 =>
              (arrayItems (value depth) (rest.length + 1) rest).map fun (items, behind) =>
                (.array items, behind)
      | '\x7b' :: rest =>
          match depth with
          | 0 => none
          | depth + 1 =>
              (inlineTable (value depth) rest).map fun (entries, behind) =>
                (.table .inline entries, behind)
      | 't' :: 'r' :: 'u' :: 'e' :: rest => some (.boolean true, rest)
      | 'f' :: 'a' :: 'l' :: 's' :: 'e' :: rest => some (.boolean false, rest)
      | 'i' :: _ => special cs
      | 'n' :: _ => special cs
      | _ => number cs

/-! ## Statements -/

inductive Statement where
  | assign (path : List String) (value : Value)
  | table (path : List String)
  | tables (path : List String)

def header : List Char -> Option (Statement × List Char)
  | '[' :: rest =>
      match key rest with
      | some (path, ']' :: ']' :: behind) => some (.tables path, behind)
      | _ => none
  | rest =>
      match key rest with
      | some (path, ']' :: behind) => some (.table path, behind)
      | _ => none

def statement (cs : List Char) : Option (Statement × List Char) :=
  let read :=
    match cs with
    | '[' :: rest => header rest
    | _ =>
        match key cs with
        | some (path, '=' :: rest) =>
            (value (depthLimit - 1) (skipBlanks rest)).map fun (v, behind) =>
              (.assign path v, behind)
        | _ => none
  match read with
  | none => none
  | some (s, behind) => (finishLine behind).map fun rest => (s, rest)

def statements : (fuel : Nat) -> List Char -> Option (List Statement)
  | 0, _ => none
  | fuel + 1, cs =>
      match skipBlanks cs with
      | [] => some []
      | '#' :: rest =>
          match finishLine ('#' :: rest) with
          | none => none
          | some behind => statements fuel behind
      | rest =>
          match lineEnd rest with
          | some behind => statements fuel behind
          | none =>
              match statement rest with
              | none => none
              | some (s, behind) => (statements fuel behind).map (s :: ·)

/-! ## Documents -/

structure Draft where
  entries : Entries
  opened : List String

def Draft.apply (d : Draft) : Statement -> Option Draft
  | .assign path v =>
      (Entries.within false (fun _ inner => inner.assign path v) d.opened .header d.entries).map
        fun entries => { d with entries }
  | .table path => (d.entries.openTable path).map fun entries => ⟨entries, path⟩
  | .tables path => (d.entries.openTables path).map fun entries => ⟨entries, path⟩

def Draft.applyAll : Draft -> List Statement -> Option Draft
  | d, [] => some d
  | d, s :: rest => (d.apply s).bind fun d => d.applyAll rest

def dropMark : List Char -> List Char
  | '\uFEFF' :: rest => rest
  | cs => cs

def ofText? (text : String) : Option Entries :=
  let cs := dropMark text.toList
  match statements (cs.length + 1) cs with
  | none => none
  | some list => (Draft.applyAll ⟨[], []⟩ list).map Draft.entries

end Toml
end JsxUsage
