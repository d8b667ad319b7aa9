import JsxUsage.ComponentTree.Basic
import JsxUsage.Text.Alphanumeric
import JsxUsage.Text.Blank
import JsxUsage.Text.Split

/-!
# Mermaid flowcharts

A tree is written as a head line with the direction, followed by one line for
each edge.  `Mermaid.readEdges` reads the edges of such a text again.
-/

namespace JsxUsage
namespace Mermaid

/-! ## Writing -/

def reference (s : String) : List Char :=
  s.toList.map fun c => if Text.isAlphanumeric c || c == '_' then c else '_'

def endsLabel (c : Char) : Bool :=
  c == '[' || c == ']' || c == ';' || c == '"'

def label (s : String) : List Char :=
  s.toList.filter fun c => !endsLabel c

def arrow : List Char := " ==> ".toList

def edgeLine (e : TreeEdge) : List Char :=
  "    ".toList ++ reference e.parent ++ arrow ++ e.child.toList ++ '[' :: label e.name ++
    "];\n".toList

def headLine (direction : String) : List Char :=
  "graph ".toList ++ direction.toList ++ ";\n".toList

def write (direction : String) (t : ComponentTree) : String :=
  String.ofList (headLine direction ++ t.edges.flatMap edgeLine)

/-! ## Reading -/

def readEdge (line : List Char) : Option TreeEdge :=
  let bare := Text.trimBack (· == ';') (Text.trimBoth Text.isBlank line)
  match Text.splitOnce arrow bare with
  | none => none
  | some (parent, rest) =>
      match Text.splitOnce ['['] rest with
      | none => none
      | some (child, name) =>
          some ⟨String.ofList parent, String.ofList child,
            String.ofList (Text.trimBack (· == ']') name)⟩

def readEdges (text : String) : List TreeEdge :=
  ((text.toList.splitOn '\n').drop 1).filterMap readEdge

end Mermaid
end JsxUsage
