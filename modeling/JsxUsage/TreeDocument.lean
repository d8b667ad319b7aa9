import JsxUsage.ComponentTree.Basic
import JsxUsage.Json.Printer

/-!
# Component trees as JSON documents

The document names the root and its file, and lists the nodes in their order.
Files are given relative to a base path where that is their start, and with
slashes only.
-/

namespace JsxUsage
namespace TreeDocument

def fileText (base : Option Path) (file : Path) : String :=
  let shown := (base.bind file.stripStart?).getD file
  String.ofList (shown.text.toList.map fun c => if c == '\\' then '/' else c)

def nodeJson (t : ComponentTree) (base : Option Path) (n : TreeNode) : Json :=
  .object [("id", .string (TreeNode.label n.id)), ("name", .string n.name),
    ("parent", .string (t.parentRef n)), ("file", .string (fileText base n.component.file)),
    ("depth", .number n.depth)]

def ofTree (t : ComponentTree) (base : Option Path) : Json :=
  .object [("root", .string t.rootName), ("root_file", .string (fileText base t.root.file)),
    ("nodes", .array (t.nodes.toList.map (nodeJson t base)))]

def write (t : ComponentTree) (base : Option Path) : String :=
  (ofTree t base).pretty

end TreeDocument
end JsxUsage
