import JsxUsage.Syntax.Cursor

/-!
# Elements and tags in a syntax tree

Which elements a tree holds.  An element counts if it has a name of any kind;
only a name that is a single word is listed as a tag, because only such a name
can stand for an imported binding.
-/

namespace JsxUsage
namespace Syntax
namespace Node

def openTag? (n : Node) : Option Node :=
  match n.child? .openTag with
  | some tag => some tag
  | none => n.children.head?

/-- Whether the node is an element with a name.  A fragment has none. -/
def isNamedElement (n : Node) : Bool :=
  match n.kind with
  | .jsxSelfClosingElement => true
  | .jsxElement =>
      match n.openTag? with
      | some tag => (tag.child? .name).isSome
      | none => false
  | _ => false

def hasElement (n : Node) : Bool :=
  n.descendants.any isNamedElement

def ownTag? (n : Node) : Option String :=
  match n.kind with
  | .jsxOpeningElement | .jsxSelfClosingElement =>
      match n.child? .name with
      | some name => if name.kind == .identifier then some name.text else none
      | none => none
  | _ => none

def tags (n : Node) : List String :=
  n.descendants.filterMap ownTag?

end Node
end Syntax
end JsxUsage
