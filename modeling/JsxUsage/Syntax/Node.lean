/-!
# Syntax trees

A syntax tree is a tree of labelled nodes.  A label holds the kind of
construct, the part that the node plays in its parent, the line on which the
node starts and, for names and quoted texts, the characters of the source.
Punctuation and comments leave no node.  A place that could not be read is an
`error` node; a construct that was assumed although it is not there is a
`missing` node.
-/

namespace JsxUsage
namespace Syntax

inductive Kind where
  | program
  | importStatement
  | importClause
  | namespaceImport
  | namedImports
  | importSpecifier
  | exportStatement
  | functionDeclaration
  | functionSignature
  | generatorDeclaration
  | classDeclaration
  | lexicalDeclaration
  | variableDeclaration
  | variableDeclarator
  | typeDeclaration
  | statement
  | block
  | functionExpression
  | arrowFunction
  | classExpression
  | parameters
  | pattern
  | identifier
  | string
  | template
  | literal
  | object
  | array
  | memberExpression
  | callExpression
  | parenthesized
  | operation
  | typeSyntax
  | jsxElement
  | jsxOpeningElement
  | jsxClosingElement
  | jsxSelfClosingElement
  | jsxNamespaceName
  | jsxAttribute
  | jsxExpression
  | jsxText
  | error
  | missing
deriving Repr, DecidableEq, Inhabited

inductive Role where
  | name
  | value
  | source
  | localName
  | openTag
deriving Repr, DecidableEq, Inhabited

structure Label where
  kind : Kind
  role : Option Role
  line : Nat
  text : String
deriving Repr, DecidableEq, Inhabited

inductive Node where
  | node (label : Label) (children : List Node)
deriving Inhabited

/-! ## Nodes -/

namespace Node

def label : Node -> Label
  | node l _ => l

def children : Node -> List Node
  | node _ cs => cs

def kind (n : Node) : Kind := n.label.kind

def line (n : Node) : Nat := n.label.line

def text (n : Node) : String := n.label.text

def withRole (n : Node) (r : Role) : Node :=
  match n with
  | node l cs => node { l with role := some r } cs

def branch (kind : Kind) (line : Nat) (children : List Node) : Node :=
  node ⟨kind, none, line, ""⟩ children

def leaf (kind : Kind) (line : Nat) (text : String) : Node :=
  node ⟨kind, none, line, text⟩ []

def child? (n : Node) (r : Role) : Option Node :=
  n.children.find? fun c => c.label.role == some r

def isBroken (n : Node) : Bool :=
  n.kind == .error || n.kind == .missing

mutual

def size : Node -> Nat
  | node _ cs => 1 + sizeAll cs

def sizeAll : List Node -> Nat
  | [] => 0
  | c :: cs => size c + sizeAll cs

end

mutual

def preorder : Node -> List Node
  | node l cs => node l cs :: preorderAll cs

def preorderAll : List Node -> List Node
  | [] => []
  | c :: cs => preorder c ++ preorderAll cs

end

end Node
end Syntax
end JsxUsage
